import RentCompass.Tools.StrictFitting

/-!
# Where strict schemas are compliant

Where the only branch of a property has properties and the property has none, `required` and
`additionalProperties` of the property stand in for those of the branch, and they need not be about
its properties.
-/

namespace RentCompass.Tools

open JsonValue

variable {φ : Type} {C P D : JsonValue φ → Prop} {F : JsonValue φ → Place → Prop}

/-! ### A branch under the keywords of its property -/

section Merge

variable {branch value : Dict (JsonValue φ)}

/-- The core of a property with one branch. -/
def mergedCore (branch value : Dict (JsonValue φ)) : Dict (JsonValue φ) :=
  mergeDicts (encoded branch false) (encoded value false)

lemma get?_mergedCore (hvalue : value.keys.Nodup) (key : Text) :
    (mergedCore branch value).get? key =
      ((encoded value false).get? key).or ((encoded branch false).get? key) :=
  get?_mergeDicts (encoded_keys hvalue false) key

/-- A keyword of the branch shows unless the property has it. -/
lemma overridden_iff (hvalue : value.keys.Nodup) {key : Text} (hkey : key ∈ schemaKeys) :
    (encoded value false).get? key = none ↔ (key ∈ value.keys → isFreeForm value false) := by
  by_cases hfree : isFreeForm value false
  · obtain ⟨description, heq⟩ := encoded_of_freeForm hvalue hfree
    rw [heq]
    refine iff_of_true (Dict.get?_eq_none ?_) fun _ => hfree
    simp only [schemaKeys, List.mem_cons, List.not_mem_nil, or_false] at hkey
    rcases hkey with rfl | rfl | rfl | rfl <;> simp [Dict.keys]
  · have hall : ∀ key ∈ schemaKeys, key ≠ "additionalProperties" ∧ key ≠ "required" := by decide
    obtain ⟨hclosed, hrequired⟩ := hall key hkey
    rw [get?_encoded_of_ne hvalue (Bool.not_eq_true _ ▸ hfree) hclosed hrequired]
    constructor
    · intro hnone hmem
      obtain ⟨v, hget⟩ := Dict.exists_get? hmem
      rw [hget, Option.bind_some] at hnone
      exact absurd hkey (notMem_of_transform_none hnone)
    · intro himp
      rw [Dict.get?_eq_none fun hmem => hfree (himp hmem), Option.bind_none]

/-- The keywords of the core are compliant where those of the property and what shows of the
branch are. -/
lemma keywords_mergedCore (hC : TypeFree C) (hbranch : branch.keys.Nodup) (hvalue : value.keys.Nodup)
    (hunder : ∀ key v, branch.get? key = some v → AgreesUnder C F key v) :
    (∀ key w, (mergedCore branch value).get? key = some w → KeywordOk C key w) ↔
      (∀ key w, (encoded value false).get? key = some w → KeywordOk C key w) ∧
      (isFreeForm branch false = false → ∀ key v, branch.get? key = some v →
        (key ∈ value.keys → isFreeForm value false) → KeywordFits F key v) := by
  have hsplit : (∀ key w, (mergedCore branch value).get? key = some w →
      KeywordOk C key w) ↔
      ∀ key, (∀ w, (encoded value false).get? key = some w → KeywordOk C key w) ∧
        ((encoded value false).get? key = none → ∀ w, (encoded branch false).get? key = some w →
          KeywordOk C key w) := by
    refine forall_congr' fun key => ?_
    rw [get?_mergedCore hvalue]
    cases (encoded value false).get? key <;> simp
  rw [hsplit, forall_and]
  refine and_congr Iff.rfl ?_
  by_cases hfree : isFreeForm branch false
  · obtain ⟨description, heq⟩ := encoded_of_freeForm hbranch hfree
    have hok := nodeCompliant_freeForm C C False description
    rw [heq]
    exact iff_of_true (fun key _ w hw => hok.keyword key w hw) fun hnot => by simp [hfree] at hnot
  · have hfree : isFreeForm branch false = false := Bool.not_eq_true _ ▸ hfree
    simp only [hfree, forall_const]
    refine forall_congr' fun key => ?_
    have hkeywords := keywords_encoded hC hbranch hfree (hunder key)
    by_cases hkey : key ∈ schemaKeys
    · rw [hkeywords, overridden_iff hvalue hkey]
      exact ⟨fun h v hget himp => h himp v hget, fun h himp v hget => h v hget himp⟩
    · exact iff_of_true (fun _ => hkeywords.2 fun v _ => keywordFits_of_notMem hkey)
        fun v _ _ => keywordFits_of_notMem hkey

/-- A property without properties of its own shows those of its branch. -/
lemma encoded_properties_none (hvalue : NodeShape value) (hnone : propertiesOf value = []) :
    (encoded value false).get? "properties" = none := by
  by_cases hfree : isFreeForm value false
  · obtain ⟨description, heq⟩ := encoded_of_freeForm hvalue.keys hfree
    rw [heq]
    rfl
  · have hobj : ¬ isObjectNode value := fun hobj => hfree (isFreeForm_iff.2 ⟨hobj, hnone⟩)
    rw [get?_encoded_of_ne hvalue.keys (Bool.not_eq_true _ ▸ hfree) (by decide) (by decide)]
    cases hget : value.get? "properties" with
    | none => rfl
    | some v =>
      obtain ⟨props, rfl, -⟩ := hvalue.properties v hget
      exact absurd (isObjectNode_iff.2 (.inr ⟨props, hget⟩)) hobj

/-- What a property without properties of its own says of `required` and
`additionalProperties`. -/
lemma get?_encoded_rebuilt (hvalue : value.keys.Nodup) (hnone : propertiesOf value = [])
    {key : Text} (hkey : key = "additionalProperties" ∨ key = "required") :
    (encoded value false).get? key = if isObjectNode value then none else value.get? key := by
  by_cases hobj : isObjectNode value
  · obtain ⟨description, heq⟩ := encoded_of_freeForm hvalue (isFreeForm_iff.2 ⟨hobj, hnone⟩)
    rw [heq, if_pos hobj]
    rcases hkey with rfl | rfl <;> rfl
  · rw [if_neg hobj, get?_encoded_plain hvalue (Bool.not_eq_true _ ▸ hobj) hkey]

/-- Under a property without properties of its own, a keyword that is rebuilt is that of the
property, if the property is no object and has it. -/
lemma get?_shown (hbranch : branch.keys.Nodup) (hvalue : value.keys.Nodup)
    (hnone : propertiesOf value = []) (hsome : propertiesOf branch ≠ []) :
    (mergedCore branch value).get? "additionalProperties" =
        (if isObjectNode value then none else value.get? "additionalProperties").or
          (some (.bool false)) ∧
      (mergedCore branch value).get? "required" =
        (if isObjectNode value then none else value.get? "required").or
          (some (.arr ((propertiesOf branch).keys.map .str))) := by
  obtain ⟨hobj, hfree⟩ := object_of_properties hsome
  constructor
  · rw [get?_mergedCore hvalue, get?_encoded_rebuilt hvalue hnone (.inl rfl),
      get?_encoded_closed hbranch hfree hobj]
  · rw [get?_mergedCore hvalue, get?_encoded_rebuilt hvalue hnone (.inr rfl),
      get?_encoded_required hbranch hfree hobj]

lemma propertiesOf_shown (hbranch : branch.keys.Nodup) (hvalue : NodeShape value)
    (hnone : propertiesOf value = []) (hsome : propertiesOf branch ≠ []) :
    propertiesOf (mergedCore branch value) =
      (propertiesOf branch).map (encodedProperty (requiredNames branch)) := by
  rw [← propertiesOf_encoded hbranch (object_of_properties hsome).2, propertiesOf, propertiesOf,
    get?_mergedCore hvalue.keys, encoded_properties_none hvalue hnone, Option.none_or]

/-- The properties of the branch under the `required` and `additionalProperties` of a property. -/
lemma objectOk_shown (hbranch : branch.keys.Nodup) (hvalue : NodeShape value)
    (hprops : PropertiesAgree P F branch) (hnone : propertiesOf value = [])
    (hsome : propertiesOf branch ≠ []) :
    ObjectOk P False (mergedCore branch value) ↔
      PropertiesFit F branch ∧ (isObjectNode value = false →
        (∀ v, value.get? "additionalProperties" = some v → v = .bool false) ∧
        ∀ names, value.get? "required" = some (.arr names) →
          (∀ p ∈ propertiesOf branch, .str p.1 ∈ names) ∧
          ∀ r ∈ names, ∃ p ∈ propertiesOf branch, r = .str p.1) := by
  obtain ⟨hclosed, hrequired⟩ := get?_shown hbranch hvalue.keys hnone hsome
  have hproperties := propertiesOf_shown hbranch hvalue hnone hsome
  have hne : propertiesOf (mergedCore branch value) ≠ [] := by
    rw [hproperties]
    simpa using hsome
  rw [← propertiesAgree_iff hprops, ← hproperties]
  have hlisted : (∀ p ∈ propertiesOf (mergedCore branch value),
      .str p.1 ∈ requiredOf (mergedCore branch value)) ↔
      ∀ p ∈ propertiesOf branch, .str p.1 ∈ requiredOf (mergedCore branch value) := by
    rw [hproperties, List.forall_mem_map]
    rfl
  have hknown (r : JsonValue φ) : (∃ p ∈ propertiesOf (mergedCore branch value), r = .str p.1) ↔
      ∃ p ∈ propertiesOf branch, r = .str p.1 := by
    rw [hproperties]
    simp [encodedProperty]
  constructor
  · intro hok
    refine ⟨hok.properties, fun hplain => ⟨fun v hv => ?_, fun names hnames => ⟨?_, ?_⟩⟩⟩
    · have heq := hclosed.symm.trans hok.closed
      simpa [hplain, hv] using heq
    · have heq : requiredOf (mergedCore branch value) = names := by
        rw [requiredOf, hrequired]
        simp [hplain, hnames]
      exact heq ▸ hlisted.1 hok.missing
    · have heq : requiredOf (mergedCore branch value) = names := by
        rw [requiredOf, hrequired]
        simp [hplain, hnames]
      exact fun r hr => (hknown r).1 (hok.extra r (heq ▸ hr))
  · rintro ⟨hall, hplain⟩
    have hnames : (∀ p ∈ propertiesOf branch, .str p.1 ∈ requiredOf (mergedCore branch value)) ∧
        ∀ r ∈ requiredOf (mergedCore branch value), ∃ p ∈ propertiesOf branch, r = .str p.1 := by
      by_cases hobject : isObjectNode value
      · refine listed_of_names ?_
        rw [requiredOf, hrequired, if_pos hobject]
        rfl
      · cases hget : value.get? "required" with
        | none =>
          refine listed_of_names ?_
          rw [requiredOf, hrequired, hget]
          simp
        | some v =>
          obtain ⟨names, rfl⟩ := hvalue.required v hget
          have heq : requiredOf (mergedCore branch value) = names.map .str := by
            rw [requiredOf, hrequired, hget, if_neg hobject]
            rfl
          rw [heq]
          exact (hplain (Bool.not_eq_true _ ▸ hobject)).2 _ hget
    refine ⟨?_, fun hnil => absurd hnil hne, hlisted.2 hnames.1,
      fun r hr => (hknown r).2 (hnames.2 r hr), hall⟩
    rw [hclosed]
    by_cases hobject : isObjectNode value
    · rw [if_pos hobject]
      rfl
    · rw [if_neg hobject]
      cases hget : value.get? "additionalProperties" with
      | none => rfl
      | some v =>
        rw [(hplain (Bool.not_eq_true _ ▸ hobject)).1 v hget]
        rfl

lemma nodeCompliant_iff {root : Prop} {node : Dict (JsonValue φ)} : NodeCompliant C P root node ↔
      (∀ key value, node.get? key = some value → KeywordOk C key value) ∧
      (isObjectNode node → ObjectOk P root node) :=
  ⟨fun h => ⟨h.keyword, h.object⟩, fun h => ⟨h.1, h.2⟩⟩

/-- A keyword of the property goes over that of the branch. -/
lemma get?_mergedCore_of_some (hvalue : value.keys.Nodup) {key : Text} {v : JsonValue φ}
    (hget : (encoded value false).get? key = some v) : (mergedCore branch value).get? key = some v := by
  rw [get?_mergedCore hvalue, hget, Option.some_or]

/-- Where neither the property nor the branch has properties, the core is no object. -/
lemma mergedCore_not_object (hbranch : branch.keys.Nodup) (hvalue : NodeShape value)
    (hnone : propertiesOf value = []) (hsome : propertiesOf branch = []) :
    isObjectNode (mergedCore branch value) = false := by
  have hnot := encoded_not_object hvalue.keys hnone
  have hnotBranch := encoded_not_object hbranch hsome
  rw [← Bool.not_eq_true, isObjectNode_iff] at hnot hnotBranch ⊢
  rw [not_or] at hnot hnotBranch ⊢
  refine ⟨?_, ?_⟩
  · rw [get?_mergedCore hvalue.keys]
    cases htype : (encoded value false).get? "type" with
    | none => simpa using hnotBranch.1
    | some t => simpa [htype] using hnot.1
  · rw [get?_mergedCore hvalue.keys, encoded_properties_none hvalue hnone, Option.none_or]
    exact hnotBranch.2

/-- Whether the core is an object that is compliant, by where its properties come from. -/
lemma object_mergedCore (hbranch : branch.keys.Nodup) (hvalue : NodeShape value)
    (hprops : PropertiesAgree P F branch) :
    (isObjectNode (mergedCore branch value) →
        ObjectOk P False (mergedCore branch value)) ↔
      (isObjectNode (encoded value false) → ObjectOk P False (encoded value false)) ∧
      (propertiesOf value = [] → propertiesOf branch ≠ [] →
        PropertiesFit F branch ∧ (isObjectNode value = false →
          (∀ v, value.get? "additionalProperties" = some v → v = .bool false) ∧
          ∀ names, value.get? "required" = some (.arr names) →
            (∀ p ∈ propertiesOf branch, .str p.1 ∈ names) ∧
            ∀ r ∈ names, ∃ p ∈ propertiesOf branch, r = .str p.1)) := by
  by_cases hnone : propertiesOf value = []
  · have hnot := encoded_not_object hvalue.keys hnone
    have hget : (mergedCore branch value).get? "properties" = _ :=
      get?_mergedCore hvalue.keys "properties"
    rw [encoded_properties_none hvalue hnone, Option.none_or] at hget
    simp only [hnot, Bool.false_eq_true, IsEmpty.forall_iff, true_and, hnone, forall_const]
    by_cases hsome : propertiesOf branch = []
    · -- neither of them has properties
      have hcore := mergedCore_not_object hbranch hvalue hnone hsome
      simp [hcore, hsome]
    · have hcore : isObjectNode (mergedCore branch value) := by
        rw [isObjectNode_iff, hget]
        exact .inr (properties_of_encoded hbranch hsome)
      simp only [hcore, forall_const, objectOk_shown hbranch hvalue hprops hnone hsome, ne_eq,
        hsome, not_false_eq_true]
  · -- the property is an object itself
    obtain ⟨hobj, hfree⟩ := object_of_properties hnone
    obtain ⟨props, hproperties⟩ := properties_of_encoded hvalue.keys hnone
    have hshown {key : Text} {v : JsonValue φ} (hget : (encoded value false).get? key = some v) :
        (mergedCore branch value).get? key = (encoded value false).get? key :=
      (get?_mergedCore_of_some hvalue.keys hget).trans hget.symm
    have hclosed := hshown (get?_encoded_closed hvalue.keys hfree hobj)
    have hrequired := hshown (get?_encoded_required hvalue.keys hfree hobj)
    have hvalueObj : isObjectNode (encoded value false) :=
      isObjectNode_iff.2 (.inr ⟨props, hproperties⟩)
    have hcore : isObjectNode (mergedCore branch value) :=
      isObjectNode_iff.2 (.inr ⟨props, get?_mergedCore_of_some hvalue.keys hproperties⟩)
    simp only [hcore, hvalueObj, forall_const, hnone, IsEmpty.forall_iff, and_true]
    exact ⟨ObjectOk.congr hclosed (hshown hproperties) hrequired,
      ObjectOk.congr hclosed.symm (hshown hproperties).symm hrequired.symm⟩

/-- The core of a property with one branch is compliant just if it fits. -/
lemma nodeCompliant_mergedCore (hC : TypeFree C) (hbranch : branch.keys.Nodup) (hvalue : NodeShape value)
    (hunderBranch : ∀ key v, branch.get? key = some v → AgreesUnder C F key v)
    (hunderValue : ∀ key v, value.get? key = some v → AgreesUnder C F key v)
    (hpropsBranch : PropertiesAgree P F branch) (hpropsValue : PropertiesAgree P F value) :
    NodeCompliant C P False (mergedCore branch value) ↔
      NodeFits F false value ∧ BranchFits F branch value := by
  have hnode := nodeCompliant_encoded hC hvalue.keys false hunderValue hpropsValue
  simp only [Bool.false_eq_true] at hnode
  rw [← hnode, nodeCompliant_iff, nodeCompliant_iff,
    keywords_mergedCore hC hbranch hvalue.keys hunderBranch,
    object_mergedCore hbranch hvalue hpropsBranch]
  constructor
  · rintro ⟨⟨hkeys, hshown⟩, hobj, hbranchOk⟩
    refine ⟨⟨hkeys, hobj⟩, hshown, fun hnone => ?_, fun hplain hsome => ?_, fun hplain hsome => ?_,
      fun hplain hsome => ?_⟩
    · by_cases hsome : propertiesOf branch = []
      · rw [PropertiesFit, hsome]
        simp
      · exact (hbranchOk hnone hsome).1
    all_goals
      have hnone := propertiesOf_of_not_object (Bool.not_eq_true _ ▸ hplain : ¬ isObjectNode value)
      have hok := (hbranchOk hnone hsome).2 hplain
    · exact hok.1
    · exact fun names hnames => (hok.2 names hnames).1
    · exact fun names hnames => (hok.2 names hnames).2
  · rintro ⟨⟨hkeys, hobj⟩, hfits⟩
    exact ⟨⟨hkeys, hfits.keywords⟩, hobj, fun hnone hsome => ⟨hfits.properties hnone,
      fun hplain => ⟨hfits.closed hplain hsome, fun names hnames =>
        ⟨hfits.missing hplain hsome names hnames, hfits.extra hplain hsome names hnames⟩⟩⟩⟩

/-- The core stays in its union by the selectors and the `enum` of the two. -/
lemma survives_mergedCore (hbranch : branch.keys.Nodup) (hvalue : value.keys.Nodup) :
    (normalizeAnyofBranch (.obj (mergedCore branch value))).isSome =
      (isFreeForm branch false || isFreeForm value false ||
        (normalizeAnyofBranch (.obj (mergeDicts branch value))).isSome) := by
  have htype {t : JsonValue φ} (h : (encoded branch false).get? "type" = some t ∨
      (encoded value false).get? "type" = some t) :
      (normalizeAnyofBranch (.obj (mergedCore branch value))).isSome := by
    have hget : (mergedCore branch value).get? "type" = _ := get?_mergedCore hvalue "type"
    cases hv : (encoded value false).get? "type" with
    | some t' => exact normalize_isSome_of_type (by rw [hget, hv, Option.some_or])
    | none =>
      rw [hv, Option.none_or] at hget
      exact normalize_isSome_of_type (hget.trans (h.resolve_right (by simp [hv])))
  by_cases hfree : isFreeForm branch false
  · obtain ⟨description, heq⟩ := encoded_of_freeForm hbranch hfree
    rw [hfree, Bool.true_or, Bool.true_or, htype (.inl (by rw [heq]; rfl))]
  by_cases hfree' : isFreeForm value false
  · obtain ⟨description, heq⟩ := encoded_of_freeForm hvalue hfree'
    rw [hfree', Bool.or_true, Bool.true_or, htype (.inr (by rw [heq]; rfl))]
  have hfree : isFreeForm branch false = false := Bool.not_eq_true _ ▸ hfree
  have hfree' : isFreeForm value false = false := Bool.not_eq_true _ ▸ hfree'
  rw [hfree, hfree', Bool.or_false, Bool.false_or]
  refine normalize_isSome_congr (fun key hkey => ?_) ?_
  · rw [get?_mergedCore hvalue, get?_mergeDicts hvalue, Option.isSome_or, Option.isSome_or,
      get?_encoded_isSome hvalue hfree' hkey, get?_encoded_isSome hbranch hfree hkey]
  · rw [get?_mergedCore hvalue, get?_mergeDicts hvalue, get?_encoded_enum hvalue hfree',
      get?_encoded_enum hbranch hfree]

end Merge

/-! ### Properties -/

/-- What describes a property is nothing strict mode looks at. -/
lemma keywordOk_meta {compliant : JsonValue φ → Prop} {key : Text} (h : key ∈ metaKeywords)
    (value : JsonValue φ) : KeywordOk compliant key value := by
  simp only [metaKeywords, List.mem_cons, List.not_mem_nil, or_false] at h
  rcases h with rfl | rfl | rfl | rfl | rfl <;>
    exact keywordOk_of_notMem (by simp [isDropped, bannedKeywords]) (by decide)

/-- Descriptions over a core change nothing. -/
lemma nodeCompliant_metadata {root : Prop} {node core : Dict (JsonValue φ)} (h : node.keys.Nodup) :
    NodeCompliant C P root (mergeDicts core (splitProperty node).metadata) ↔
      NodeCompliant C P root core := by
  have hmeta : (splitProperty node).metadata.keys.Nodup :=
    h.sublist (List.filter_sublist.map _)
  have hget {key : Text} (hkey : key ∉ metaKeywords) :
      (mergeDicts core (splitProperty node).metadata).get? key = core.get? key := by
    rw [get?_mergeDicts hmeta, get?_metadata_none node hkey, Option.none_or]
  have hobject : isObjectNode (mergeDicts core (splitProperty node).metadata) =
      isObjectNode core := by
    rw [Bool.eq_iff_iff, isObjectNode_iff, isObjectNode_iff, hget (by decide), hget (by decide)]
  rw [nodeCompliant_iff, nodeCompliant_iff, hobject]
  refine and_congr (forall_congr' fun key => ?_) (imp_congr_right fun _ =>
    ⟨ObjectOk.congr (hget (by decide)) (hget (by decide)) (hget (by decide)),
      ObjectOk.congr (hget (by decide)).symm (hget (by decide)).symm (hget (by decide)).symm⟩)
  by_cases hkey : key ∈ metaKeywords
  · exact iff_of_true (fun value _ => keywordOk_meta hkey value)
      fun value _ => keywordOk_meta hkey value
  · rw [hget hkey]

/-- Under descriptions, a union is compliant where its branches are. -/
lemma nodeCompliant_described {root : Prop} {node : Dict (JsonValue φ)}
    (honly : ∀ key v, node.get? key = some v → key ∈ metaKeywords ∨ key = "anyOf")
    {branches : List (JsonValue φ)} (hunion : node.get? "anyOf" = some (.arr branches)) :
    NodeCompliant C P root node ↔ ∀ b ∈ branches, lacksSelector b = false ∧ C b := by
  have hnone {key : Text} (hkey : ¬ (key ∈ metaKeywords ∨ key = "anyOf")) : node.get? key = none := by
    rw [← Option.not_isSome_iff_eq_none, Option.isSome_iff_exists]
    exact fun ⟨v, hget⟩ => hkey (honly key v hget)
  have hobject : ¬ isObjectNode node := by
    rw [isObjectNode_iff, hnone (by decide), hnone (by decide)]
    simp
  rw [nodeCompliant_iff]
  simp only [hobject, Bool.false_eq_true, IsEmpty.forall_iff, and_true]
  constructor
  · intro h
    exact (h "anyOf" _ hunion).2 rfl
  · intro h key value hget
    rcases honly key value hget with hmeta | rfl
    · exact keywordOk_meta hmeta value
    · rw [hunion] at hget
      cases hget
      exact ⟨by simp [isDropped, bannedKeywords], fun _ => h⟩

lemma nodeCompliant_union (C P : JsonValue φ → Prop) (root : Prop) (node : Dict (JsonValue φ))
    (branches : List (JsonValue φ)) :
    NodeCompliant C P root (Dict.insert (splitProperty node).metadata "anyOf" (.arr branches)) ↔
      ∀ b ∈ branches, lacksSelector b = false ∧ C b := by
  refine nodeCompliant_described (fun key v hget => ?_) (by rw [Dict.get?_insert, if_pos rfl])
  by_contra hkey
  rw [not_or] at hkey
  rw [Dict.get?_insert, if_neg hkey.2, get?_metadata_none node hkey.1] at hget
  cases hget

/-- The null branch is compliant. -/
lemma nodeCompliant_null (C P : JsonValue φ → Prop) (root : Prop) :
    NodeCompliant C P root [(Text.ofString "type", .str "null")] := by
  refine ⟨fun key value hget => ?_, fun hobj => ?_⟩
  · have hmem := Dict.mem_of_get? hget
    simp only [List.mem_singleton, Prod.mk.injEq] at hmem
    obtain ⟨rfl, rfl⟩ := hmem
    exact keywordOk_type _
  · rcases isObjectNode_iff.1 hobj with htype | ⟨props, hprops⟩
    · cases htype
    · cases hprops

lemma normalize_of_selector {b : JsonValue φ} (h : lacksSelector b = false) :
    normalizeAnyofBranch b = some b := by
  cases b with
  | obj node =>
    rw [normalizeAnyofBranch_obj, if_pos (by simpa [lacksSelector] using h)]
  | _ => rfl

lemma mem_cleanAnyof {b : JsonValue φ} {branches : List (JsonValue φ)}
    (h : b ∈ cleanAnyof branches) : lacksSelector b = false := by
  obtain ⟨j, -, hb⟩ := List.mem_filterMap.1 h
  have hfree : TypeFree fun _ : JsonValue φ => True := fun _ _ _ _ => Iff.rfl
  exact (normalize_compliant hfree hb).1

/-- A union with null is compliant where the core is, if it stays. -/
lemma nullableUnion_compliant {repr : JsonValue φ → Text} {core : Dict (JsonValue φ)}
    (hunion : ∀ v, core.get? "anyOf" = some v → ∃ js, v = .arr (cleanAnyof js)) :
    (∀ b ∈ nullableUnion core, lacksSelector b = false ∧ Compliant repr b) ↔
      ((normalizeAnyofBranch (.obj core)).isSome → Compliant repr (.obj core)) := by
  have hnull : lacksSelector (nullBranch : JsonValue φ) = false ∧ Compliant repr nullBranch :=
    ⟨rfl, compliant_obj.2 (nodeCompliant_null _ _ _)⟩
  have hclean {branches : List (JsonValue φ)} :
      (∀ b ∈ cleanAnyof branches, lacksSelector b = false ∧ Compliant repr b) ↔ _ :=
    cleanAnyof_compliant (compliant_typeFree repr)
  rw [nullableUnion, List.forall_mem_append, List.forall_mem_singleton, and_iff_left hnull]
  split_ifs with hkeys
  · -- a bare union
    obtain ⟨v, rfl⟩ : ∃ v, core = [(Text.ofString "anyOf", v)] := by
      match core, hkeys with
      | [(_, v)], rfl => exact ⟨v, rfl⟩
    obtain ⟨js, rfl⟩ := hunion v rfl
    have hbare : unionOf [(Text.ofString "anyOf", .arr (cleanAnyof js))] = cleanAnyof js := rfl
    have hnode : NodeCompliant (Compliant repr) (Compliant repr) False
        [(Text.ofString "anyOf", _)] ↔ _ :=
      nodeCompliant_union (Compliant repr) (Compliant repr) False [] (cleanAnyof js)
    have hselected : (normalizeAnyofBranch
        (.obj [(Text.ofString "anyOf", .arr (cleanAnyof js))])).isSome := by
      rw [normalizeAnyofBranch_obj, if_pos (by rfl)]
      rfl
    rw [hbare, hclean, compliant_obj, hnode, imp_iff_right hselected]
    refine forall₂_congr fun b hb => ?_
    have hlacks := mem_cleanAnyof hb
    rw [normalize_of_selector hlacks]
    simp [hlacks]
  · rw [hclean, List.forall_mem_singleton]

/-! ### The core of a property -/

/-- The schema is compliant once it is encoded just if it fits, wherever it stands. -/
structure Agrees (C P : JsonValue φ → Prop) (F : JsonValue φ → Place → Prop)
    (schema : JsonValue φ) : Prop where
  branch : BranchAgrees C F schema
  property : ∀ name (required : List Text),
    P (transformProperty (transformNode · false) name required schema) ↔
      F schema (.property (required.contains name))

/-- The schemas under the keywords of a node agree, if all less deep ones do. -/
lemma agreesUnder (hD : Hereditary D) {node : Dict (JsonValue φ)} (h : D (.obj node))
    (ih : ∀ w : JsonValue φ, w.depth < (JsonValue.obj node).depth → D w → Agrees C P F w) :
    (∀ key value, node.get? key = some value → AgreesUnder C F key value) ∧
      PropertiesAgree P F node := by
  refine ⟨fun key value hget => ?_, fun p hp required => ?_⟩
  · have hdepth := depth_lt_get? hget
    cases value with
    | arr bs =>
      rintro rfl b hb
      have hunion : b ∈ unionOf node := by rwa [unionOf, hget]
      exact (ih b ((depth_lt_arr hb).trans hdepth) (hD.branches node h b hunion)).branch
    | obj sub =>
      refine ⟨?_, fun hkey p hp => ?_⟩
      · rintro rfl
        exact (ih _ hdepth (hD.items node h sub hget)).branch
      · exact (ih p.2 ((depth_lt_obj hp).trans hdepth) (hD.defs node h key hkey sub hget p hp)).branch
    | _ => trivial
  · exact (ih p.2 (depth_lt_propertiesOf hp) (hD.properties node h p hp)).property p.1 required

/-- A union put to a node that has none is compliant where the node and the branches are. -/
lemma nodeCompliant_insert_anyOf {root : Prop} {node : Dict (JsonValue φ)}
    (hnone : node.get? "anyOf" = none) (branches : List (JsonValue φ)) :
    NodeCompliant C P root (Dict.insert node "anyOf" (.arr branches)) ↔
      NodeCompliant C P root node ∧ ∀ b ∈ branches, lacksSelector b = false ∧ C b := by
  have hget (key : Text) (hkey : key ≠ "anyOf") :
      (Dict.insert node "anyOf" (.arr branches)).get? key = node.get? key := by
    rw [Dict.get?_insert, if_neg hkey]
  have hany : (Dict.insert node "anyOf" (.arr branches)).get? "anyOf" = some (.arr branches) := by
    rw [Dict.get?_insert, if_pos rfl]
  have hobject : isObjectNode (Dict.insert node "anyOf" (.arr branches)) = isObjectNode node := by
    rw [Bool.eq_iff_iff, isObjectNode_iff, isObjectNode_iff, hget _ (by decide),
      hget _ (by decide)]
  rw [nodeCompliant_iff, nodeCompliant_iff, hobject, and_right_comm]
  refine and_congr ?_ (imp_congr_right fun _ =>
    ⟨ObjectOk.congr (hget _ (by decide)) (hget _ (by decide)) (hget _ (by decide)),
      ObjectOk.congr (hget _ (by decide)).symm (hget _ (by decide)).symm
        (hget _ (by decide)).symm⟩)
  constructor
  · intro h
    refine ⟨fun key value hvalue => ?_, (h "anyOf" _ hany).2 rfl⟩
    have hne : key ≠ "anyOf" := by
      rintro rfl
      rw [hnone] at hvalue
      cases hvalue
    exact h key value (by rwa [hget key hne])
  · rintro ⟨h, hbranches⟩ key value hvalue
    by_cases hne : key = "anyOf"
    · subst hne
      rw [hany] at hvalue
      cases hvalue
      exact ⟨by simp [isDropped, bannedKeywords], fun _ => hbranches⟩
    · exact h key value (by rwa [hget key hne] at hvalue)

/-- The core of a property is compliant just if it fits. -/
structure CoreAgrees (C P : JsonValue φ → Prop) (F : JsonValue φ → Place → Prop)
    (parts : SplitProperty φ) (core : Dict (JsonValue φ)) : Prop where
  compliant : NodeCompliant C P False core ↔ CoreFits F parts
  survives : (normalizeAnyofBranch (.obj core)).isSome = coreSurvives parts
  union : ∀ v, core.get? "anyOf" = some v → ∃ js, v = .arr (cleanAnyof js)

/-- Without branches the core is the value. -/
lemma propertyCore_none {parts : SplitProperty φ} (h : parts.nonNullBranches = []) :
    propertyCore (transformNode · false) parts = encoded parts.value false := by
  simp only [propertyCore, h, List.map_nil]
  rfl

/-- With one branch the value is put over it. -/
lemma propertyCore_one {parts : SplitProperty φ} {branch : Dict (JsonValue φ)}
    (h : parts.nonNullBranches = [.obj branch]) :
    propertyCore (transformNode · false) parts = mergedCore branch parts.value := by
  simp only [propertyCore, h, List.map_cons, List.map_nil]
  rfl

/-- With several branches there is a union beside the value. -/
lemma propertyCore_many {parts : SplitProperty φ} {b b' : JsonValue φ} {bs : List (JsonValue φ)}
    (h : parts.nonNullBranches = b :: b' :: bs) :
    propertyCore (transformNode · false) parts =
      Dict.insert (encoded parts.value false) "anyOf"
        (.arr (cleanAnyof ((b :: b' :: bs).map (transformNode · false)))) := by
  simp only [propertyCore, h, List.map_cons]
  rfl

lemma coreAgrees (hC : TypeFree C) (hD : Hereditary D) {node : Dict (JsonValue φ)}
    (hnodeD : D (.obj node))
    (ih : ∀ w : JsonValue φ, w.depth < (JsonValue.obj node).depth → D w → Agrees C P F w) :
    CoreAgrees C P F (splitProperty node)
      (propertyCore (transformNode · false) (splitProperty node)) := by
  have h := hD.tree _ hnodeD
  have hvalue := h.value.shape
  obtain ⟨hunder, hprops⟩ := agreesUnder hD (hD.value node hnodeD) fun w hw =>
    ih w (hw.trans_le (splitProperty_value_depth node))
  have hnode := nodeCompliant_encoded hC hvalue.keys false hunder hprops
  simp only [Bool.false_eq_true] at hnode
  have hnone := encoded_value_anyOf hvalue.keys (get?_value_anyOf h.shape)
  have hbranch (b) (hb : b ∈ (splitProperty node).nonNullBranches) :
      D b ∧ b.depth < (JsonValue.obj node).depth := by
    have hmem := (List.mem_filter.1 hb).1
    exact ⟨hD.branches node hnodeD b hmem, depth_lt_unionOf hmem⟩
  rcases hlist : (splitProperty node).nonNullBranches with _ | ⟨b, _ | ⟨b', bs⟩⟩
  · rw [propertyCore_none hlist]
    refine ⟨?_, ?_, fun v hv => absurd hv (by simp [hnone])⟩
    · rw [hnode, CoreFits, hlist]
      simp
    · rw [← transformNode_encoded, survives_encoded hvalue.keys, coreSurvives, hlist]
  · obtain ⟨hbranchD, hdepth⟩ := hbranch b (by simp [hlist])
    have htree := hD.tree b hbranchD
    obtain ⟨branch, rfl⟩ := htree.exists_obj
    obtain ⟨hunderBranch, hpropsBranch⟩ := agreesUnder hD hbranchD fun w hw => ih w (hw.trans hdepth)
    rw [propertyCore_one hlist]
    refine ⟨?_, ?_, fun v hv => ?_⟩
    · rw [nodeCompliant_mergedCore hC htree.shape.keys hvalue hunderBranch hunder hpropsBranch hprops,
        CoreFits, hlist]
      rfl
    · rw [survives_mergedCore htree.shape.keys hvalue.keys, coreSurvives, hlist]
      rfl
    · rw [get?_mergedCore hvalue.keys, hnone, Option.none_or] at hv
      exact encoded_anyOf htree.shape hv
  · rw [propertyCore_many hlist]
    refine ⟨?_, ?_, fun v hv => ?_⟩
    · rw [nodeCompliant_insert_anyOf hnone, hnode, cleanAnyof_compliant hC, List.forall_mem_map,
        CoreFits, hlist]
      refine and_congr Iff.rfl (forall₂_congr fun c hc => ?_)
      obtain ⟨hcD, hdepth⟩ := hbranch c (hlist ▸ hc)
      have hagrees := (ih c hdepth hcD).branch
      rw [hagrees.survives, hagrees.compliant]
    · rw [normalizeAnyofBranch_obj, if_pos, coreSurvives, hlist]
      · rfl
      · exact hasBranchSelector_iff.2 ⟨"anyOf", by decide, by rw [Dict.get?_insert, if_pos rfl]; rfl⟩
    · rw [Dict.get?_insert, if_pos rfl] at hv
      exact ⟨_, (Option.some.inj hv).symm⟩

/-! ### Schemas that are compliant once they are encoded -/

variable {repr : JsonValue φ → Text}

/-- A property is compliant where its core is, unless the core is dropped from its union. -/
lemma property_agrees {node : Dict (JsonValue φ)} (h : SchemaTree (.obj node))
    (ih : ∀ w : JsonValue φ, w.depth < (JsonValue.obj node).depth → SchemaTree w →
      Agrees (Compliant repr) (Compliant repr) Fits w)
    (name : Text) (required : List Text) :
    Compliant repr (transformProperty (transformNode · false) name required (.obj node)) ↔
      Fits (.obj node) (.property (required.contains name)) := by
  obtain ⟨hcompliant, hsurvives, hunion⟩ := coreAgrees (compliant_typeFree repr) schemaTree_hereditary h ih
  rw [fits_eq, fitsStep, ← hcompliant, ← hsurvives]
  by_cases hlisted : required.contains name && !(splitProperty node).nullPresent
  · have hproperty : transformProperty (transformNode · false) name required (.obj node) =
        .obj (mergeDicts (propertyCore (transformNode · false) (splitProperty node))
          (splitProperty node).metadata) := by
      rw [transformProperty, if_pos hlisted]
    rw [hproperty, compliant_obj, nodeCompliant_metadata h.shape.keys]
    simp only [hlisted, true_or, forall_const]
  · have hproperty : transformProperty (transformNode · false) name required (.obj node) =
        .obj (Dict.insert (splitProperty node).metadata "anyOf"
          (.arr (nullableUnion (propertyCore (transformNode · false) (splitProperty node))))) := by
      rw [transformProperty, if_neg hlisted]
    rw [hproperty, compliant_obj, nodeCompliant_union, nullableUnion_compliant hunion,
      compliant_obj]
    simp only [hlisted, Bool.false_eq_true, false_or]

/-- Every schema is compliant once it is encoded just if it fits. -/
theorem agrees (repr : JsonValue φ → Text) {schema : JsonValue φ} (h : SchemaTree schema) :
    Agrees (Compliant repr) (Compliant repr) Fits schema := by
  induction hd : schema.depth using Nat.strong_induction_on generalizing schema with
  | _ n ih =>
    subst hd
    obtain ⟨node, rfl⟩ := h.exists_obj
    have ih : ∀ w : JsonValue φ, w.depth < (JsonValue.obj node).depth → SchemaTree w →
        Agrees (Compliant repr) (Compliant repr) Fits w := fun w hw htree => ih w.depth hw htree rfl
    obtain ⟨hunder, hprops⟩ := agreesUnder schemaTree_hereditary h ih
    refine ⟨⟨?_, survives_encoded h.shape.keys⟩, property_agrees h ih⟩
    have hnode := nodeCompliant_encoded (compliant_typeFree repr) h.shape.keys false hunder hprops
    simp only [Bool.false_eq_true] at hnode
    rw [transformNode_encoded, compliant_obj, fits_eq, fitsStep, hnode]

/-- A strict schema has no violations just if every property fits its only branch. -/
theorem strict_compliant_iff (repr : JsonValue φ → Text) {node : Dict (JsonValue φ)}
    (h : SchemaTree (.obj node)) :
    validateStrictCompliance repr (toStrictSchema (.obj node)) = [] ↔
      Fits (.obj node) (.node true) := by
  obtain ⟨hunder, hprops⟩ := agreesUnder schemaTree_hereditary h fun w _ htree =>
    agrees repr htree
  have hnode := nodeCompliant_encoded (compliant_typeFree repr) h.shape.keys true hunder hprops
  rw [validateStrictCompliance, toStrictSchema, transformNode_encoded, violationsAt_obj, fits_eq,
    fitsStep, ← hnode]
  simp only

/-- `{"type": "object", "properties": {"area": {"type": "string"}}, "required": ["area"]}` -/
def areaSchema : Dict (JsonValue NonFinite) :=
  [("type", .str "object"), ("properties", .obj [("area", .obj [("type", .str "string")])]),
    ("required", .arr [.str "area"])]

lemma areaSchema_tree : SchemaTree (.obj areaSchema) := by
  have hleaf : SchemaTree (.obj [(Text.ofString "type", .str "string")] : JsonValue NonFinite) := by
    refine .node ⟨by decide, ?_, ?_, ?_⟩ ?_ ?_ ?_ ?_ ?_
    all_goals
      intro v hv
      cases hv
  refine .node ⟨by decide, ?_, ?_, ?_⟩ ?_ ?_ ?_ ?_ ?_
  · rintro v ⟨⟩
    exact ⟨_, rfl, by decide⟩
  · intro v hv
    cases hv
  · rintro v ⟨⟩
    exact ⟨["area"], rfl⟩
  · intro p hp
    obtain rfl := List.mem_singleton.1 hp
    exact hleaf
  all_goals
    intro v hv
    cases hv

theorem areaSchema_compliant_iff :
    validateStrictCompliance (fun _ => []) (toStrictSchema (.obj areaSchema)) = [] ↔
      Fits (.obj areaSchema) (.node true) :=
  strict_compliant_iff _ areaSchema_tree

/-- An object whose optional property `area` has `required` beside its only branch, which has
other properties. -/
def siblingSchema : JsonValue NonFinite :=
  .obj [("type", .str "object"), ("properties", .obj [("area", .obj [
    ("required", .arr [.str "name"]),
    ("anyOf", .arr [.obj [("type", .str "object"),
      ("properties", .obj [("city", .obj [("type", .str "string")])])]])])])]

/-- The `required` of the property stays, and it is not about the properties of the branch. -/
theorem sibling_required_stays :
    validateStrictCompliance (fun _ => []) (toStrictSchema siblingSchema) =
      [Text.ofString "$.properties.area.anyOf[0]: properties not in required: ",
        Text.ofString "$.properties.area.anyOf[0]: required lists unknown properties: "] := by
  decide +kernel

end RentCompass.Tools
