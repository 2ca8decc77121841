import RentCompass.Json.Same
import RentCompass.Tools.StrictSiblings

/-!
# Encoding a strict schema again

A node whose branches and properties stay the same when they are encoded stays the same itself, if
it lists its properties in their order.
-/

namespace RentCompass.Tools

open JsonValue

variable {φ : Type}

/-! ### What stays the same -/

/-- The keys of a dict are distinct. -/
def DistinctFields (schema : JsonValue φ) : Prop :=
  ∀ node, schema = .obj node → (Dict.keys node).Nodup

/-- As a branch, the schema is its own encoding. -/
def Stable (schema : JsonValue φ) : Prop :=
  DistinctFields schema ∧ Same (transformNode schema false) schema

/-- A property that is required, encoded. -/
def listedProperty (property : JsonValue φ) : JsonValue φ :=
  transformProperty (transformNode · false) [] [[]] property

/-- As a property that is required, the schema is its own encoding. -/
def Kept (property : JsonValue φ) : Prop :=
  DistinctFields property ∧ Same (listedProperty property) property

/-- An object lists its properties in their order. -/
def Exact (node : Dict (JsonValue φ)) : Prop :=
  isObjectNode node → node.get? "required" = some (.arr ((propertiesOf node).keys.map .str))

/-- A property is encoded by whether it is listed. -/
lemma transformProperty_contains {f : JsonValue φ → JsonValue φ} {name name' : Text}
    {required required' : List Text} (h : required.contains name = required'.contains name')
    (property : JsonValue φ) :
    transformProperty f name required property = transformProperty f name' required' property := by
  cases property with
  | obj node => simp only [transformProperty, h]
  | _ => rfl

lemma transformProperty_listed {name : Text} {required : List Text} (h : required.contains name)
    (property : JsonValue φ) :
    transformProperty (transformNode · false) name required property = listedProperty property :=
  transformProperty_contains (h.trans (by decide)) property

lemma transformKeyword_type (f : JsonValue φ → JsonValue φ) (isObject : Bool)
    (required : List Text) (t : JsonValue φ) :
    transformKeyword f isObject required "type" t = some t := by
  cases t <;> simp [transformKeyword, isDropped, bannedKeywords]

lemma distinctFields_obj {node : Dict (JsonValue φ)} :
    DistinctFields (.obj node) ↔ node.keys.Nodup := by
  simp [DistinctFields]

lemma distinctFields_typeFree : TypeFree (DistinctFields (φ := φ)) := by
  intro node t hnone _
  have hkey : Text.ofString "type" ∉ node.keys := fun hmem => by
    obtain ⟨v, hv⟩ := Dict.exists_get? hmem
    rw [hnone] at hv
    cases hv
  have hkeys : (Dict.insert node "type" t).keys = node.keys ++ [Text.ofString "type"] := by
    rw [Dict.insert_of_notMem hkey]
    simp [Dict.keys]
  simp only [DistinctFields, JsonValue.obj.injEq, forall_eq', hkeys]
  rw [List.nodup_append]
  refine ⟨fun h => h.1, fun h => ⟨h, List.nodup_singleton _, fun a ha b hb heq => ?_⟩⟩
  rw [List.mem_singleton] at hb
  exact hkey (hb ▸ heq ▸ ha)

/-- A type makes no difference to whether a node stays the same. -/
lemma stable_typeFree : TypeFree (Stable (φ := φ)) := by
  intro node t hnone ht
  have hget (key : Text) (hkey : key ≠ "type") :
      (Dict.insert node "type" t).get? key = node.get? key := by
    rw [Dict.get?_insert, if_neg hkey]
  have htype : (Dict.insert node "type" t).get? "type" = some t := by
    rw [Dict.get?_insert, if_pos rfl]
  have hdistinct := distinctFields_typeFree node t hnone ht
  have hobject : isObjectNode (Dict.insert node "type" t) = isObjectNode node := by
    rw [Bool.eq_iff_iff, isObjectNode_iff, isObjectNode_iff, htype, hnone, hget _ (by decide)]
    simp [ht]
  have hprops : propertiesOf (Dict.insert node "type" t) = propertiesOf node := by
    rw [propertiesOf, propertiesOf, hget _ (by decide)]
  have hrequired : requiredNames (Dict.insert node "type" t) = requiredNames node := by
    rw [requiredNames, requiredNames, hget _ (by decide)]
  rw [Stable, Stable, hdistinct]
  refine and_congr_right fun hkeys => ?_
  have hnode : node.keys.Nodup := hkeys node rfl
  have hinserted := hdistinct.2 hkeys _ rfl
  have hfree' : isFreeForm (Dict.insert node "type" t) false = isFreeForm node false := by
    rw [isFreeForm, isFreeForm, hobject, hprops]
  rw [transformNode_encoded, transformNode_encoded]
  by_cases hfree : isFreeForm node false
  · -- a text in its place has a type, and it has no properties
    obtain ⟨description, heq⟩ := encoded_of_freeForm hnode hfree
    obtain ⟨description', heq'⟩ := encoded_of_freeForm hinserted (hfree'.trans hfree)
    obtain ⟨props, hget'⟩ : ∃ props, node.get? "properties" = some (.obj props) := by
      have hobj := isObjectNode_iff.1 (isFreeForm_iff.1 hfree).1
      rw [hnone] at hobj
      exact hobj.resolve_left (by simp)
    refine iff_of_false (fun hsame => ?_) fun hsame => ?_
    · have hsome := hsame.isSome_get? "properties"
      rw [heq', hget _ (by decide), hget'] at hsome
      cases hsome
    · have hsome := hsame.isSome_get? "type"
      rw [heq, hnone] at hsome
      cases hsome
  · have hfree : isFreeForm node false = false := Bool.not_eq_true _ ▸ hfree
    have hencoded (key : Text) (hkey : key ≠ "type") :
        (encoded (Dict.insert node "type" t) false).get? key = (encoded node false).get? key := by
      rw [get?_encoded hinserted (hfree'.trans hfree), get?_encoded hnode hfree, hobject, hprops,
        hrequired, hget key hkey]
    have hencodedType : (encoded (Dict.insert node "type" t) false).get? "type" = some t := by
      rw [get?_encoded_of_ne hinserted (hfree'.trans hfree) (by decide) (by decide), htype,
        Option.bind_some, transformKeyword_type]
    constructor
    · intro hsame
      refine Same.of_get? fun key => ?_
      by_cases hkey : key = "type"
      · subst hkey
        rw [hnone, get?_encoded_of_ne hnode hfree (by decide) (by decide), hnone]
        exact .none
      · rw [← hencoded key hkey, ← hget key hkey]
        exact hsame.get? key
    · intro hsame
      refine Same.of_get? fun key => ?_
      by_cases hkey : key = "type"
      · subst hkey
        rw [hencodedType, htype]
        exact .some (.refl t)
      · rw [hencoded key hkey, hget key hkey]
        exact hsame.get? key

/-! ### Nodes that stay the same -/

lemma lacksSelector_same {v w : JsonValue φ} (h : Same v w) : lacksSelector v = lacksSelector w := by
  cases h with
  | obj keys =>
    rw [lacksSelector, lacksSelector, Bool.eq_iff_iff]
    simp only [Bool.not_eq_true', ← Bool.not_eq_true, hasBranchSelector_iff, keys]
  | _ => rfl

lemma cleanAnyof_eq_self {branches : List (JsonValue φ)}
    (h : ∀ b ∈ branches, lacksSelector b = false) : cleanAnyof branches = branches := by
  induction branches with
  | nil => rfl
  | cons b branches ih =>
    rw [List.forall_mem_cons] at h
    have hb := normalize_of_selector h.1
    rw [cleanAnyof, List.filterMap_cons_some hb]
    exact congrArg (b :: ·) (ih h.2)

/-- A union of stable branches stays the same. -/
lemma same_cleanAnyof {branches : List (JsonValue φ)}
    (h : ∀ b ∈ branches, lacksSelector b = false ∧ Stable b) :
    Same (.arr (cleanAnyof (branches.map (transformNode · false)))) (.arr branches) := by
  rw [cleanAnyof_eq_self]
  · exact Same.map_items fun b hb => (h b hb).2.2
  · rw [List.forall_mem_map]
    exact fun b hb => (lacksSelector_same (h b hb).2.2).trans (h b hb).1

/-- A keyword over stable schemas stays the same, unless it is rebuilt. -/
lemma transformKeyword_stable {isObject : Bool} {required : List Text} {key : Text}
    {value : JsonValue φ} (hok : KeywordOk Stable key value)
    (hkept : isObject → key ≠ "required" ∧ key ≠ "additionalProperties")
    (hprops : key = "properties" → ∀ props, value = .obj props →
      ∀ p ∈ props, Kept p.2 ∧ required.contains p.1) :
    ∃ w, transformKeyword (transformNode · false) isObject required key value = some w ∧
      Same w value := by
  obtain ⟨hdropped, hunder⟩ := hok
  have hrebuilt : (isObject && (key = Text.ofString "required" ||
      key = Text.ofString "additionalProperties")) = false := by
    cases isObject with
    | false => rfl
    | true => simp [hkept rfl]
  cases value with
  | obj sub =>
    simp only [transformKeyword, hdropped, hrebuilt, Bool.false_eq_true, if_false]
    split_ifs with hproperties hitems hdefs
    · refine ⟨_, rfl, Same.map_fields
        (f := fun name v => transformProperty (transformNode · false) name required v) fun p hp => ?_⟩
      obtain ⟨hkeep, hlisted⟩ := hprops hproperties sub rfl p hp
      rw [transformProperty_listed hlisted]
      exact hkeep.2
    · obtain ⟨hselector, hstable⟩ := hunder.1 hitems
      obtain ⟨fields, hfields⟩ := exists_transformNode sub false
      have hsame := hstable.2
      rw [hfields] at hsame ⊢
      have hlacks := lacksSelector_same hsame
      have hfieldsSelector : hasBranchSelector fields := by
        simpa [lacksSelector, hselector] using hlacks
      exact ⟨_, by rw [stringByDefault, if_pos hfieldsSelector], hsame⟩
    · refine ⟨_, rfl, Same.map_fields (f := fun _ v => transformNode v false) fun p hp => ?_⟩
      exact (hunder.2 (by simpa using hdefs) p hp).2
    · exact ⟨_, rfl, .refl _⟩
  | arr branches =>
    simp only [transformKeyword, hdropped, hrebuilt, Bool.false_eq_true, if_false]
    split_ifs with hany
    · exact ⟨_, rfl, same_cleanAnyof (hunder hany)⟩
    · exact ⟨_, rfl, .refl _⟩
  | _ =>
    simp only [transformKeyword, hdropped, hrebuilt, Bool.false_eq_true, if_false]
    exact ⟨_, rfl, .refl _⟩

/-- A node of stable branches and properties stays the same. -/
lemma same_of_nodeCompliant {root : Bool} {node : Dict (JsonValue φ)} (h : node.keys.Nodup)
    (hok : NodeCompliant Stable Kept (root = true) node) (hexact : Exact node) :
    Same (transformNode (.obj node) root) (.obj node) := by
  have hfree : isFreeForm node root = false := by
    rw [isFreeForm]
    by_cases hobj : isObjectNode node
    · by_cases hnone : propertiesOf node = []
      · simp [(hok.object hobj).nonempty hnone]
      · simp [hnone]
    · simp [hobj]
  rw [transformNode_encoded]
  refine Same.of_get? fun key => ?_
  rw [get?_encoded h hfree]
  by_cases hclosed : isObjectNode node ∧ key = Text.ofString "additionalProperties"
  · obtain ⟨hobj, rfl⟩ := hclosed
    rw [if_pos ⟨hobj, rfl⟩, (hok.object hobj).closed]
    exact .some (.refl _)
  by_cases hrequired : isObjectNode node ∧ key = Text.ofString "required"
  · obtain ⟨hobj, rfl⟩ := hrequired
    rw [if_neg hclosed, if_pos ⟨hobj, rfl⟩, hexact hobj]
    exact .some (.refl _)
  rw [if_neg hclosed, if_neg hrequired]
  cases hget : node.get? key with
  | none => exact .none
  | some value =>
    obtain ⟨w, hw, hsame⟩ : ∃ w, transformKeyword (transformNode · false) (isObjectNode node)
        (requiredNames node) key value = some w ∧ Same w value :=
      transformKeyword_stable (hok.keyword key value hget)
        (fun hobj => ⟨fun hkey => hrequired ⟨hobj, hkey⟩, fun hkey => hclosed ⟨hobj, hkey⟩⟩) (by
        rintro rfl props rfl p hp
        have hobj := isObjectNode_iff.2 (.inr ⟨props, hget⟩)
        have hmem : p ∈ propertiesOf node := by rwa [propertiesOf, hget]
        refine ⟨(hok.object hobj).properties p hmem, ?_⟩
        rw [requiredNames, hexact hobj, List.contains_iff_mem]
        simp only [List.mem_filterMap, List.mem_map]
        exact ⟨_, ⟨p.1, List.mem_map_of_mem hmem, rfl⟩, rfl⟩)
    rw [Option.bind_some, hw]
    exact .some hsame

/-! ### Nodes that stayed the same -/

/-- The dicts under a node have distinct keys, its branches and its items have selectors. -/
structure Tidy (node : Dict (JsonValue φ)) : Prop where
  keys : node.keys.Nodup
  fields : ∀ key value, node.get? key = some value → DistinctFields value
  keyword : ∀ key value, node.get? key = some value → KeywordOk DistinctFields key value
  properties : ∀ p ∈ propertiesOf node, DistinctFields p.2

lemma transformNode_leaf {v : JsonValue φ} (h : ∀ node, v ≠ .obj node) (root : Bool) :
    transformNode v root = v := by
  rw [transformNode_eq]
  cases v with
  | obj node => exact absurd rfl (h node)
  | _ => rfl

lemma hasBranchSelector_encoded {node : Dict (JsonValue φ)} (h : node.keys.Nodup)
    (hselector : hasBranchSelector node) (root : Bool) :
    hasBranchSelector (encoded node root) := by
  by_cases hfree : isFreeForm node root
  · obtain ⟨description, heq⟩ := encoded_of_freeForm h hfree
    rw [heq]
    rfl
  · rw [hasBranchSelector_iff] at hselector ⊢
    obtain ⟨key, hkey, hsome⟩ := hselector
    exact ⟨key, hkey, by rwa [get?_encoded_isSome h (Bool.not_eq_true _ ▸ hfree) hkey]⟩

/-- A branch with a selector stays in its union. -/
lemma normalize_transformNode {b : JsonValue φ} (h : lacksSelector b = false)
    (hdistinct : DistinctFields b) :
    normalizeAnyofBranch (transformNode b false) = some (transformNode b false) := by
  cases b with
  | obj node =>
    have hselector : hasBranchSelector node := by simpa [lacksSelector] using h
    rw [transformNode_encoded]
    refine normalize_of_selector ?_
    simp [lacksSelector, hasBranchSelector_encoded (hdistinct node rfl) hselector]
  | _ =>
    rw [transformNode_leaf (by simp)]
    rfl

lemma cleanAnyof_transformNode {branches : List (JsonValue φ)}
    (h : ∀ b ∈ branches, lacksSelector b = false ∧ DistinctFields b) :
    cleanAnyof (branches.map (transformNode · false)) = branches.map (transformNode · false) := by
  induction branches with
  | nil => rfl
  | cons b branches ih =>
    rw [List.forall_mem_cons] at h
    have hb := normalize_transformNode h.1.1 h.1.2
    rw [cleanAnyof, List.map_cons, List.filterMap_cons_some hb]
    exact congrArg (_ :: ·) (ih h.2)

/-- A union stays the same just if its branches do. -/
lemma same_cleanAnyof_iff {branches : List (JsonValue φ)}
    (h : ∀ b ∈ branches, lacksSelector b = false ∧ DistinctFields b) :
    Same (.arr (cleanAnyof (branches.map (transformNode · false)))) (.arr branches) ↔
      ∀ b ∈ branches, Stable b := by
  rw [cleanAnyof_transformNode h, Same.arr_iff, List.forall₂_map_left_iff, List.forall₂_same]
  exact forall₂_congr fun b hb => (and_iff_right (h b hb).2).symm

/-- A keyword that stayed the same is over stable schemas. -/
lemma keywordOk_of_same {isObject : Bool} {required : List Text} {key : Text} {value w : JsonValue φ}
    (hok : KeywordOk DistinctFields key value) (hdistinct : DistinctFields value)
    (hw : transformKeyword (transformNode · false) isObject required key value = some w)
    (hsame : Same w value) : KeywordOk Stable key value := by
  obtain ⟨hdropped, hunder⟩ := hok
  refine ⟨hdropped, ?_⟩
  cases value with
  | obj sub =>
    have hsub := hdistinct sub rfl
    refine ⟨?_, fun hdefs p hp => ?_⟩
    · rintro rfl
      obtain ⟨hselector, hfields⟩ := hunder.1 rfl
      refine ⟨hselector, hfields, ?_⟩
      have hitems : stringByDefault (transformNode (.obj sub) false) = .obj (encoded sub false) := by
        rw [transformNode_encoded, stringByDefault,
          if_pos (hasBranchSelector_encoded hsub hselector false)]
      have heq : w = .obj (encoded sub false) := by
        rw [← hitems]
        simpa [transformKeyword, isDropped, bannedKeywords] using hw.symm
      rw [transformNode_encoded]
      exact heq ▸ hsame
    · have hmem := (Dict.mem_iff_get? hsub).1 hp
      have heq : w = .obj (sub.map fun p => (p.1, transformNode p.2 false)) := by
        rcases hdefs with rfl | rfl <;>
          simpa [transformKeyword, isDropped, bannedKeywords] using hw.symm
      subst heq
      have hrel := hsame.get? p.1
      rw [Dict.get?_map (f := fun _ v => transformNode v false), hmem] at hrel
      cases hrel with
      | some hp' => exact ⟨hunder.2 hdefs p hp, hp'⟩
  | arr branches =>
    rintro rfl
    have heq : w = .arr (cleanAnyof (branches.map (transformNode · false))) := by
      simpa [transformKeyword, isDropped, bannedKeywords] using hw.symm
    subst heq
    exact fun b hb => ⟨(hunder rfl b hb).1, (same_cleanAnyof_iff (hunder rfl)).1 hsame b hb⟩
  | _ => trivial

/-- A node that keeps its type and its properties is not encoded as a text. -/
lemma not_freeForm_of_same {node : Dict (JsonValue φ)} {root : Bool} (h : node.keys.Nodup)
    (htype : Option.Rel Same ((encoded node root).get? "type") (node.get? "type"))
    (hprops : Option.Rel Same ((encoded node root).get? "properties") (node.get? "properties")) :
    isFreeForm node root = false := by
  by_contra hfree
  rw [Bool.not_eq_false] at hfree
  obtain ⟨description, heq⟩ := encoded_of_freeForm h hfree
  have hobj : isObjectNode node := by
    rw [isFreeForm, Bool.and_eq_true, Bool.and_eq_true] at hfree
    exact hfree.1.1
  rw [heq] at htype hprops
  rcases isObjectNode_iff.1 hobj with hobject | ⟨props, hget⟩
  · rw [hobject] at htype
    cases htype with
    | some hstr => simpa using hstr.eq_of_str
  · rw [hget] at hprops
    cases hprops

/-- A node that stayed the same has stable branches and properties, and lists them in their
order. -/
lemma nodeCompliant_of_same {root : Bool} {node : Dict (JsonValue φ)} (h : Tidy node)
    (hsame : Same (transformNode (.obj node) root) (.obj node)) :
    NodeCompliant Stable Kept (root = true) node ∧ Exact node := by
  rw [transformNode_encoded] at hsame
  have hfree := not_freeForm_of_same h.keys (hsame.get? _) (hsame.get? _)
  have hexact : Exact node := by
    intro hobj
    have hrel := hsame.get? "required"
    rw [get?_encoded_required h.keys hfree hobj] at hrel
    cases hget : node.get? "required" with
    | none =>
      rw [hget] at hrel
      cases hrel
    | some v =>
      rw [hget] at hrel
      cases hrel with
      | some hv => rw [hv.eq_of_strs]
  have hclosed (hobj : isObjectNode node) : node.get? "additionalProperties" = some (.bool false) := by
    have hrel := hsame.get? "additionalProperties"
    rw [get?_encoded_closed h.keys hfree hobj] at hrel
    cases hget : node.get? "additionalProperties" with
    | none =>
      rw [hget] at hrel
      cases hrel
    | some v =>
      rw [hget] at hrel
      cases hrel with
      | some hv => rw [hv.eq_of_bool]
  refine ⟨⟨fun key value hget => ?_, fun hobj => ?_⟩, hexact⟩
  · by_cases hrebuilt : key = "additionalProperties" ∨ key = "required"
    · exact keywordOk_of_notMem (h.keyword key value hget).1 (by
        rcases hrebuilt with rfl | rfl <;> decide)
    · rw [not_or] at hrebuilt
      have hrel := hsame.get? key
      rw [get?_encoded_of_ne h.keys hfree hrebuilt.1 hrebuilt.2, hget, Option.bind_some] at hrel
      cases hw : transformKeyword (transformNode · false) (isObjectNode node) (requiredNames node)
          key value with
      | none =>
        rw [hw] at hrel
        cases hrel
      | some w =>
        rw [hw] at hrel
        cases hrel with
        | some hv =>
          exact keywordOk_of_same (h.keyword key value hget) (h.fields key value hget) hw hv
  · have hrequired : requiredOf node = (propertiesOf node).keys.map .str := by
      rw [requiredOf, hexact hobj]
    obtain ⟨hmissing, hextra⟩ := listed_of_names hrequired
    refine ⟨hclosed hobj, fun hnil => ?_, hmissing, hextra, fun p hp => ?_⟩
    · simpa [isFreeForm, hobj, hnil] using hfree
    · refine ⟨h.properties p hp, ?_⟩
      rw [propertiesOf] at hp
      split at hp
      · next props hget =>
        have hmem := (Dict.mem_iff_get? (h.fields _ _ hget props rfl)).1 hp
        have hrel := hsame.get? "properties"
        have hlisted : (requiredNames node).contains p.1 := by
          rw [requiredNames, hexact hobj, List.contains_iff_mem]
          simp only [List.mem_filterMap, List.mem_map]
          refine ⟨_, ⟨p.1, ?_, rfl⟩, rfl⟩
          rw [propertiesOf, hget]
          exact List.mem_map_of_mem hp
        have hw : transformKeyword (transformNode · false) (isObjectNode node) (requiredNames node)
            "properties" (.obj props) = some (.obj (props.map fun p =>
              (p.1, transformProperty (transformNode · false) p.1 (requiredNames node) p.2))) := by
          simp [transformKeyword, isDropped, bannedKeywords]
        rw [get?_encoded_of_ne h.keys hfree (by decide) (by decide), hget, Option.bind_some,
          hw] at hrel
        cases hrel with
        | some hv =>
          have hrel := hv.get? p.1
          rw [Dict.get?_map (f := fun name v =>
            transformProperty (transformNode · false) name (requiredNames node) v), hmem,
            Option.map_some] at hrel
          cases hrel with
          | some hp' =>
            rw [transformProperty_listed hlisted] at hp'
            exact hp'
      · cases hp

/-- A node stays the same just if its branches and properties do and it lists them in their
order. -/
lemma same_iff {root : Bool} {node : Dict (JsonValue φ)} (h : Tidy node) :
    Same (transformNode (.obj node) root) (.obj node) ↔
      NodeCompliant Stable Kept (root = true) node ∧ Exact node :=
  ⟨nodeCompliant_of_same h, fun hok => same_of_nodeCompliant h.keys hok.1 hok.2⟩

lemma stable_iff {node : Dict (JsonValue φ)} (h : Tidy node) :
    Stable (.obj node) ↔ NodeCompliant Stable Kept False node ∧ Exact node := by
  have hiff : Same (transformNode (.obj node) false) (.obj node) ↔ _ := same_iff h
  simp only [Bool.false_eq_true] at hiff
  rw [Stable, ← hiff]
  refine and_iff_right fun node' heq => ?_
  obtain rfl := JsonValue.obj.inj heq
  exact h.keys

end RentCompass.Tools
