import RentCompass.Tools.StrictNullable

/-!
# Properties that are required, encoded again

A property that is required and has no null stays the same as its keywords do, if its union has two
branches at least, and its type is not a list of one.
-/

namespace RentCompass.Tools

open JsonValue

variable {φ : Type} {node : Dict (JsonValue φ)}

lemma not_nullPresent (hnull : (splitProperty node).nullPresent = false) :
    (∀ b ∈ unionOf node, isNullSchema b = false) ∧ ∀ t ∈ typesOf node, isNullName t = false := by
  simp only [splitProperty, Bool.or_eq_false_iff, List.any_eq_false] at hnull
  exact ⟨fun b hb => Bool.not_eq_true _ ▸ hnull.1 b hb, fun t ht => Bool.not_eq_true _ ▸ hnull.2 t ht⟩

lemma nonNullBranches_listed (hnull : (splitProperty node).nullPresent = false) :
    (splitProperty node).nonNullBranches = unionOf node := by
  rw [splitProperty, List.filter_eq_self]
  simpa using (not_nullPresent hnull).1

lemma get?_listed (h : node.keys.Nodup) (key : Text) :
    (mergeDicts (propertyCore (transformNode · false) (splitProperty node))
      (splitProperty node).metadata).get? key =
      if key ∈ metaKeywords then
        (node.get? key).or ((propertyCore (transformNode · false) (splitProperty node)).get? key)
      else (propertyCore (transformNode · false) (splitProperty node)).get? key := by
  rw [get?_mergeDicts (metadata_keys_nodup h)]
  split_ifs with hmeta
  · rw [get?_metadata h hmeta]
  · rw [get?_metadata_none node hmeta, Option.none_or]

/-- A keyword that describes the value is left as it is. -/
lemma get?_value_kept (h : Tidy node) {key : Text} (hkey : isDescription key = false)
    (htype : key ≠ "type") : (splitProperty node).value.get? key = node.get? key := by
  have hnot := mt isDescription_iff.2 (Bool.not_eq_true _ ▸ hkey)
  rw [not_or] at hnot
  rw [get?_value h.keys]
  cases hget : node.get? key with
  | none => rfl
  | some v =>
    have hdropped := (h.keyword key v hget).1
    cases v with
    | arr types => simp [valueKeyword, hdropped, hnot.1, hnot.2, htype]
    | _ => simp [valueKeyword, hdropped, hnot.1]

lemma get?_value_description (h : Tidy node)
    (hunion : ∀ v, node.get? "anyOf" = some v → ∃ branches, v = .arr branches) {key : Text}
    (hkey : isDescription key) : (splitProperty node).value.get? key = none := by
  rw [get?_value h.keys]
  cases hget : node.get? key with
  | none => rfl
  | some v =>
    rcases isDescription_iff.1 hkey with hmeta | rfl
    · simp [valueKeyword, hmeta]
    · obtain ⟨branches, rfl⟩ := hunion v hget
      simp [valueKeyword]

/-- The value has the keywords of the node that describe it, if the type is plain. -/
lemma get?_value_plain (h : Tidy node) (hnull : (splitProperty node).nullPresent = false)
    (hplain : ∀ t, node.get? "type" = some t → plainTypes t) {key : Text}
    (hkey : isDescription key = false) :
    (splitProperty node).value.get? key = node.get? key := by
  by_cases htype : key = "type"
  · subst htype
    rw [get?_value h.keys]
    cases hget : node.get? "type" with
    | none => rfl
    | some t =>
      cases t with
      | arr types =>
        have hin : (isDropped "type" (.arr types : JsonValue φ) ||
            metaKeywords.contains (Text.ofString "type")) = false := by
          simp [isDropped, bannedKeywords, metaKeywords]
        have hfilter : types.filter (!isNullName ·) = types := by
          rw [List.filter_eq_self]
          have htypes : typesOf node = types := by rw [typesOf, hget]
          simpa [htypes] using (not_nullPresent hnull).2
        have hlength : 2 ≤ types.length := by
          have htypes := hplain _ hget
          simp only [plainTypes, Bool.and_eq_true, decide_eq_true_eq] at htypes
          exact htypes.2
        simp only [Option.bind_some, valueKeyword, hin, hfilter]
        rcases types with _ | ⟨s, _ | ⟨s', rest⟩⟩
        · simp at hlength
        · simp at hlength
        · rfl
      | _ => simp [valueKeyword, isDropped, bannedKeywords, metaKeywords]
  · exact get?_value_kept h hkey htype

lemma core_listed (h : Tidy node) (hnull : (splitProperty node).nullPresent = false)
    (hunion : ∀ v, node.get? "anyOf" = some v → ∃ branches, v = .arr branches)
    (hseveral : ∀ branches, node.get? "anyOf" = some (.arr branches) → 2 ≤ branches.length)
    (key : Text) : (propertyCore (transformNode · false) (splitProperty node)).get? key =
      if key = "anyOf" then
        if (node.get? "anyOf").isSome then
          some (.arr (cleanAnyof ((unionOf node).map (transformNode · false))))
        else none
      else (encoded (splitProperty node).value false).get? key := by
  have hnonNull := nonNullBranches_listed hnull
  have hvalue : (splitProperty node).value.keys.Nodup := Dict.keys_filterMap_nodup h.keys _
  cases hany : node.get? "anyOf" with
  | none =>
    have hnil : unionOf node = [] := by rw [unionOf, hany]
    rw [propertyCore_none (hnonNull.trans hnil)]
    split_ifs with hkey hsome
    · cases hsome
    · rw [hkey, encoded_value_anyOf hvalue (get?_value_description h hunion (by decide))]
    · rfl
  | some v =>
    obtain ⟨branches, rfl⟩ := hunion v hany
    have hbranches : unionOf node = branches := by rw [unionOf, hany]
    have hlength := hseveral branches hany
    rw [hbranches] at hnonNull ⊢
    rcases branches with _ | ⟨b, _ | ⟨b', bs⟩⟩
    · simp at hlength
    · simp at hlength
    · rw [propertyCore_many hnonNull, Dict.get?_insert]
      rfl

/-- A property that stayed the same has two branches in its union. -/
lemma several_of_same (h : Tidy node) (hnull : (splitProperty node).nullPresent = false)
    (hunion : ∀ v, node.get? "anyOf" = some v → ∃ branches, v = .arr branches)
    (hdicts : ∀ b ∈ unionOf node, ∃ d : Dict (JsonValue φ), b = .obj d)
    (hsame : Same (listedProperty (.obj node)) (.obj node)) {branches : List (JsonValue φ)}
    (hget : node.get? "anyOf" = some (.arr branches)) : 2 ≤ branches.length := by
  have hvalue : (splitProperty node).value.keys.Nodup := Dict.keys_filterMap_nodup h.keys _
  have hnone := encoded_value_anyOf hvalue (get?_value_description h hunion (by decide))
  have hbranches : unionOf node = branches := by rw [unionOf, hget]
  have hnonNull := (nonNullBranches_listed hnull).trans hbranches
  have hrel := hsame
  rw [listedProperty_obj, hnull, if_neg (by simp)] at hrel
  have hrel := hrel.get? "anyOf"
  rw [get?_listed h.keys, if_neg (by decide), hget] at hrel
  rw [hbranches] at hdicts
  rcases branches with _ | ⟨b, _ | ⟨b', bs⟩⟩
  · rw [propertyCore_none hnonNull, hnone] at hrel
    cases hrel
  · obtain ⟨d, rfl⟩ := hdicts b (List.mem_singleton_self b)
    rw [propertyCore_one hnonNull, get?_mergedCore hvalue, hnone, Option.none_or] at hrel
    cases hencoded : (encoded d false).get? "anyOf" with
    | none =>
      rw [hencoded] at hrel
      cases hrel
    | some v =>
      rw [hencoded] at hrel
      cases hrel with
      | some hv =>
        obtain ⟨vs, rfl⟩ := hv.exists_arr
        obtain ⟨x, _, hx, -, rfl⟩ := List.forall₂_cons_right_iff.1 (Same.arr_iff.1 hv)
        have hmem : x ∈ unionOf (encoded d false) := by
          rw [unionOf, hencoded]
          exact List.mem_cons_self
        obtain ⟨c, hc, hcx⟩ := mem_unionOf_encoded hmem
        exact absurd hx (not_same_branch hc hcx)
  · simp

/-- A property that stayed the same has a plain type. -/
lemma plain_of_same (h : Tidy node) (hnull : (splitProperty node).nullPresent = false)
    (hunion : ∀ v, node.get? "anyOf" = some v → ∃ branches, v = .arr branches)
    (hseveral : ∀ branches, node.get? "anyOf" = some (.arr branches) → 2 ≤ branches.length)
    (hsame : Same (listedProperty (.obj node)) (.obj node)) {t : JsonValue φ}
    (hget : node.get? "type" = some t) : plainTypes t := by
  have hvalue : (splitProperty node).value.keys.Nodup := Dict.keys_filterMap_nodup h.keys _
  have hrel (key : Text) (hkey : isDescription key = false) :
      Option.Rel Same ((encoded (splitProperty node).value false).get? key) (node.get? key) := by
    have hnot := mt isDescription_iff.2 (Bool.not_eq_true _ ▸ hkey)
    rw [not_or] at hnot
    have hrel := hsame
    rw [listedProperty_obj, hnull, if_neg (by simp)] at hrel
    have hrel := hrel.get? key
    rwa [get?_listed h.keys, if_neg hnot.1, core_listed h hnull hunion hseveral, if_neg hnot.2] at hrel
  have htype := hrel "type" (by decide)
  rw [hget] at htype
  cases t with
  | arr types =>
    have hfree : isFreeForm (splitProperty node).value false = false := by
      by_contra hfree
      obtain ⟨description, heq⟩ := encoded_of_freeForm hvalue (Bool.not_eq_false _ ▸ hfree)
      rw [heq] at htype
      cases htype with
      | some hv => cases hv.eq_of_str
    have htypes : typesOf node = types := by rw [typesOf, hget]
    have hnames := (not_nullPresent hnull).2
    rw [htypes] at hnames
    have hfilter : types.filter (!isNullName ·) = types := by
      rw [List.filter_eq_self]
      simpa using hnames
    have hin : (isDropped "type" (.arr types : JsonValue φ) ||
        metaKeywords.contains (Text.ofString "type")) = false := by
      simp [isDropped, bannedKeywords, metaKeywords]
    rw [get?_encoded_of_ne hvalue hfree (by decide) (by decide), get?_value h.keys, hget,
      Option.bind_some] at htype
    simp only [valueKeyword, hin, hfilter] at htype
    rcases types with _ | ⟨s, _ | ⟨s', types⟩⟩
    · cases htype
    · simp only [transformKeyword_type] at htype
      cases htype with
      | some hv => exact absurd hv (Same.not_singleton s)
    · simpa [plainTypes] using hnames
  | _ => rfl

/-- The value of a tidy property with a plain type is tidy. -/
lemma tidy_value (h : Tidy node) (hnull : (splitProperty node).nullPresent = false)
    (hunion : ∀ v, node.get? "anyOf" = some v → ∃ branches, v = .arr branches)
    (hplain : ∀ t, node.get? "type" = some t → plainTypes t) :
    Tidy (splitProperty node).value := by
  have hget {key : Text} {v : JsonValue φ} (hv : (splitProperty node).value.get? key = some v) :
      node.get? key = some v := by
    by_cases hkey : isDescription key
    · rw [get?_value_description h hunion hkey] at hv
      cases hv
    · rwa [get?_value_plain h hnull hplain (Bool.not_eq_true _ ▸ hkey)] at hv
  refine ⟨Dict.keys_filterMap_nodup h.keys _, fun key v hv => h.fields key v (hget hv),
    fun key v hv => h.keyword key v (hget hv), ?_⟩
  rw [propertiesOf_value h.keys]
  exact h.properties

/-- A property with a plain type and a union of two branches stays the same just if its value and
its union do. -/
lemma same_value_iff (h : Tidy node) (hnull : (splitProperty node).nullPresent = false)
    (hunion : ∀ v, node.get? "anyOf" = some v → ∃ branches, v = .arr branches)
    (hseveral : ∀ branches, node.get? "anyOf" = some (.arr branches) → 2 ≤ branches.length)
    (hplain : ∀ t, node.get? "type" = some t → plainTypes t) :
    Same (listedProperty (.obj node)) (.obj node) ↔
      Same (transformNode (.obj (splitProperty node).value) false) (.obj (splitProperty node).value) ∧
      ∀ branches, node.get? "anyOf" = some (.arr branches) →
        Same (.arr (cleanAnyof (branches.map (transformNode · false)))) (.arr branches) := by
  have hvalue : (splitProperty node).value.keys.Nodup := Dict.keys_filterMap_nodup h.keys _
  have hcore := core_listed h hnull hunion hseveral
  have hplainKey {key : Text} (hkey : isDescription key = false) :
      key ∉ metaKeywords ∧ key ≠ "anyOf" :=
    not_or.1 (mt isDescription_iff.2 (Bool.not_eq_true _ ▸ hkey))
  rw [listedProperty_obj, hnull, if_neg (by simp), transformNode_encoded]
  constructor
  · intro hsame
    have hrel {key : Text} (hkey : isDescription key = false) :
        Option.Rel Same ((encoded (splitProperty node).value false).get? key)
          ((splitProperty node).value.get? key) := by
      have hrel := hsame.get? key
      rwa [get?_listed h.keys, if_neg (hplainKey hkey).1, hcore, if_neg (hplainKey hkey).2,
        ← get?_value_plain h hnull hplain hkey] at hrel
    have hfree := not_freeForm_of_same hvalue (hrel (by decide)) (hrel (by decide))
    refine ⟨Same.of_get? fun key => ?_, fun branches hget => ?_⟩
    · by_cases hkey : isDescription key
      · have hall : ∀ key : Text, isDescription key →
            key ≠ "additionalProperties" ∧ key ≠ "required" := by
          intro key hkey
          refine ⟨?_, ?_⟩ <;>
          · rintro rfl
            cases hkey
        rw [get?_encoded_of_ne hvalue hfree (hall key hkey).1 (hall key hkey).2,
          get?_value_description h hunion hkey]
        exact .none
      · exact hrel (Bool.not_eq_true _ ▸ hkey)
    · have hrel := hsame.get? "anyOf"
      have hbranches : unionOf node = branches := by rw [unionOf, hget]
      rw [get?_listed h.keys, if_neg (by decide), hcore, if_pos rfl, hget, Option.isSome_some,
        if_pos rfl, hbranches] at hrel
      cases hrel with
      | some hv => exact hv
  · rintro ⟨hsame, hbranches⟩
    refine Same.of_get? fun key => ?_
    rw [get?_listed h.keys]
    split_ifs with hmeta
    · cases hget : node.get? key with
      | some v => exact .some (.refl v)
      | none =>
        have hkey := isDescription_iff.2 (.inl hmeta)
        have hrel := hsame.get? key
        have hany : key ≠ "anyOf" := by
          rintro rfl
          exact absurd hmeta (by decide)
        rw [get?_value_description h hunion hkey] at hrel
        rwa [Option.none_or, hcore, if_neg hany]
    · rw [hcore]
      split_ifs with hany hsome
      · obtain ⟨v, hget⟩ := Option.isSome_iff_exists.1 hsome
        obtain ⟨branches, rfl⟩ := hunion v hget
        have hbranchesOf : unionOf node = branches := by rw [unionOf, hget]
        rw [hany, hget, hbranchesOf]
        exact .some (hbranches branches hget)
      · rw [hany, Option.not_isSome_iff_eq_none.1 hsome]
        exact .none
      · have hkey : isDescription key = false := by
          rw [← Bool.not_eq_true, isDescription_iff]
          exact not_or.2 ⟨hmeta, hany⟩
        rw [← get?_value_plain h hnull hplain hkey]
        exact hsame.get? key

/-- A property that is required and has no null stays the same just if it is compliant in what stays
the same, lists its properties in their order, has two branches in its union, and a plain type. -/
lemma same_listed (h : Tidy node) (hnull : (splitProperty node).nullPresent = false)
    (hunion : ∀ v, node.get? "anyOf" = some v → ∃ branches, v = .arr branches)
    (hdicts : ∀ b ∈ unionOf node, ∃ d : Dict (JsonValue φ), b = .obj d) :
    Same (listedProperty (.obj node)) (.obj node) ↔
      NodeCompliant Stable Kept False node ∧ Exact node ∧
      (∀ branches, node.get? "anyOf" = some (.arr branches) → 2 ≤ branches.length) ∧
      ∀ t, node.get? "type" = some t → plainTypes t := by
  suffices hiff : (∀ branches, node.get? "anyOf" = some (.arr branches) → 2 ≤ branches.length) →
      (∀ t, node.get? "type" = some t → plainTypes t) →
      (Same (listedProperty (.obj node)) (.obj node) ↔
        NodeCompliant Stable Kept False node ∧ Exact node) by
    constructor
    · intro hsame
      have hseveral := fun branches (hget : node.get? "anyOf" = some (.arr branches)) =>
        several_of_same h hnull hunion hdicts hsame hget
      have hplain := fun t (hget : node.get? "type" = some t) =>
        plain_of_same h hnull hunion hseveral hsame hget
      obtain ⟨hok, hexact⟩ := (hiff hseveral hplain).1 hsame
      exact ⟨hok, hexact, hseveral, hplain⟩
    · rintro ⟨hok, hexact, hseveral, hplain⟩
      exact (hiff hseveral hplain).2 ⟨hok, hexact⟩
  intro hseveral hplain
  have hvalue := tidy_value h hnull hunion hplain
  have hget {key : Text} (hkey : isDescription key = false) :=
    get?_value_plain h hnull hplain hkey
  have hobject : isObjectNode (splitProperty node).value = isObjectNode node := by
    rw [Bool.eq_iff_iff, isObjectNode_iff, isObjectNode_iff, hget (by decide), hget (by decide)]
  have hexact : Exact (splitProperty node).value ↔ Exact node :=
    ⟨.congr (hget (by decide)) (hget (by decide)) (hget (by decide)),
      .congr (hget (by decide)).symm (hget (by decide)).symm (hget (by decide)).symm⟩
  rw [same_value_iff h hnull hunion hseveral hplain, same_iff hvalue, hexact, and_right_comm]
  refine and_congr_left fun _ => ?_
  rw [nodeCompliant_iff, nodeCompliant_iff, hobject]
  simp only [Bool.false_eq_true]
  rw [and_right_comm]
  refine and_congr ?_ (imp_congr_right fun _ =>
    ⟨ObjectOk.congr (hget (by decide)) (hget (by decide)) (hget (by decide)),
      ObjectOk.congr (hget (by decide)).symm (hget (by decide)).symm (hget (by decide)).symm⟩)
  have hbranches (branches) (hany : node.get? "anyOf" = some (.arr branches)) :
      Same (.arr (cleanAnyof (branches.map (transformNode · false)))) (.arr branches) ↔
        ∀ b ∈ branches, Stable b := same_cleanAnyof_iff ((h.keyword _ _ hany).2 rfl)
  constructor
  · rintro ⟨hkeywords, hall⟩ key value hkey
    by_cases hdescription : isDescription key
    · rcases isDescription_iff.1 hdescription with hmeta | rfl
      · exact keywordOk_meta hmeta value
      · obtain ⟨branches, rfl⟩ := hunion value hkey
        refine ⟨(h.keyword _ _ hkey).1, fun _ b hb => ?_⟩
        exact ⟨((h.keyword _ _ hkey).2 rfl b hb).1, (hbranches branches hkey).1 (hall branches hkey) b hb⟩
    · exact hkeywords key value (by rwa [hget (Bool.not_eq_true _ ▸ hdescription)])
  · intro hkeywords
    refine ⟨fun key value hkey => hkeywords key value ?_, fun branches hany =>
      (hbranches branches hany).2 fun b hb => ((hkeywords _ _ hany).2 rfl b hb).2⟩
    by_cases hdescription : isDescription key
    · rw [get?_value_description h hunion hdescription] at hkey
      cases hkey
    · rwa [hget (Bool.not_eq_true _ ▸ hdescription)] at hkey

end RentCompass.Tools
