import RentCompass.Tools.StrictTwice

/-!
# Encoded schemas are tidy

Whatever the encoder makes of a schema has distinct keys in its dicts, and selectors on its
branches and items.
-/

namespace RentCompass.Tools

open JsonValue

variable {φ : Type}

/-! ### Schemas with distinct keys -/

/-- A schema whose nested schemas are dicts, all of them with distinct keys. -/
def DistinctTree (schema : JsonValue φ) : Prop := SchemaTree schema ∧ schema.distinctKeys

lemma distinctKeys_get? {node : Dict (JsonValue φ)} (h : (JsonValue.obj node).distinctKeys)
    {key : Text} {value : JsonValue φ} (hget : node.get? key = some value) : value.distinctKeys :=
  (distinctKeys_obj.1 h).2 _ (Dict.mem_of_get? hget)

lemma distinctFields_of_distinctKeys {value : JsonValue φ} (h : value.distinctKeys) :
    DistinctFields value := by
  rintro node rfl
  exact (distinctKeys_obj.1 h).1

lemma valueKeyword_distinct {key : Text} {v w : JsonValue φ} (h : valueKeyword key v = some w)
    (hv : v.distinctKeys) : w.distinctKeys := by
  cases v with
  | arr types =>
    rw [distinctKeys_arr] at hv
    have hfilter : ∀ t ∈ types.filter (!isNullName ·), t.distinctKeys :=
      fun t ht => hv t (List.mem_filter.1 ht).1
    simp only [valueKeyword] at h
    split_ifs at h
    · split at h
      · cases h
      · next t hone =>
        cases h
        exact hfilter _ (hone ▸ List.mem_singleton_self _)
      · cases h
        exact distinctKeys_arr.2 hfilter
    · cases h
      exact distinctKeys_arr.2 hv
  | _ =>
    simp only [valueKeyword] at h
    split_ifs at h
    cases h
    exact hv

lemma distinctTree_hereditary : Hereditary (DistinctTree (φ := φ)) where
  tree _ h := h.1
  properties node h p hp := by
    refine ⟨schemaTree_hereditary.properties node h.1 p hp, ?_⟩
    rw [propertiesOf] at hp
    split at hp
    · next props hget => exact (distinctKeys_obj.1 (distinctKeys_get? h.2 hget)).2 p hp
    · cases hp
  branches node h b hb := by
    refine ⟨schemaTree_hereditary.branches node h.1 b hb, ?_⟩
    rw [unionOf] at hb
    split at hb
    · next branches hget => exact distinctKeys_arr.1 (distinctKeys_get? h.2 hget) b hb
    · cases hb
  items node h items hget :=
    ⟨schemaTree_hereditary.items node h.1 items hget, distinctKeys_get? h.2 hget⟩
  defs node h defkey hkey defs hget p hp :=
    ⟨schemaTree_hereditary.defs node h.1 defkey hkey defs hget p hp,
      (distinctKeys_obj.1 (distinctKeys_get? h.2 hget)).2 p hp⟩
  value node h := by
    refine ⟨h.1.value, distinctKeys_obj.2 ⟨Dict.keys_filterMap_nodup h.1.shape.keys _, ?_⟩⟩
    intro p hp
    obtain ⟨q, hq, hp⟩ := List.mem_filterMap.1 hp
    obtain ⟨w, hw, rfl⟩ := Option.map_eq_some_iff.1 hp
    exact valueKeyword_distinct hw ((distinctKeys_obj.1 h.2).2 q hq)

/-! ### What the encoder makes has distinct keys -/

lemma mergeDicts_keys {a : Dict (JsonValue φ)} (h : a.keys.Nodup) (b : Dict (JsonValue φ)) :
    (mergeDicts a b).keys.Nodup := by
  induction b generalizing a with
  | nil => exact h
  | cons p b ih => exact ih (Dict.keys_insert_nodup h _ _).1

lemma metadata_keys_nodup {node : Dict (JsonValue φ)} (h : node.keys.Nodup) :
    (splitProperty node).metadata.keys.Nodup :=
  h.sublist (List.filter_sublist.map _)

lemma propertyCore_keys {node : Dict (JsonValue φ)} (h : SchemaTree (.obj node)) :
    (propertyCore (transformNode · false) (splitProperty node)).keys.Nodup := by
  have hvalue := encoded_keys h.value.shape.keys false
  rcases hlist : (splitProperty node).nonNullBranches with _ | ⟨b, _ | ⟨b', bs⟩⟩
  · rw [propertyCore_none hlist]
    exact hvalue
  · have hmem : b ∈ (splitProperty node).nonNullBranches := by simp [hlist]
    have htree := schemaTree_hereditary.branches node h b (List.mem_filter.1 hmem).1
    obtain ⟨branch, rfl⟩ := htree.exists_obj
    rw [propertyCore_one hlist]
    exact mergeDicts_keys (encoded_keys htree.shape.keys false) _
  · rw [propertyCore_many hlist]
    exact (Dict.keys_insert_nodup hvalue _ _).1

lemma distinctFields_property {schema : JsonValue φ} (h : SchemaTree schema) (name : Text)
    (required : List Text) :
    DistinctFields (transformProperty (transformNode · false) name required schema) := by
  obtain ⟨node, rfl⟩ := h.exists_obj
  rw [transformProperty]
  split_ifs
  · exact distinctFields_obj.2 (mergeDicts_keys (propertyCore_keys h) _)
  · exact distinctFields_obj.2 (Dict.keys_insert_nodup (metadata_keys_nodup h.shape.keys) _ _).1

/-- What the encoder makes of any schema has distinct keys. -/
lemma agrees_distinct {schema : JsonValue φ} (h : SchemaTree schema) :
    Agrees DistinctFields DistinctFields (fun _ _ => True) schema := by
  have hproperty := distinctFields_property h
  obtain ⟨node, rfl⟩ := h.exists_obj
  refine ⟨⟨?_, survives_encoded h.shape.keys⟩, fun name required => ?_⟩
  · rw [transformNode_encoded]
    exact iff_of_true (distinctFields_obj.2 (encoded_keys h.shape.keys false)) trivial
  · exact iff_of_true (hproperty name required) trivial

lemma keywordFits_true (key : Text) (value : JsonValue φ) :
    KeywordFits (fun _ _ => True) key value := by
  cases value with
  | obj sub => exact ⟨fun _ => trivial, fun _ _ _ => trivial⟩
  | arr branches => exact fun _ _ _ _ => trivial
  | _ => trivial

lemma distinctFields_transform {isObject : Bool} {required : List Text} {key : Text}
    {value w : JsonValue φ} (h : DistinctFields value)
    (hw : transformKeyword (transformNode · false) isObject required key value = some w) :
    DistinctFields w := by
  cases value with
  | obj sub =>
    have hsub := h sub rfl
    have hmap (f : Text → JsonValue φ → JsonValue φ) :
        DistinctFields (.obj (sub.map fun p => (p.1, f p.1 p.2))) := by
      rw [distinctFields_obj]
      simpa [Dict.keys, Function.comp_def] using hsub
    simp only [transformKeyword] at hw
    split_ifs at hw
    · cases hw
      exact hmap fun name v => transformProperty (transformNode · false) name required v
    · cases hw
      have hkeys := encoded_keys hsub false
      rw [transformNode_encoded, stringByDefault]
      split_ifs
      · exact distinctFields_obj.2 hkeys
      · exact distinctFields_obj.2 (Dict.keys_insert_nodup hkeys _ _).1
    · cases hw
      exact hmap fun _ v => transformNode v false
    · cases hw
      exact h
  | arr branches =>
    simp only [transformKeyword] at hw
    split_ifs at hw
    all_goals
      cases hw
      rintro node ⟨⟩
  | _ =>
    simp only [transformKeyword] at hw
    split_ifs at hw
    cases hw
    exact h

/-! ### Tidy dicts -/

lemma tidy_encoded {node : Dict (JsonValue φ)} (h : DistinctTree (.obj node)) (root : Bool) :
    Tidy (encoded node root) := by
  have hkeys := h.1.shape.keys
  by_cases hfree : isFreeForm node root
  · obtain ⟨description, heq⟩ := encoded_of_freeForm hkeys hfree
    have hok := nodeCompliant_freeForm DistinctFields (DistinctFields (φ := φ)) False description
    refine ⟨encoded_keys hkeys root, ?_, ?_, ?_⟩
    · intro key value hget
      rw [heq] at hget
      have hmem := Dict.mem_of_get? hget
      simp only [List.mem_cons, Prod.mk.injEq, List.not_mem_nil, or_false] at hmem
      rcases hmem with ⟨rfl, rfl⟩ | ⟨rfl, rfl⟩ <;> rintro node ⟨⟩
    · rw [heq]
      exact hok.keyword
    · rw [heq]
      rintro p ⟨⟩
  · have hfree : isFreeForm node root = false := Bool.not_eq_true _ ▸ hfree
    obtain ⟨hunder, -⟩ := agreesUnder distinctTree_hereditary h fun w _ hw => agrees_distinct hw.1
    refine ⟨encoded_keys hkeys root, fun key value hget => ?_, fun key => ?_, fun p hp => ?_⟩
    · rw [get?_encoded hkeys hfree] at hget
      split_ifs at hget
      · cases hget
        rintro node ⟨⟩
      · cases hget
        rintro node ⟨⟩
      · obtain ⟨v, hv, hw⟩ := Option.bind_eq_some_iff.1 hget
        exact distinctFields_transform
          (distinctFields_of_distinctKeys (distinctKeys_get? h.2 hv)) hw
    · exact (keywords_encoded distinctFields_typeFree hkeys hfree (hunder key)).2
        fun value _ => keywordFits_true key value
    · rw [propertiesOf_encoded hkeys hfree] at hp
      obtain ⟨q, hq, rfl⟩ := List.mem_map.1 hp
      exact distinctFields_property (schemaTree_hereditary.properties node h.1 q hq) _ _

lemma Tidy.merge {a b : Dict (JsonValue φ)} (ha : Tidy a) (hb : Tidy b) : Tidy (mergeDicts a b) := by
  have hget {key : Text} {value : JsonValue φ} (h : (mergeDicts a b).get? key = some value) :
      b.get? key = some value ∨ a.get? key = some value := by
    rw [get?_mergeDicts hb.keys, Option.or_eq_some_iff] at h
    exact h.imp_right And.right
  refine ⟨mergeDicts_keys ha.keys b, fun key value h => ?_, fun key value h => ?_, fun p hp => ?_⟩
  · exact (hget h).elim (hb.fields key value) (ha.fields key value)
  · exact (hget h).elim (hb.keyword key value) (ha.keyword key value)
  · rw [propertiesOf] at hp
    split at hp
    · next props h =>
      rcases hget h with hprops | hprops
      · exact hb.properties p (by rwa [propertiesOf, hprops])
      · exact ha.properties p (by rwa [propertiesOf, hprops])
    · cases hp

/-- A clean union over a tidy dict is tidy. -/
lemma Tidy.insert_anyOf {node : Dict (JsonValue φ)} (h : Tidy node) {branches : List (JsonValue φ)}
    (hbranches : ∀ b ∈ branches, lacksSelector b = false ∧ DistinctFields b) :
    Tidy (Dict.insert node "anyOf" (.arr branches)) := by
  have hget {key : Text} {value : JsonValue φ}
      (h : (Dict.insert node "anyOf" (.arr branches)).get? key = some value) :
      (key = "anyOf" ∧ value = .arr branches) ∨ node.get? key = some value := by
    rw [Dict.get?_insert] at h
    split_ifs at h with hkey
    · exact .inl ⟨hkey, (Option.some.inj h).symm⟩
    · exact .inr h
  refine ⟨(Dict.keys_insert_nodup h.keys _ _).1, fun key value hkey => ?_, fun key value hkey => ?_,
    fun p hp => ?_⟩
  · rcases hget hkey with ⟨rfl, rfl⟩ | hold
    · rintro node ⟨⟩
    · exact h.fields key value hold
  · rcases hget hkey with ⟨rfl, rfl⟩ | hold
    · exact ⟨by simp [isDropped, bannedKeywords], fun _ => hbranches⟩
    · exact h.keyword key value hold
  · refine h.properties p ?_
    rwa [propertiesOf, Dict.get?_insert, if_neg (by decide)] at hp

/-- Descriptions are tidy. -/
lemma tidy_metadata {node : Dict (JsonValue φ)} (h : DistinctTree (.obj node)) :
    Tidy (splitProperty node).metadata := by
  have hmeta {key : Text} {value : JsonValue φ}
      (hget : (splitProperty node).metadata.get? key = some value) :
      key ∈ metaKeywords ∧ (key, value) ∈ node := by
    obtain ⟨hmem, hkey⟩ := List.mem_filter.1 (Dict.mem_of_get? hget)
    simp only [Bool.and_eq_true, List.contains_iff_mem] at hkey
    exact ⟨hkey.2, hmem⟩
  refine ⟨metadata_keys_nodup h.1.shape.keys, fun key value hget => ?_, fun key value hget => ?_,
    fun p hp => ?_⟩
  · exact distinctFields_of_distinctKeys ((distinctKeys_obj.1 h.2).2 _ (hmeta hget).2)
  · exact keywordOk_meta (hmeta hget).1 value
  · rw [propertiesOf, get?_metadata_none node (by decide)] at hp
    cases hp

lemma tidy_core {node : Dict (JsonValue φ)} (h : DistinctTree (.obj node)) :
    Tidy (propertyCore (transformNode · false) (splitProperty node)) := by
  have hvalue := tidy_encoded (distinctTree_hereditary.value node h) false
  have hbranch (b) (hb : b ∈ (splitProperty node).nonNullBranches) : DistinctTree b :=
    distinctTree_hereditary.branches node h b (List.mem_filter.1 hb).1
  rcases hlist : (splitProperty node).nonNullBranches with _ | ⟨b, _ | ⟨b', bs⟩⟩
  · rw [propertyCore_none hlist]
    exact hvalue
  · have htree := hbranch b (by simp [hlist])
    obtain ⟨branch, rfl⟩ := htree.1.exists_obj
    rw [propertyCore_one hlist]
    exact (tidy_encoded htree false).merge hvalue
  · rw [propertyCore_many hlist]
    refine hvalue.insert_anyOf ((cleanAnyof_compliant distinctFields_typeFree).2 ?_)
    rw [List.forall_mem_map]
    exact fun c hc _ => (agrees_distinct (hbranch c (hlist ▸ hc)).1).branch.compliant.2 trivial

end RentCompass.Tools
