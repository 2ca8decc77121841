import RentCompass.Tools.StrictSchema

/-!
# Encoded nodes, keyword by keyword

What the strict encoder makes of each keyword of a node and of a property, for every schema whose
nested schemas are dicts.
-/

namespace RentCompass.Tools

open JsonValue

variable {φ : Type}

/-! ### Schemas -/

/-- The keywords of a node are of the kinds JSON schema has. -/
structure NodeShape (node : Dict (JsonValue φ)) : Prop where
  keys : node.keys.Nodup
  properties : ∀ v, node.get? "properties" = some v → ∃ props, v = .obj props ∧ (Dict.keys props).Nodup
  anyOf : ∀ v, node.get? "anyOf" = some v → ∃ branches, v = .arr branches
  required : ∀ v, node.get? "required" = some v → ∃ names : List Text, v = .arr (names.map .str)

/-- A schema whose nested schemas are dicts. -/
inductive SchemaTree : JsonValue φ → Prop
  | node {node : Dict (JsonValue φ)} (shape : NodeShape node)
      (properties : ∀ p ∈ propertiesOf node, SchemaTree p.2)
      (branches : ∀ b ∈ unionOf node, SchemaTree b)
      (items : ∀ items, node.get? "items" = some (.obj items) → SchemaTree (.obj items))
      (defs : ∀ defs, node.get? "$defs" = some (.obj defs) → ∀ p ∈ defs, SchemaTree p.2)
      (definitions : ∀ defs, node.get? "definitions" = some (.obj defs) → ∀ p ∈ defs, SchemaTree p.2) :
      SchemaTree (.obj node)

lemma SchemaTree.shape {node : Dict (JsonValue φ)} (h : SchemaTree (.obj node)) : NodeShape node := by
  cases h
  assumption

lemma SchemaTree.exists_obj {schema : JsonValue φ} (h : SchemaTree schema) :
    ∃ node, schema = .obj node := by
  cases h with
  | @node node => exact ⟨node, rfl⟩

/-! ### Branches of a union -/

/-- An object without properties below the root. -/
def isFreeForm (node : Dict (JsonValue φ)) (root : Bool) : Bool :=
  isObjectNode node && (propertiesOf node).isEmpty && !root

/-- A branch that stays in its union. -/
def survives (branch : JsonValue φ) : Bool :=
  match branch with
  | .obj node => isFreeForm node false || (normalizeAnyofBranch (.obj node)).isSome
  | _ => true

lemma hasBranchSelector_iff {node : Dict (JsonValue φ)} :
    hasBranchSelector node ↔ ∃ key ∈ branchSelectorKeywords, (node.get? key).isSome := by
  rw [hasBranchSelector, List.any_eq_true]
  refine exists_congr fun key => and_congr_right fun _ => ?_
  rw [List.contains_iff_mem, Option.isSome_iff_exists]
  exact ⟨Dict.exists_get?, fun ⟨_, hget⟩ => Dict.mem_keys_of_get? hget⟩

lemma normalizeAnyofBranch_obj (node : Dict (JsonValue φ)) :
    normalizeAnyofBranch (.obj node) = if hasBranchSelector node then some (.obj node)
      else (Dict.get? node "enum").bind fun values =>
        (enumMemberType values).map fun type => .obj (Dict.insert node "type" type) := rfl

/-- Whether a branch stays depends on its selectors and its `enum`. -/
lemma normalize_isSome_congr {s t : Dict (JsonValue φ)}
    (hselector : ∀ key ∈ branchSelectorKeywords, (s.get? key).isSome = (t.get? key).isSome)
    (henum : s.get? "enum" = t.get? "enum") :
    (normalizeAnyofBranch (.obj s)).isSome = (normalizeAnyofBranch (.obj t)).isSome := by
  have hsame : hasBranchSelector s = hasBranchSelector t := by
    rw [Bool.eq_iff_iff, hasBranchSelector_iff, hasBranchSelector_iff]
    exact exists_congr fun key => and_congr_right fun hkey => by rw [hselector key hkey]
  rw [normalizeAnyofBranch_obj, normalizeAnyofBranch_obj, hsame, henum]
  split_ifs
  · rfl
  · cases t.get? "enum" with
    | none => rfl
    | some values => cases henumType : enumMemberType values <;> simp [henumType]

lemma normalize_isSome_of_type {node : Dict (JsonValue φ)} {t : JsonValue φ}
    (h : node.get? "type" = some t) : (normalizeAnyofBranch (.obj node)).isSome := by
  have hselector : hasBranchSelector node :=
    hasBranchSelector_iff.2 ⟨"type", by decide, by rw [h]; rfl⟩
  rw [normalizeAnyofBranch_obj, if_pos hselector]
  rfl

lemma memberTypes_ne_object {values : List (JsonValue φ)} {types : List Text}
    (h : memberTypes values = some types) : Text.ofString "object" ∉ types := by
  induction values generalizing types with
  | nil =>
    cases h
    exact List.not_mem_nil
  | cons v values ih =>
    simp only [memberTypes, Option.bind_eq_bind, Option.bind_eq_some_iff, Option.some.injEq] at h
    obtain ⟨t, ht, ts, hts, rfl⟩ := h
    rw [List.mem_cons, not_or]
    refine ⟨?_, fun hmem => ih hts (List.mem_filter.1 hmem).1⟩
    rintro rfl
    cases v <;> simp [scalarType] at ht

/-- No enum makes an object. -/
lemma enumMemberType_ne_object {values t : JsonValue φ} (h : enumMemberType values = some t) :
    t ≠ .str "object" ∧ ∀ sub, t ≠ .obj sub := by
  unfold enumMemberType at h
  split at h
  · simp only [Option.map_eq_some_iff] at h
    obtain ⟨types, htypes, rfl⟩ := h
    have hnot := memberTypes_ne_object htypes
    split
    · next t => exact ⟨fun heq => hnot (by simp [JsonValue.str.inj heq]), by simp⟩
    · split <;> simp
  · cases h

/-! ### Objects -/

lemma isObjectNode_iff {node : Dict (JsonValue φ)} : isObjectNode node ↔
    node.get? "type" = some (.str "object") ∨ ∃ props, node.get? "properties" = some (.obj props) := by
  rw [isObjectNode, Bool.or_eq_true, typeIs]
  refine or_congr ?_ ?_
  · split
    · next t htype => simp [htype]
    · next hnone => simpa using fun htype => hnone _ htype
  · cases hprops : node.get? "properties" with
    | none => simp
    | some v => cases v <;> simp

lemma propertiesOf_of_not_object {node : Dict (JsonValue φ)} (h : ¬ isObjectNode node) :
    propertiesOf node = [] := by
  rw [propertiesOf]
  split
  · next props hget => exact absurd (isObjectNode_iff.2 (.inr ⟨props, hget⟩)) h
  · rfl

lemma isFreeForm_iff {node : Dict (JsonValue φ)} :
    isFreeForm node false ↔ isObjectNode node ∧ propertiesOf node = [] := by
  simp [isFreeForm]

/-- A node with properties is an object that is not a text. -/
lemma object_of_properties {node : Dict (JsonValue φ)} (h : propertiesOf node ≠ []) :
    isObjectNode node ∧ isFreeForm node false = false := by
  refine ⟨by_contra fun hobj => h (propertiesOf_of_not_object hobj), ?_⟩
  rw [← Bool.not_eq_true, isFreeForm_iff]
  exact fun hfree => h hfree.2

/-! ### The fields of an encoded node -/

lemma get?_strictFields {node : Dict (JsonValue φ)} (h : node.keys.Nodup) (key : Text) :
    (strictFields node).get? key = (node.get? key).bind
      (transformKeyword (transformNode · false) (isObjectNode node) (requiredNames node) key) :=
  Dict.get?_filterMap h _ key

lemma exists_transformNode (node : Dict (JsonValue φ)) (root : Bool) :
    ∃ fields, transformNode (.obj node) root = .obj fields := by
  rw [transformNode_obj]
  split_ifs
  · exact ⟨_, rfl⟩
  · exact ⟨_, rfl⟩
  · exact ⟨_, rfl⟩

/-- The fields of an encoded node. -/
def encoded (node : Dict (JsonValue φ)) (root : Bool) : Dict (JsonValue φ) :=
  fieldsOf (transformNode (.obj node) root)

lemma transformNode_encoded (node : Dict (JsonValue φ)) (root : Bool) :
    transformNode (.obj node) root = .obj (encoded node root) := by
  obtain ⟨fields, hfields⟩ := exists_transformNode node root
  rw [encoded, hfields, fieldsOf]

lemma encoded_keys {node : Dict (JsonValue φ)} (h : node.keys.Nodup) (root : Bool) :
    (encoded node root).keys.Nodup := by
  have hstrict : (strictFields node).keys.Nodup := Dict.keys_filterMap_nodup h _
  rw [encoded, transformNode_obj]
  split_ifs
  · rw [freeFormString, fieldsOf]
    simp [Dict.keys]
  · exact (Dict.keys_insert_nodup (Dict.keys_insert_nodup hstrict _ _).1 _ _).1
  · exact hstrict

/-- A property, encoded. -/
def encodedProperty (required : List Text) (p : Text × JsonValue φ) : Text × JsonValue φ :=
  (p.1, transformProperty (transformNode · false) p.1 required p.2)

lemma propertiesOf_strictFields {node : Dict (JsonValue φ)} (h : node.keys.Nodup) :
    propertiesOf (strictFields node) =
      (propertiesOf node).map (encodedProperty (requiredNames node)) := by
  rw [propertiesOf, propertiesOf, get?_strictFields h]
  cases hget : node.get? "properties" with
  | none => rfl
  | some v => cases v <;> simp [transformKeyword, isDropped, bannedKeywords, encodedProperty]

lemma encoded_of_freeForm {node : Dict (JsonValue φ)} (h : node.keys.Nodup) {root : Bool}
    (hfree : isFreeForm node root) :
    ∃ description, encoded node root =
      [(Text.ofString "type", .str "string"), (Text.ofString "description", .str description)] := by
  simp only [isFreeForm, Bool.and_eq_true, Bool.not_eq_true'] at hfree
  obtain ⟨⟨hobj, hempty⟩, hroot⟩ := hfree
  rw [encoded, transformNode_obj, if_pos hobj, propertiesOf_strictFields h, List.isEmpty_map,
    hempty, hroot, if_pos (by rfl)]
  exact ⟨_, rfl⟩

lemma get?_encoded {node : Dict (JsonValue φ)} (h : node.keys.Nodup) {root : Bool}
    (hfree : isFreeForm node root = false) (key : Text) :
    (encoded node root).get? key =
      if isObjectNode node ∧ key = "additionalProperties" then some (.bool false)
      else if isObjectNode node ∧ key = "required" then
        some (.arr ((propertiesOf node).keys.map .str))
      else (node.get? key).bind
        (transformKeyword (transformNode · false) (isObjectNode node) (requiredNames node) key) := by
  rw [encoded, transformNode_obj, propertiesOf_strictFields h, List.isEmpty_map]
  by_cases hobj : isObjectNode node
  · have hkept : ((propertiesOf node).isEmpty && !root) = false := by
      simpa [isFreeForm, hobj] using hfree
    have hkeys : Dict.keys ((propertiesOf node).map (encodedProperty (requiredNames node))) =
        (propertiesOf node).keys := by
      simp [Dict.keys, encodedProperty, Function.comp_def]
    rw [if_pos hobj, hkept, if_neg (by simp), fieldsOf, Dict.get?_insert, Dict.get?_insert, hkeys,
      get?_strictFields h]
    simp [hobj]
  · rw [if_neg hobj, fieldsOf, get?_strictFields h]
    simp [hobj]

/-- Where the keyword is not rebuilt, it is transformed. -/
lemma get?_encoded_of_ne {node : Dict (JsonValue φ)} (h : node.keys.Nodup) {root : Bool}
    (hfree : isFreeForm node root = false) {key : Text} (hclosed : key ≠ "additionalProperties")
    (hrequired : key ≠ "required") :
    (encoded node root).get? key = (node.get? key).bind
      (transformKeyword (transformNode · false) (isObjectNode node) (requiredNames node) key) := by
  rw [get?_encoded h hfree, if_neg fun h => hclosed h.2, if_neg fun h => hrequired h.2]

lemma get?_encoded_closed {node : Dict (JsonValue φ)} (h : node.keys.Nodup) {root : Bool}
    (hfree : isFreeForm node root = false) (hobj : isObjectNode node) :
    (encoded node root).get? "additionalProperties" = some (.bool false) := by
  rw [get?_encoded h hfree, if_pos ⟨hobj, rfl⟩]

lemma get?_encoded_required {node : Dict (JsonValue φ)} (h : node.keys.Nodup) {root : Bool}
    (hfree : isFreeForm node root = false) (hobj : isObjectNode node) :
    (encoded node root).get? "required" = some (.arr ((propertiesOf node).keys.map .str)) := by
  rw [get?_encoded h hfree, if_neg (by simp), if_pos ⟨hobj, rfl⟩]

lemma propertiesOf_encoded {node : Dict (JsonValue φ)} (h : node.keys.Nodup) {root : Bool}
    (hfree : isFreeForm node root = false) :
    propertiesOf (encoded node root) =
      (propertiesOf node).map (encodedProperty (requiredNames node)) := by
  rw [← propertiesOf_strictFields h, propertiesOf, propertiesOf,
    get?_encoded_of_ne h hfree (by decide) (by decide), get?_strictFields h]

lemma properties_of_encoded {node : Dict (JsonValue φ)} (h : node.keys.Nodup)
    (hsome : propertiesOf node ≠ []) :
    ∃ props, (encoded node false).get? "properties" = some (.obj props) := by
  have hprops := propertiesOf_encoded h (object_of_properties hsome).2
  rw [propertiesOf] at hprops
  split at hprops
  · next props hget => exact ⟨props, hget⟩
  · exact absurd (List.map_eq_nil_iff.1 hprops.symm) hsome

lemma isObjectNode_encoded {node : Dict (JsonValue φ)} (h : node.keys.Nodup) {root : Bool}
    (hfree : isFreeForm node root = false) :
    isObjectNode (encoded node root) = isObjectNode node := by
  have htype : (encoded node root).get? "type" = node.get? "type" := by
    rw [get?_encoded_of_ne h hfree (by decide) (by decide)]
    cases node.get? "type" with
    | none => rfl
    | some v => cases v <;> simp [transformKeyword, isDropped, bannedKeywords]
  rw [Bool.eq_iff_iff, isObjectNode_iff, isObjectNode_iff, htype,
    get?_encoded_of_ne h hfree (by decide) (by decide)]
  refine or_congr Iff.rfl ?_
  cases node.get? "properties" with
  | none => simp
  | some v => cases v <;> simp [transformKeyword, isDropped, bannedKeywords]

/-- Without properties there is no object once the node is encoded. -/
lemma encoded_not_object {node : Dict (JsonValue φ)} (h : node.keys.Nodup)
    (hprops : propertiesOf node = []) : isObjectNode (encoded node false) = false := by
  by_cases hfree : isFreeForm node false
  · obtain ⟨description, heq⟩ := encoded_of_freeForm h hfree
    rw [heq]
    rfl
  · have hobj : isObjectNode node = false := by
      rw [← Bool.not_eq_true]
      exact fun hobj => hfree (isFreeForm_iff.2 ⟨hobj, hprops⟩)
    rw [isObjectNode_encoded h (Bool.not_eq_true _ ▸ hfree), hobj]

/-- In a node that is no object, `required` and `additionalProperties` are kept as they are. -/
lemma get?_encoded_plain {node : Dict (JsonValue φ)} (h : node.keys.Nodup)
    (hobj : isObjectNode node = false) {key : Text}
    (hkey : key = "additionalProperties" ∨ key = "required") :
    (encoded node false).get? key = node.get? key := by
  rw [get?_encoded h (by simp [isFreeForm, hobj]), hobj, if_neg (by simp), if_neg (by simp)]
  cases node.get? key with
  | none => rfl
  | some v =>
    rcases hkey with rfl | rfl <;> cases v <;> simp [transformKeyword, isDropped, bannedKeywords]

/-- A selector or an `enum` is kept as it is. -/
lemma get?_encoded_isSome {node : Dict (JsonValue φ)} (h : node.keys.Nodup) {root : Bool}
    (hfree : isFreeForm node root = false) {key : Text} (hkey : key ∈ branchSelectorKeywords) :
    ((encoded node root).get? key).isSome = (node.get? key).isSome := by
  simp only [branchSelectorKeywords, List.mem_cons, List.not_mem_nil, or_false] at hkey
  rcases hkey with rfl | rfl | rfl <;>
  · rw [get?_encoded_of_ne h hfree (by decide) (by decide)]
    cases hget : Dict.get? node _ with
    | none => rfl
    | some v => cases v <;> simp [transformKeyword, isDropped, bannedKeywords]

lemma get?_encoded_enum {node : Dict (JsonValue φ)} (h : node.keys.Nodup) {root : Bool}
    (hfree : isFreeForm node root = false) :
    (encoded node root).get? "enum" = node.get? "enum" := by
  rw [get?_encoded_of_ne h hfree (by decide) (by decide)]
  cases node.get? "enum" with
  | none => rfl
  | some v => cases v <;> simp [transformKeyword, isDropped, bannedKeywords]

/-- An encoded branch stays where the branch does. -/
lemma survives_encoded {node : Dict (JsonValue φ)} (h : node.keys.Nodup) :
    (normalizeAnyofBranch (transformNode (.obj node) false)).isSome = survives (.obj node) := by
  rw [transformNode_encoded, survives]
  by_cases hfree : isFreeForm node false
  · obtain ⟨description, heq⟩ := encoded_of_freeForm h hfree
    rw [hfree, Bool.true_or]
    exact normalize_isSome_of_type (by rw [heq]; rfl)
  · have hfree : isFreeForm node false = false := Bool.not_eq_true _ ▸ hfree
    rw [hfree, Bool.false_or]
    exact normalize_isSome_congr (fun key hkey => get?_encoded_isSome h hfree hkey)
      (get?_encoded_enum h hfree)

lemma encoded_value_anyOf {value : Dict (JsonValue φ)} (h : value.keys.Nodup)
    (hany : value.get? "anyOf" = none) : (encoded value false).get? "anyOf" = none := by
  by_cases hfree : isFreeForm value false
  · obtain ⟨description, heq⟩ := encoded_of_freeForm h hfree
    rw [heq]
    rfl
  · rw [get?_encoded_of_ne h (Bool.not_eq_true _ ▸ hfree) (by decide) (by decide), hany,
      Option.bind_none]

/-- The union of an encoded node is clean. -/
lemma encoded_anyOf {node : Dict (JsonValue φ)} (h : NodeShape node) {v : JsonValue φ}
    (hv : (encoded node false).get? "anyOf" = some v) : ∃ js, v = .arr (cleanAnyof js) := by
  by_cases hfree : isFreeForm node false
  · obtain ⟨description, heq⟩ := encoded_of_freeForm h.keys hfree
    rw [heq] at hv
    cases hv
  · rw [get?_encoded_of_ne h.keys (Bool.not_eq_true _ ▸ hfree) (by decide) (by decide)] at hv
    cases hget : node.get? "anyOf" with
    | none => simp [hget] at hv
    | some w =>
      obtain ⟨branches, rfl⟩ := h.anyOf w hget
      rw [hget] at hv
      simp only [Option.bind_some, transformKeyword, isDropped, bannedKeywords] at hv
      exact ⟨_, (by simpa using hv.symm)⟩

/-- Keywords under which the encoder looks for schemas to go on into. -/
def schemaKeys : List Text := ["anyOf", "items", "$defs", "definitions"]

/-- What the encoder leaves out has no schemas under it. -/
lemma notMem_of_transform_none {f : JsonValue φ → JsonValue φ} {isObject : Bool}
    {required : List Text} {key : Text} {value : JsonValue φ}
    (h : transformKeyword f isObject required key value = none) : key ∉ schemaKeys := by
  intro hkey
  simp only [schemaKeys, List.mem_cons, List.not_mem_nil, or_false] at hkey
  rcases hkey with rfl | rfl | rfl | rfl <;> cases value <;>
    simp [transformKeyword, isDropped, bannedKeywords] at h

/-! ### The parts of a property -/

lemma get?_mergeDicts {a b : Dict (JsonValue φ)} (h : b.keys.Nodup) (key : Text) :
    (mergeDicts a b).get? key = (b.get? key).or (a.get? key) := by
  induction b generalizing a with
  | nil => rfl
  | cons p b ih =>
    obtain ⟨k, v⟩ := p
    obtain ⟨hk, hb⟩ := List.nodup_cons.1 h
    have hstep : mergeDicts a ((k, v) :: b) = mergeDicts (a.insert k v) b := rfl
    rw [hstep, ih hb, Dict.get?_insert]
    by_cases hkey : key = k
    · subst hkey
      rw [Dict.get?_eq_none hk]
      simp [Dict.get?]
    · have hne : (key == k) = false := by simpa using hkey
      simp [Dict.get?, List.lookup_cons, hne, hkey]

lemma get?_metadata_none (node : Dict (JsonValue φ)) {key : Text} (h : key ∉ metaKeywords) :
    (splitProperty node).metadata.get? key = none := by
  refine Dict.get?_eq_none fun hmem => h ?_
  obtain ⟨p, hp, rfl⟩ := List.mem_map.1 hmem
  have hfilter := (List.mem_filter.1 hp).2
  simp only [Bool.and_eq_true, List.contains_iff_mem] at hfilter
  exact hfilter.2

lemma get?_value {node : Dict (JsonValue φ)} (h : node.keys.Nodup) (key : Text) :
    (splitProperty node).value.get? key = (node.get? key).bind (valueKeyword key) :=
  Dict.get?_filterMap h _ key

/-- What the value of a property has of its keywords. -/
lemma get?_value_of_mem {node : Dict (JsonValue φ)} (h : node.keys.Nodup) {key : Text}
    (hkey : key ∈ ["properties", "required", "additionalProperties", "items", "$defs",
      "definitions"].map Text.ofString) :
    (splitProperty node).value.get? key = node.get? key := by
  rw [get?_value h]
  simp only [List.map_cons, List.map_nil, List.mem_cons, List.not_mem_nil, or_false] at hkey
  cases node.get? key with
  | none => rfl
  | some v =>
    rcases hkey with rfl | rfl | rfl | rfl | rfl | rfl <;> cases v <;>
      simp [valueKeyword, isDropped, bannedKeywords, metaKeywords]

lemma get?_value_anyOf {node : Dict (JsonValue φ)} (h : NodeShape node) :
    (splitProperty node).value.get? "anyOf" = none := by
  rw [get?_value h.keys]
  cases hget : node.get? "anyOf" with
  | none => rfl
  | some v =>
    obtain ⟨branches, rfl⟩ := h.anyOf v hget
    simp [valueKeyword]

lemma propertiesOf_value {node : Dict (JsonValue φ)} (h : node.keys.Nodup) :
    propertiesOf (splitProperty node).value = propertiesOf node := by
  rw [propertiesOf, propertiesOf, get?_value_of_mem h (by decide)]

/-- The value of a property is a schema again. -/
lemma SchemaTree.value {node : Dict (JsonValue φ)} (h : SchemaTree (.obj node)) :
    SchemaTree (.obj (splitProperty node).value) := by
  obtain ⟨shape, properties, -, items, defs, definitions⟩ := h
  have hkeys := shape.keys
  have hget {key : Text} (hkey : key ∈ ["properties", "required", "additionalProperties", "items",
      "$defs", "definitions"].map Text.ofString) :
      (splitProperty node).value.get? key = node.get? key := get?_value_of_mem hkeys hkey
  have hany := get?_value_anyOf shape
  refine .node ⟨Dict.keys_filterMap_nodup hkeys _, ?_, ?_, ?_⟩ ?_ ?_ ?_ ?_ ?_
  · rw [hget (by decide)]
    exact shape.properties
  · rw [hany]
    rintro v ⟨⟩
  · rw [hget (by decide)]
    exact shape.required
  · rw [propertiesOf_value hkeys]
    exact properties
  · rw [unionOf, hany]
    simp
  · rw [hget (by decide)]
    exact items
  · rw [hget (by decide)]
    exact defs
  · rw [hget (by decide)]
    exact definitions

/-- What holds of a schema and of the schemas under it. -/
structure Hereditary (D : JsonValue φ → Prop) : Prop where
  tree : ∀ schema, D schema → SchemaTree schema
  properties : ∀ node : Dict (JsonValue φ), D (.obj node) → ∀ p ∈ propertiesOf node, D p.2
  branches : ∀ node : Dict (JsonValue φ), D (.obj node) → ∀ b ∈ unionOf node, D b
  items : ∀ node : Dict (JsonValue φ), D (.obj node) →
    ∀ items, node.get? "items" = some (.obj items) → D (.obj items)
  defs : ∀ node : Dict (JsonValue φ), D (.obj node) →
    ∀ defkey : Text, defkey = "$defs" ∨ defkey = "definitions" →
      ∀ defs, node.get? defkey = some (.obj defs) → ∀ p ∈ defs, D p.2
  value : ∀ node : Dict (JsonValue φ), D (.obj node) → D (.obj (splitProperty node).value)

lemma schemaTree_hereditary : Hereditary (SchemaTree (φ := φ)) where
  tree _ h := h
  properties node h := by
    cases h with
    | node _ properties => exact properties
  branches node h := by
    cases h with
    | node _ _ branches => exact branches
  items node h := by
    cases h with
    | node _ _ _ items => exact items
  defs node h defkey hkey := by
    cases h with
    | node _ _ _ _ defs definitions =>
      obtain rfl | rfl := hkey
      · exact defs
      · exact definitions
  value _ h := h.value

end RentCompass.Tools
