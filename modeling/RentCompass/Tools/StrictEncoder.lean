import RentCompass.Tools.AuthoredSchema

/-!
# What the strict encoder makes of each form

For each form of node of an authored schema: what its strict schema accepts.
-/

namespace RentCompass.Tools

variable {φ : Type}

/-! ### The keywords of a strict node -/

lemma HasKeys.filterMap {node : Dict (JsonValue φ)} {allowed : List Text} (h : HasKeys node allowed)
    (f : Text → JsonValue φ → Option (JsonValue φ)) :
    HasKeys (node.filterMap fun p => (f p.1 p.2).map (p.1, ·)) allowed where
  nodup := h.nodup.sublist (Dict.keys_filterMap_sublist node f)
  only key hkey := h.only key ((Dict.keys_filterMap_sublist node f).subset hkey)

lemma HasKeys.strict {node : Dict (JsonValue φ)} {allowed : List Text} (h : HasKeys node allowed) :
    HasKeys (strictFields node) allowed := h.filterMap _

lemma HasKeys.get?_strict {node : Dict (JsonValue φ)} {allowed : List Text}
    (h : HasKeys node allowed) (key : Text) :
    (strictFields node).get? key = (node.get? key).bind
      (transformKeyword (transformNode · false) (isObjectNode node) (requiredNames node) key) :=
  Dict.get?_filterMap h.nodup _ key

lemma HasKeys.value {node : Dict (JsonValue φ)} {allowed : List Text} (h : HasKeys node allowed) :
    HasKeys (splitProperty node).value allowed := h.filterMap _

lemma HasKeys.get?_value {node : Dict (JsonValue φ)} {allowed : List Text}
    (h : HasKeys node allowed) (key : Text) :
    (splitProperty node).value.get? key = (node.get? key).bind (valueKeyword key) :=
  Dict.get?_filterMap h.nodup _ key

/-- Dicts with the same keywords that count. -/
lemma sameCheck_of_get? {s t : Dict (JsonValue φ)} {allowed : List Text} (hs : HasKeys s allowed)
    (ht : HasKeys t allowed) (hlook : ∀ key ∈ lookedUp, s.get? key = t.get? key)
    (hassert : ∀ key bound, asserts key bound →
      (s.get? key = some bound ↔ t.get? key = some bound)) : SameCheck s t where
  lookup := hlook
  assertion key bound hp := by
    rw [Dict.mem_iff_get? hs.nodup, Dict.mem_iff_get? ht.nodup]
    exact hassert key bound hp

lemma isDropped_of_lookedUp {key : Text} (h : key ∈ lookedUp) (v : JsonValue φ) :
    isDropped key v = false := by
  have hkey : ∀ key ∈ lookedUp, key ∉ bannedKeywords ∧ key ≠ "format" := by decide
  simp [isDropped, (hkey key h).1, (hkey key h).2]

/-- Keywords under which there are schemas. -/
def nestingKeys : List Text := ["properties", "items", "$defs", "definitions", "anyOf"]

lemma transformKeyword_same {f : JsonValue φ → JsonValue φ} {key : Text} {v : JsonValue φ}
    (hdrop : isDropped key v = false) (hkey : key ∉ nestingKeys) (required : List Text) :
    transformKeyword f false required key v = some v := by
  simp only [nestingKeys, List.mem_cons, List.not_mem_nil, or_false, not_or] at hkey
  cases v <;> simp [transformKeyword, hdrop, hkey]

lemma isObjectNode_false {node : Dict (JsonValue φ)} (htype : typeIs node "object" = false)
    (hprops : node.get? "properties" = none) : isObjectNode node = false := by
  simp [isObjectNode, htype, hprops]

/-- A node without nested schemas is kept, but for what is dropped. -/
lemma sameCheck_strict {node : Dict (JsonValue φ)} {allowed : List Text} (h : HasKeys node allowed)
    (hobject : isObjectNode node = false) (hnest : ∀ key ∈ nestingKeys, key ∉ allowed ++ noteKeys) :
    SameCheck node (strictFields node) := by
  have hsame (key : Text) (hkey : key ∉ nestingKeys) (v : JsonValue φ)
      (hdrop : isDropped key v = false) : node.get? key = some v →
      (strictFields node).get? key = some v := by
    intro hget
    rw [h.get?_strict, hget, Option.bind_some, hobject, transformKeyword_same hdrop hkey]
  refine sameCheck_of_get? h h.strict ?_ ?_
  · intro key hkey
    by_cases hin : key ∈ nestingKeys
    · rw [h.get?_none key (hnest key hin), h.strict.get?_none key (hnest key hin)]
    · cases hget : node.get? key with
      | none => rw [h.get?_strict, hget, Option.bind_none]
      | some v => exact (hsame key hin v (isDropped_of_lookedUp hkey v) hget).symm
  · intro key bound hp
    have hp' := hp
    simp only [asserts, Bool.and_eq_true, Bool.not_eq_true', List.contains_eq_mem,
      decide_eq_true_eq] at hp'
    have hin : key ∉ nestingKeys := by
      have hall : ∀ key ∈ assertionKeywords, key ∉ nestingKeys := by decide
      exact hall key hp'.1
    constructor
    · exact hsame key hin bound hp'.2
    · intro hget
      rw [h.get?_strict, hobject] at hget
      cases hv : node.get? key with
      | none =>
        rw [hv] at hget
        cases hget
      | some v =>
        rw [hv, Option.bind_some] at hget
        by_cases hdrop : isDropped key v
        · simp [transformKeyword, hdrop] at hget
        · rw [transformKeyword_same (by simpa using hdrop) hin] at hget
          exact hget

/-- The keywords a property keeps say the same, unless they list types or branches. -/
lemma sameCheck_value {node : Dict (JsonValue φ)} {allowed : List Text} (h : HasKeys node allowed)
    (htype : ∀ types, node.get? "type" ≠ some (.arr types)) (hany : node.get? "anyOf" = none) :
    SameCheck node (splitProperty node).value := by
  have hsame (key : Text) (v : JsonValue φ) (hmeta : key ∉ metaKeywords)
      (hdrop : isDropped key v = false) (hget : node.get? key = some v) :
      valueKeyword key v = some v := by
    have hneAny : key ≠ "anyOf" := by
      rintro rfl
      rw [hany] at hget
      cases hget
    have hneType : ∀ types, v = .arr types → key ≠ "type" := by
      rintro types rfl rfl
      exact htype types hget
    cases v with
    | arr types => simp [valueKeyword, hdrop, hmeta, hneAny, hneType types rfl]
    | _ => simp [valueKeyword, hdrop, hmeta]
  refine sameCheck_of_get? h h.value ?_ ?_
  · intro key hkey
    have hmeta : key ∉ metaKeywords := by
      have hall : ∀ key ∈ lookedUp, key ∉ metaKeywords := by decide
      exact hall key hkey
    rw [h.get?_value]
    cases hget : node.get? key with
    | none => rfl
    | some v => exact (hsame key v hmeta (isDropped_of_lookedUp hkey v) hget).symm
  · intro key bound hp
    simp only [asserts, Bool.and_eq_true, Bool.not_eq_true', List.contains_eq_mem,
      decide_eq_true_eq] at hp
    have hmeta : key ∉ metaKeywords := by
      have hall : ∀ key ∈ assertionKeywords, key ∉ metaKeywords := by decide
      exact hall key hp.1
    rw [h.get?_value]
    cases hget : node.get? key with
    | none => exact Iff.rfl
    | some v =>
      rw [Option.bind_some]
      by_cases hdrop : isDropped key v
      · constructor
        · intro hv
          cases hv
          rw [hp.2] at hdrop
          cases hdrop
        · intro hv
          simp [valueKeyword, hdrop] at hv
      · rw [hsame key v hmeta (by simpa using hdrop) hget]

/-! ### What each form becomes -/

variable [FloatFormat φ]

/-- A schema as the encoder leaves it below the root. -/
def strictNode (schema : JsonValue φ) : JsonValue φ := transformNode schema false

omit [FloatFormat φ] in
lemma ScalarNode.isObjectNode {node : Dict (JsonValue φ)} {type : Text}
    (h : ScalarNode node type) : isObjectNode node = false := by
  refine isObjectNode_false ?_ (h.keys.get?_none _ (by decide))
  have hscalar := h.scalar
  simp only [List.map_cons, List.map_nil, List.mem_cons, List.not_mem_nil, or_false] at hscalar
  rcases hscalar with rfl | rfl | rfl | rfl <;> simp [typeIs, h.typed]

omit [FloatFormat φ] in
lemma EnumNode.isObjectNode {node : Dict (JsonValue φ)} {values : List (JsonValue φ)}
    (h : EnumNode node values) : isObjectNode node = false :=
  isObjectNode_false (by simp [typeIs, h.keys.get?_none "type" (by decide)])
    (h.keys.get?_none _ (by decide))

omit [FloatFormat φ] in
lemma ArrayNode.isObjectNode {node items : Dict (JsonValue φ)} (h : ArrayNode node items) :
    isObjectNode node = false :=
  isObjectNode_false (by simp [typeIs, h.typed]) (h.keys.get?_none _ (by decide))

omit [FloatFormat φ] in
lemma NullableNode.isObjectNode {node inner : Dict (JsonValue φ)} (h : NullableNode node inner) :
    isObjectNode node = false :=
  isObjectNode_false (by simp [typeIs, h.keys.get?_none "type" (by decide)])
    (h.keys.get?_none _ (by decide))

omit [FloatFormat φ] in
lemma strictNode_of_not_object {node : Dict (JsonValue φ)} (h : isObjectNode node = false) :
    strictNode (.obj node) = .obj (strictFields node) := by
  rw [strictNode, transformNode_obj, h]
  rfl

lemma strict_scalar {node : Dict (JsonValue φ)} {type : Text} (h : ScalarNode node type)
    (kw : Keywords φ) (w : JsonValue φ) :
    accepts kw (strictNode (.obj node)) w = accepts kw (.obj node) w := by
  rw [strictNode_of_not_object h.isObjectNode]
  exact ((sameCheck_strict h.keys h.isObjectNode (by decide)).accepts kw w).symm

lemma strict_enum {node : Dict (JsonValue φ)} {values : List (JsonValue φ)}
    (h : EnumNode node values) (kw : Keywords φ) (w : JsonValue φ) :
    accepts kw (strictNode (.obj node)) w = accepts kw (.obj node) w := by
  rw [strictNode_of_not_object h.isObjectNode]
  exact ((sameCheck_strict h.keys h.isObjectNode (by decide)).accepts kw w).symm

omit [FloatFormat φ] in
/-- Every dict stays a dict. -/
lemma strictNode_obj (node : Dict (JsonValue φ)) :
    ∃ fields, strictNode (.obj node) = .obj fields := by
  rw [strictNode, transformNode_obj]
  split_ifs
  · exact ⟨_, rfl⟩
  · exact ⟨_, rfl⟩
  · exact ⟨_, rfl⟩

omit [FloatFormat φ] in
lemma stringByDefault_obj (node : Dict (JsonValue φ)) :
    ∃ fields, stringByDefault (.obj node) = .obj fields := by
  simp only [stringByDefault]
  split_ifs
  · exact ⟨_, rfl⟩
  · exact ⟨_, rfl⟩

lemma strict_array {node items : Dict (JsonValue φ)} (h : ArrayNode node items) (kw : Keywords φ)
    (w : JsonValue φ) : accepts kw (strictNode (.obj node)) w ↔
      ∃ ws, w = .arr ws ∧ ∀ x ∈ ws, accepts kw (stringByDefault (strictNode (.obj items))) x := by
  have hnone (key : Text) (hkey : key ∉ [Text.ofString "type", "items"] ++ noteKeys) :
      (strictFields node).get? key = none := h.keys.strict.get?_none key hkey
  have hplain : Plain (strictFields node) "array" := {
    typed := by
      rw [h.keys.get?_strict, h.typed, h.isObjectNode]
      rfl
    const := hnone _ (by decide)
    enum := hnone _ (by decide)
    anyOf := hnone _ (by decide)
    oneOf := hnone _ (by decide)
    silent := asserts_notMem h.keys.strict (by decide) }
  have hitems : (strictFields node).get? "items" =
      some (stringByDefault (strictNode (.obj items))) := by
    rw [h.keys.get?_strict, h.items, h.isObjectNode]
    rfl
  obtain ⟨fields, hfields⟩ := strictNode_obj items
  obtain ⟨fields', hfields'⟩ := stringByDefault_obj fields
  rw [hfields, hfields'] at hitems ⊢
  rw [strictNode_of_not_object h.isObjectNode]
  exact accepts_array hplain hitems kw w

/-- The properties of an object, transformed. -/
def strictProps (props : Dict (JsonValue φ)) (required : List Text) : Dict (JsonValue φ) :=
  props.map fun p => (p.1, transformProperty strictNode p.1 required p.2)

omit [FloatFormat φ] in
@[simp] lemma keys_strictProps (props : Dict (JsonValue φ)) (required : List Text) :
    (strictProps props required).keys = props.keys := by
  simp [strictProps, Dict.keys, Function.comp_def]

omit [FloatFormat φ] in
lemma ObjectNode.isObjectNode {node props : Dict (JsonValue φ)} {required : List Text}
    (h : ObjectNode node props required) : isObjectNode node = true := by
  simp [Tools.isObjectNode, typeIs, h.typed]

omit [FloatFormat φ] in
lemma ObjectNode.propertiesOf_strict {node props : Dict (JsonValue φ)} {required : List Text}
    (h : ObjectNode node props required) :
    propertiesOf (strictFields node) = strictProps props required := by
  have hprops : (strictFields node).get? "properties" =
      some (.obj (strictProps props required)) := by
    rw [h.keys.get?_strict, h.properties, h.requires, h.isObjectNode]
    rfl
  rw [propertiesOf, hprops]

omit [FloatFormat φ] in
lemma ObjectNode.transformNode {node props : Dict (JsonValue φ)} {required : List Text}
    (h : ObjectNode node props required) {root : Bool} (hne : root = true ∨ props ≠ []) :
    transformNode (.obj node) root = .obj ((Dict.insert (strictFields node) "required"
      (.arr (props.keys.map .str))).insert "additionalProperties" (.bool false)) := by
  have hprops := h.propertiesOf_strict
  have hroot : ((propertiesOf (strictFields node)).isEmpty && !root) = false := by
    rcases hne with hroot | hne
    · simp [hroot]
    · cases props with
      | nil => exact absurd rfl hne
      | cons p props => simp [hprops, strictProps]
  rw [transformNode_obj, h.isObjectNode, if_pos rfl, hroot, if_neg Bool.false_ne_true, hprops,
    keys_strictProps]

/-- What a transformed object accepts: all its properties and no others. -/
lemma strict_object {node props : Dict (JsonValue φ)} {required : List Text}
    (h : ObjectNode node props required) {root : Bool} (hne : root = true ∨ props ≠ [])
    (kw : Keywords φ) (w : JsonValue φ) : accepts kw (transformNode (.obj node) root) w ↔
      ∃ d, w = .obj d ∧ FieldsMeet kw (strictProps props required) props.keys True d := by
  rw [h.transformNode hne]
  set s := Dict.insert (Dict.insert (strictFields node) "required"
    (.arr (props.keys.map .str))) "additionalProperties" (.bool false) with hs
  have hget (key : Text) : s.get? key = if key = "additionalProperties" then some (.bool false)
      else if key = "required" then some (.arr (props.keys.map .str))
      else (strictFields node).get? key := by
    rw [hs, Dict.get?_insert, Dict.get?_insert]
  have hnone (key : Text) (hkey : key ∉ [Text.ofString "type", "properties", "required",
      "additionalProperties"] ++ noteKeys) : s.get? key = none := by
    have hreq : key ≠ "required" := by
      rintro rfl
      exact hkey (by decide)
    have hadd : key ≠ "additionalProperties" := by
      rintro rfl
      exact hkey (by decide)
    rw [hget, if_neg hadd, if_neg hreq, h.keys.strict.get?_none key hkey]
  have hplain : Plain s "object" := {
    typed := by
      rw [hget, if_neg (by simp), if_neg (by simp), h.keys.get?_strict, h.typed]
      simp [transformKeyword, isDropped, bannedKeywords]
    const := hnone _ (by decide)
    enum := hnone _ (by decide)
    anyOf := hnone _ (by decide)
    oneOf := hnone _ (by decide)
    silent := by
      intro key bound hp hmem
      have hin : key ∈ assertionKeywords := by
        simp only [asserts, Bool.and_eq_true] at hp
        simpa using hp.1
      have hne : ∀ key ∈ assertionKeywords, key ≠ "required" ∧ key ≠ "additionalProperties" := by
        decide
      rw [hs, Dict.mem_insert_of_ne (hne key hin).2, Dict.mem_insert_of_ne (hne key hin).1] at hmem
      exact asserts_notMem h.keys.strict (by decide) key bound hp hmem }
  have hpropsOf : propertiesOf s = strictProps props required := by
    rw [← h.propertiesOf_strict, propertiesOf, propertiesOf, hget, if_neg (by simp),
      if_neg (by simp)]
  have hadd : s.get? "additionalProperties" = some (.bool false) := by
    rw [hget, if_pos rfl]
  have hrequired : requiredNames s = props.keys := by
    have hreq : s.get? "required" = some (.arr (props.keys.map .str)) := by
      rw [hget, if_neg (by simp), if_pos rfl]
    rw [requiredNames, hreq]
    simp [List.filterMap_map]
  rw [accepts_obj hplain]
  simp only [checkFields_iff kw hpropsOf (.inr ⟨false, hadd⟩), hrequired, hadd]

omit [FloatFormat φ] in
lemma FreeFormNode.strictNode {node : Dict (JsonValue φ)} (h : FreeFormNode node) :
    strictNode (.obj node) = freeFormString (strictFields node) := by
  have hobject : isObjectNode node = true := by simp [isObjectNode, typeIs, h.typed]
  have hprops : propertiesOf (strictFields node) = [] := by
    rw [propertiesOf, h.keys.get?_strict, hobject]
    rcases h.properties with hp | hp
    · rw [hp]
      rfl
    · rw [hp]
      rfl
  rw [Tools.strictNode, transformNode_obj, hobject, if_pos rfl, hprops, if_pos (by rfl)]

lemma strict_freeForm {node : Dict (JsonValue φ)} (h : FreeFormNode node) (kw : Keywords φ)
    (w : JsonValue φ) : accepts kw (strictNode (.obj node)) w ↔ ∃ t, w = .str t := by
  rw [h.strictNode]
  refine accepts_string (s := _) ⟨rfl, rfl, rfl, rfl, rfl, ?_⟩ kw w
  intro key bound hp hmem
  simp only [List.mem_cons, Prod.mk.injEq, List.not_mem_nil, or_false] at hmem
  rcases hmem with ⟨rfl, -⟩ | ⟨rfl, -⟩
  · exact absurd hp (by simp [asserts, assertionKeywords])
  · exact absurd hp (by simp [asserts, assertionKeywords])

/-! ### Types of untyped enums -/

/-- A type added to a dict without one is one more thing to check. -/
lemma accepts_insert_type {s : Dict (JsonValue φ)} (hany : s.get? "anyOf" = none)
    (hone : s.get? "oneOf" = none) (htype : s.get? "type" = none) (t : JsonValue φ)
    (kw : Keywords φ) (w : JsonValue φ) : accepts kw (.obj (s.insert "type" t)) w ↔
      accepts kw (.obj s) w ∧ checkType (s.insert "type" t) w := by
  have hget (key : Text) (hkey : key ≠ "type") : (s.insert "type" t).get? key = s.get? key := by
    rw [Dict.get?_insert, if_neg hkey]
  have hassert (w : JsonValue φ) : checkAssertions kw.lenient (s.insert "type" t) w =
      checkAssertions kw.lenient s w := by
    rw [Bool.eq_iff_iff, checkAssertions_lenient, checkAssertions_lenient]
    refine forall₃_congr fun key bound hp => ?_
    have hne : key ≠ "type" := by
      rintro rfl
      exact absurd hp (by simp [asserts, assertionKeywords])
    rw [Dict.mem_insert_of_ne hne]
  have hcontent : checkContent kw.lenient (validateSchemaValue kw.lenient) (s.insert "type" t) w =
      checkContent kw.lenient (validateSchemaValue kw.lenient) s w := by
    cases w <;> simp only [checkContent, checkItems, checkFields, requiredNames, propertiesOf,
      hassert, hget "items" (by simp), hget "additionalProperties" (by simp),
      hget "required" (by simp), hget "properties" (by simp)]
  have hold : checkType s w = true := by simp [checkType, htype]
  simp only [accepts, validate_obj, checkNode, checkConst, checkEnum, alternatives, hcontent,
    hget "const" (by simp), hget "enum" (by simp), hget "anyOf" (by simp),
    hget "oneOf" (by simp), hany, hone, hold, Bool.and_eq_true]
  tauto

omit [FloatFormat φ] in
/-- The types of strings and booleans, and that each of them is among them. -/
lemma memberTypes_some {values : List (JsonValue φ)}
    (h : ∀ v ∈ values, (∃ s, v = .str s) ∨ ∃ b, v = .bool b) :
    ∃ types, memberTypes values = some types ∧
      (∀ v ∈ values, ∃ t ∈ types, schemaTypeMatches t v) ∧
      ∀ t ∈ types, t = Text.ofString "string" ∨ t = Text.ofString "boolean" := by
  induction values with
  | nil => exact ⟨[], rfl, by simp, by simp⟩
  | cons v values ih =>
    obtain ⟨types, htypes, hmatch, hnames⟩ := ih fun w hw => h w (List.mem_cons_of_mem _ hw)
    obtain ⟨t, ht, hname, hv⟩ : ∃ t, scalarType v = some t ∧
        (t = Text.ofString "string" ∨ t = Text.ofString "boolean") ∧ schemaTypeMatches t v := by
      rcases h v List.mem_cons_self with ⟨s, rfl⟩ | ⟨b, rfl⟩
      · exact ⟨_, rfl, .inl rfl, by simp [schemaTypeMatches]⟩
      · exact ⟨_, rfl, .inr rfl, by simp [schemaTypeMatches]⟩
    refine ⟨t :: types.filter (· ≠ t), by simp [memberTypes, ht, htypes], ?_, ?_⟩
    · intro w hw
      rcases List.mem_cons.1 hw with rfl | hw
      · exact ⟨t, List.mem_cons_self, hv⟩
      · obtain ⟨u, hu, hm⟩ := hmatch w hw
        by_cases hut : u = t
        · exact ⟨t, List.mem_cons_self, hut ▸ hm⟩
        · exact ⟨u, List.mem_cons_of_mem _ (by simpa [hu] using hut), hm⟩
    · intro u hu
      rcases List.mem_cons.1 hu with rfl | hu
      · exact hname
      · exact hnames u (List.mem_filter.1 hu).1

omit [FloatFormat φ] in
/-- The type inferred for an enum of strings and booleans is that of its members. -/
lemma enumMemberType_some {values : List (JsonValue φ)} (hne : values ≠ [])
    (h : ∀ v ∈ values, (∃ s, v = .str s) ∨ ∃ b, v = .bool b) :
    ∃ type, enumMemberType (.arr values) = some type ∧ ∀ (s : Dict (JsonValue φ)),
      ∀ v ∈ values, checkType (s.insert "type" type) v := by
  obtain ⟨types, htypes, hmatch, hnames⟩ := memberTypes_some h
  obtain ⟨v, vs, rfl⟩ := List.exists_cons_of_ne_nil hne
  have hget (s : Dict (JsonValue φ)) (type : JsonValue φ) :
      (s.insert "type" type).get? "type" = some type := by
    rw [Dict.get?_insert, if_pos rfl]
  have hnumber (types : List Text) (hnames : ∀ t ∈ types, t = Text.ofString "string" ∨
      t = Text.ofString "boolean") (hnil : types ≠ []) :
      types.all (fun t => t = Text.ofString "integer" || t = Text.ofString "number") = false := by
    obtain ⟨t, ts, rfl⟩ := List.exists_cons_of_ne_nil hnil
    rcases hnames t List.mem_cons_self with rfl | rfl <;> simp
  match types, htypes, hmatch, hnames with
  | [], htypes, hmatch, _ =>
    obtain ⟨t, ht, -⟩ := hmatch v List.mem_cons_self
    cases ht
  | [t], htypes, hmatch, _ =>
    refine ⟨.str t, by simp [enumMemberType, htypes], fun s w hw => ?_⟩
    obtain ⟨u, hu, hm⟩ := hmatch w hw
    obtain rfl := List.mem_singleton.1 hu
    simpa [checkType, hget] using hm
  | t :: u :: ts, htypes, hmatch, hnames =>
    refine ⟨.arr ((t :: u :: ts).map .str), ?_, fun s w hw => ?_⟩
    · have hnot := hnumber (t :: u :: ts) hnames (by simp)
      simp only [enumMemberType, htypes, Option.map_some]
      rw [if_neg (by rw [hnot]; exact Bool.false_ne_true)]
    · obtain ⟨r, hr, hm⟩ := hmatch w hw
      simp only [checkType, hget, List.any_map, List.any_eq_true]
      exact ⟨r, hr, hm⟩

/-! ### Items, branches and properties -/

omit [FloatFormat φ] in
lemma hasBranchSelector_of_type {s : Dict (JsonValue φ)} {t : JsonValue φ}
    (h : s.get? "type" = some t) : hasBranchSelector s = true := by
  have hmem := Dict.mem_keys_of_get? h
  simp [hasBranchSelector, branchSelectorKeywords, hmem]

omit [FloatFormat φ] in
lemma EnumNode.strict_noSelector {node : Dict (JsonValue φ)} {values : List (JsonValue φ)}
    (h : EnumNode node values) : hasBranchSelector (strictFields node) = false := by
  have hkey (key : Text) (hkey : key ∉ [Text.ofString "enum"] ++ noteKeys) :
      key ∉ (strictFields node).keys := fun hmem =>
    hkey (List.mem_append.2 (h.keys.strict.only key hmem))
  have htype := hkey "type" (by decide)
  have hany := hkey "anyOf" (by decide)
  have href := hkey "$ref" (by decide)
  simp [hasBranchSelector, branchSelectorKeywords, htype, hany, href]

omit [FloatFormat φ] in
lemma EnumNode.strict_listed {node : Dict (JsonValue φ)} {values : List (JsonValue φ)}
    (h : EnumNode node values) : (strictFields node).get? "enum" = some (.arr values) := by
  rw [h.keys.get?_strict, h.listed, h.isObjectNode]
  rfl

omit [FloatFormat φ] in
/-- A schema that is no union with null keeps, or is given, a type; an untyped enum is given none. -/
lemma Authored.strict_type {inArray : Bool} {node : Dict (JsonValue φ)}
    (h : Authored inArray (.obj node)) (hnull : isNullable (.obj node) = false) :
    (∃ values, EnumNode node values) ∨
      ∃ s t, strictNode (.obj node) = .obj s ∧ Dict.get? s "type" = some t := by
  cases h with
  | @scalar _ _ type hnode =>
    refine .inr ⟨_, .str type, strictNode_of_not_object hnode.isObjectNode, ?_⟩
    rw [hnode.keys.get?_strict, hnode.typed, hnode.isObjectNode]
    rfl
  | enum _ hnode => exact .inl ⟨_, hnode⟩
  | array _ hnode =>
    refine .inr ⟨_, .str "array", strictNode_of_not_object hnode.isObjectNode, ?_⟩
    rw [hnode.keys.get?_strict, hnode.typed, hnode.isObjectNode]
    rfl
  | object _ hnode hne =>
    refine .inr ⟨_, .str "object", hnode.transformNode (.inr hne), ?_⟩
    rw [Dict.get?_insert, if_neg (by simp), Dict.get?_insert, if_neg (by simp),
      hnode.keys.get?_strict, hnode.typed, hnode.isObjectNode]
    rfl
  | freeForm _ hnode => exact .inr ⟨_, .str "string", hnode.strictNode, rfl⟩
  | nullable _ hnode =>
    rw [hnode.nullable] at hnull
    cases hnull

/-- An untyped enum with the type of its members accepts the same. -/
lemma EnumNode.accepts_typed {node : Dict (JsonValue φ)} {values : List (JsonValue φ)}
    (h : EnumNode node values) {t : JsonValue φ}
    (ht : ∀ v ∈ values, checkType ((strictFields node).insert "type" t) v) (kw : Keywords φ)
    (w : JsonValue φ) : accepts kw (.obj ((strictFields node).insert "type" t)) w ↔
      accepts kw (strictNode (.obj node)) w := by
  rw [accepts_insert_type (h.keys.strict.get?_none _ (by decide))
    (h.keys.strict.get?_none _ (by decide)) (h.keys.strict.get?_none _ (by decide)),
    strictNode_of_not_object h.isObjectNode]
  refine and_iff_left_of_imp fun hw => ht w ?_
  rw [← strictNode_of_not_object h.isObjectNode, strict_enum h] at hw
  exact h.mem hw

/-- A transformed branch of a union is kept, and accepts what it did. -/
lemma Authored.normalize {inArray : Bool} {node : Dict (JsonValue φ)}
    (h : Authored inArray (.obj node)) (hnull : isNullable (.obj node) = false) (kw : Keywords φ) :
    ∃ b, normalizeAnyofBranch (strictNode (.obj node)) = some b ∧
      ∀ w, accepts kw b w ↔ accepts kw (strictNode (.obj node)) w := by
  rcases h.strict_type hnull with ⟨values, hnode⟩ | ⟨s, t, hs, ht⟩
  · obtain ⟨t, ht, hcheck⟩ := enumMemberType_some hnode.nonempty hnode.members
    refine ⟨.obj ((strictFields node).insert "type" t), ?_, fun w =>
      hnode.accepts_typed (hcheck _) kw w⟩
    rw [strictNode_of_not_object hnode.isObjectNode, normalizeAnyofBranch,
      if_neg (by simp [hnode.strict_noSelector]), hnode.strict_listed, Option.bind_some, ht]
    rfl
  · refine ⟨.obj s, ?_, fun w => by rw [hs]⟩
    rw [hs, normalizeAnyofBranch, if_pos (hasBranchSelector_of_type ht)]

/-- The items of a list are given a type where they have none, and accept what they did. -/
lemma strict_items {node : Dict (JsonValue φ)} (h : Authored true (.obj node))
    (henum : ∀ values, node.get? "type" = none → node.get? "enum" = some (.arr values) →
      ∀ v ∈ values, ∃ s, v = .str s) (kw : Keywords φ) (w : JsonValue φ) :
    accepts kw (stringByDefault (strictNode (.obj node))) w ↔
      accepts kw (strictNode (.obj node)) w := by
  by_cases hnull : isNullable (.obj node)
  · obtain ⟨inner, hnode, -, -⟩ := h.of_nullable hnull
    have hselect : hasBranchSelector (strictFields node) = true := by
      have hany : ∃ t, (strictFields node).get? "anyOf" = some t := by
        rcases hnode.union with hu | hu
        all_goals
          rw [hnode.keys.get?_strict, hu, hnode.isObjectNode]
          exact ⟨_, rfl⟩
      obtain ⟨t, ht⟩ := hany
      have hmem := Dict.mem_keys_of_get? ht
      simp [hasBranchSelector, branchSelectorKeywords, hmem]
    rw [strictNode_of_not_object hnode.isObjectNode, stringByDefault, if_pos hselect]
  · rcases h.strict_type (by simpa using hnull) with ⟨values, hnode⟩ | ⟨s, t, hs, ht⟩
    · have hstrings := henum values (hnode.keys.get?_none _ (by decide)) hnode.listed
      rw [strictNode_of_not_object hnode.isObjectNode, stringByDefault,
        if_neg (by simp [hnode.strict_noSelector]), ← strictNode_of_not_object hnode.isObjectNode]
      refine hnode.accepts_typed (fun v hv => ?_) kw w
      obtain ⟨s, rfl⟩ := hstrings v hv
      simp [checkType, Dict.get?_insert, schemaTypeMatches]
    · rw [hs, stringByDefault, if_pos (hasBranchSelector_of_type ht)]

omit [FloatFormat φ] in
lemma strictNode_nullBranch : strictNode (nullBranch : JsonValue φ) = nullBranch := by
  rw [strictNode, nullBranch, transformNode_obj]
  rfl

/-- A union with null stays one. -/
lemma strict_nullable {inArray : Bool} {node inner : Dict (JsonValue φ)}
    (h : NullableNode node inner) (hnull : isNullable (.obj inner) = false)
    (hinner : Authored inArray (.obj inner)) (kw : Keywords φ) (w : JsonValue φ) :
    accepts kw (strictNode (.obj node)) w ↔
      w = .null ∨ accepts kw (strictNode (.obj inner)) w := by
  obtain ⟨b, hb, hacc⟩ := hinner.normalize hnull kw
  have hnb : normalizeAnyofBranch (nullBranch : JsonValue φ) = some nullBranch := rfl
  have hnone (key : Text) (hkey : key ∉ [Text.ofString "anyOf"] ++ noteKeys) :
      (strictFields node).get? key = none := h.keys.strict.get?_none key hkey
  have hunion {branches : List (JsonValue φ)}
      (hany : (strictFields node).get? "anyOf" = some (.arr branches)) (hne : branches ≠ []) :=
    accepts_union (hnone _ (by decide)) (hnone _ (by decide)) (hnone _ (by decide)) hany hne kw w
  rw [strictNode_of_not_object h.isObjectNode]
  rcases h.union with hu | hu
  · have hany : (strictFields node).get? "anyOf" = some (.arr [b, nullBranch]) := by
      rw [h.keys.get?_strict, hu, h.isObjectNode, Option.bind_some]
      simp only [transformKeyword, isDropped, bannedKeywords]
      simp [cleanAnyof, ← strictNode.eq_def, strictNode_nullBranch, hb, hnb]
    rw [hunion hany (by simp)]
    simp [accepts_nullBranch, hacc, or_comm]
  · have hany : (strictFields node).get? "anyOf" = some (.arr [nullBranch, b]) := by
      rw [h.keys.get?_strict, hu, h.isObjectNode, Option.bind_some]
      simp only [transformKeyword, isDropped, bannedKeywords]
      simp [cleanAnyof, ← strictNode.eq_def, strictNode_nullBranch, hb, hnb]
    rw [hunion hany (by simp)]
    simp [accepts_nullBranch, hacc]

/-! ### The value keywords of a property -/

omit [FloatFormat φ] in
/-- A schema that is no union with null has one type, or none. -/
lemma Authored.single {inArray : Bool} {node : Dict (JsonValue φ)}
    (h : Authored inArray (.obj node)) (hnull : isNullable (.obj node) = false) :
    (∃ allowed, HasKeys node allowed) ∧ (∀ types, node.get? "type" ≠ some (.arr types)) ∧
      node.get? "anyOf" = none ∧ typeIs node "null" = false := by
  have hany : node.get? "anyOf" = none := by simpa [isNullable] using hnull
  cases h with
  | scalar _ hnode =>
    refine ⟨⟨_, hnode.keys⟩, by simp [hnode.typed], hany, ?_⟩
    have hscalar := hnode.scalar
    simp only [List.map_cons, List.map_nil, List.mem_cons, List.not_mem_nil, or_false] at hscalar
    rcases hscalar with rfl | rfl | rfl | rfl <;> simp [typeIs, hnode.typed]
  | enum _ hnode =>
    have htype := hnode.keys.get?_none "type" (by decide)
    exact ⟨⟨_, hnode.keys⟩, by simp [htype], hany, by simp [typeIs, htype]⟩
  | array _ hnode =>
    exact ⟨⟨_, hnode.keys⟩, by simp [hnode.typed], hany, by simp [typeIs, hnode.typed]⟩
  | object _ hnode =>
    exact ⟨⟨_, hnode.keys⟩, by simp [hnode.typed], hany, by simp [typeIs, hnode.typed]⟩
  | freeForm _ hnode =>
    exact ⟨⟨_, hnode.keys⟩, by simp [hnode.typed], hany, by simp [typeIs, hnode.typed]⟩
  | nullable _ hnode =>
    rw [hnode.nullable] at hnull
    cases hnull

/-- The value keywords of a property are a schema of the same form, and become the same. -/
lemma Authored.value {inArray : Bool} {node : Dict (JsonValue φ)}
    (h : Authored inArray (.obj node)) (hnull : isNullable (.obj node) = false) (kw : Keywords φ) :
    Authored inArray (.obj (splitProperty node).value) ∧
      isNullable (.obj (splitProperty node).value) = false ∧
      ∀ w, accepts kw (strictNode (.obj (splitProperty node).value)) w ↔
        accepts kw (strictNode (.obj node)) w := by
  obtain ⟨⟨allowed, hkeys⟩, htype, hany, -⟩ := h.single hnull
  have hsame := sameCheck_value hkeys htype hany
  have look (key : Text) (hkey : key ∈ lookedUp) := hsame.lookup key hkey
  have hnull' : isNullable (.obj (splitProperty node).value) = false := by
    rw [isNullable, ← look _ (by decide), hany]
    rfl
  have hreq : requiredNames (splitProperty node).value = requiredNames node := by
    rw [requiredNames, requiredNames, look _ (by decide)]
  cases h with
  | scalar _ hnode =>
    have hvalue : ScalarNode (splitProperty node).value _ :=
      ⟨hnode.keys.value, (look _ (by decide)).symm.trans hnode.typed, hnode.scalar⟩
    refine ⟨.scalar _ hvalue, hnull', fun w => ?_⟩
    rw [strict_scalar hvalue, strict_scalar hnode, hsame.accepts]
  | enum _ hnode =>
    have hvalue : EnumNode (splitProperty node).value _ :=
      ⟨hnode.keys.value, (look _ (by decide)).symm.trans hnode.listed, hnode.nonempty,
        hnode.members⟩
    refine ⟨.enum _ hvalue, hnull', fun w => ?_⟩
    rw [strict_enum hvalue, strict_enum hnode, hsame.accepts]
  | array _ hnode hstrings hitems =>
    have hvalue : ArrayNode (splitProperty node).value _ :=
      ⟨hnode.keys.value, (look _ (by decide)).symm.trans hnode.typed,
        (look _ (by decide)).symm.trans hnode.items⟩
    refine ⟨.array _ hvalue hstrings hitems, hnull', fun w => ?_⟩
    rw [strict_array hvalue, strict_array hnode]
  | object _ hnode hne hprops hflags =>
    have hvalue : ObjectNode (splitProperty node).value _ _ :=
      ⟨hnode.keys.value, (look _ (by decide)).symm.trans hnode.typed,
        (look _ (by decide)).symm.trans hnode.properties, hnode.propsNodup,
        hreq.trans hnode.requires, hnode.declared,
        by rw [← look _ (by decide)]; exact hnode.additional⟩
    refine ⟨.object _ hvalue hne hprops hflags, hnull', fun w => ?_⟩
    rw [strictNode, strictNode, strict_object hvalue (.inr hne), strict_object hnode (.inr hne)]
  | freeForm _ hnode =>
    have hvalue : FreeFormNode (splitProperty node).value :=
      ⟨hnode.keys.value, (look _ (by decide)).symm.trans hnode.typed,
        by rw [← look _ (by decide)]; exact hnode.properties,
        by rw [← look _ (by decide)]; exact hnode.additional⟩
    refine ⟨.freeForm _ hvalue, hnull', fun w => ?_⟩
    rw [strict_freeForm hvalue, strict_freeForm hnode]
  | nullable _ hnode =>
    rw [hnode.nullable] at hnull
    cases hnull

omit [FloatFormat φ] in
/-- Descriptions put over a dict change nothing the check looks at. -/
lemma sameCheck_mergeDicts {a b : Dict (JsonValue φ)} (hb : ∀ key ∈ b.keys, key ∈ metaKeywords) :
    SameCheck a (mergeDicts a b) := by
  induction b generalizing a with
  | nil => exact ⟨fun _ _ => rfl, fun _ _ _ => Iff.rfl⟩
  | cons p b ih =>
    have hmeta : p.1 ∈ metaKeywords := hb p.1 List.mem_cons_self
    have hstep : SameCheck a (a.insert p.1 p.2) := by
      constructor
      · intro key hkey
        have hall : ∀ key ∈ lookedUp, key ∉ metaKeywords := by decide
        have hne : key ≠ p.1 := fun he => hall key hkey (he ▸ hmeta)
        rw [Dict.get?_insert, if_neg hne]
      · intro key bound hp
        simp only [asserts, Bool.and_eq_true, List.contains_eq_mem, decide_eq_true_eq] at hp
        have hall : ∀ key ∈ assertionKeywords, key ∉ metaKeywords := by decide
        have hne : key ≠ p.1 := fun he => hall key hp.1 (he ▸ hmeta)
        rw [Dict.mem_insert_of_ne hne]
    exact hstep.trans (ih fun key hkey => hb key (List.mem_cons_of_mem _ hkey))

omit [FloatFormat φ] in
lemma metadata_keys (node : Dict (JsonValue φ)) :
    ∀ key ∈ Dict.keys (splitProperty node).metadata, key ∈ metaKeywords := by
  intro key hkey
  obtain ⟨p, hp, rfl⟩ := List.mem_map.1 hkey
  have hfilter := (List.mem_filter.1 hp).2
  simp only [Bool.and_eq_true, List.contains_eq_mem, decide_eq_true_eq] at hfilter
  exact hfilter.2

/-- Under its descriptions, a property that may be null accepts null and what its core does. -/
lemma accepts_nullableUnion {metadata core : Dict (JsonValue φ)}
    (hmeta : ∀ key ∈ metadata.keys, key ∈ metaKeywords) (hcore : core.keys ≠ [Text.ofString "anyOf"])
    {b : JsonValue φ} (hb : normalizeAnyofBranch (.obj core) = some b) (kw : Keywords φ)
    (w : JsonValue φ) :
    accepts kw (.obj (metadata.insert "anyOf" (.arr (nullableUnion core)))) w ↔
      w = .null ∨ accepts kw b w := by
  have hget (key : Text) (hkey : key ∈ lookedUp) (hne : key ≠ "anyOf") :
      (metadata.insert "anyOf" (.arr (nullableUnion core))).get? key = none := by
    have hall : ∀ key ∈ lookedUp, key ∉ metaKeywords := by decide
    rw [Dict.get?_insert, if_neg hne, Dict.get?_eq_none fun hmem => hall key hkey (hmeta key hmem)]
  have hunion : nullableUnion core = [b, nullBranch] := by
    simp [nullableUnion, hcore, cleanAnyof, hb]
  have hany : (metadata.insert "anyOf" (.arr (nullableUnion core))).get? "anyOf" =
      some (.arr [b, nullBranch]) := by
    rw [Dict.get?_insert, if_pos rfl, hunion]
  rw [accepts_union (hget _ (by decide) (by simp)) (hget _ (by decide) (by simp))
    (hget _ (by decide) (by simp)) hany (by simp)]
  simp [accepts_nullBranch, or_comm]

omit [FloatFormat φ] in
lemma Authored.core_keys {inArray : Bool} {node core : Dict (JsonValue φ)}
    (h : Authored inArray (.obj node)) (hnull : isNullable (.obj node) = false)
    (hcore : strictNode (.obj node) = .obj core) : core.keys ≠ [Text.ofString "anyOf"] := by
  intro hkeys
  rcases h.strict_type hnull with ⟨values, hnode⟩ | ⟨s, t, hs, ht⟩
  · rw [strictNode_of_not_object hnode.isObjectNode] at hcore
    cases hcore
    have hmem := Dict.mem_keys_of_get? hnode.strict_listed
    rw [hkeys] at hmem
    simp at hmem
  · rw [hcore] at hs
    cases hs
    have hmem := Dict.mem_keys_of_get? ht
    rw [hkeys] at hmem
    simp at hmem

omit [FloatFormat φ] in
lemma NullableNode.split {node inner : Dict (JsonValue φ)} (h : NullableNode node inner)
    (hinner : typeIs inner "null" = false) :
    (splitProperty node).nonNullBranches = [.obj inner] ∧
      (splitProperty node).nullPresent = true ∧ (splitProperty node).value = [] := by
  have hbranch : isNullSchema (.obj inner) = false := by simp [isNullSchema, hinner]
  have hnull : isNullSchema (nullBranch : JsonValue φ) = true := rfl
  refine ⟨?_, ?_, ?_⟩
  · rcases h.union with hu | hu <;> simp [splitProperty, unionOf, hu, hbranch, hnull]
  · rcases h.union with hu | hu <;> simp [splitProperty, unionOf, hu, hnull]
  · simp only [splitProperty, List.filterMap_eq_nil_iff, Option.map_eq_none_iff]
    rintro ⟨key, v⟩ hp
    have hget := (Dict.mem_iff_get? h.keys.nodup).1 hp
    rcases h.keys.only key (List.mem_map_of_mem (f := (·.1)) hp) with hkey | hkey
    · obtain rfl := List.mem_singleton.1 hkey
      rcases h.union with hu | hu
      all_goals
        rw [hu] at hget
        cases hget
        simp [valueKeyword]
    · rcases List.mem_append.1 hkey with hmeta | hbanned
      · simp [valueKeyword, hmeta]
      · simp [valueKeyword, isDropped, hbanned]

/-- What a transformed property accepts: what the schema becomes accepts, and null if it is
optional. -/
lemma strict_property {inArray : Bool} {node : Dict (JsonValue φ)}
    (h : Authored inArray (.obj node)) (name : Text) (required : List Text) (kw : Keywords φ)
    (w : JsonValue φ) : accepts kw (transformProperty strictNode name required (.obj node)) w ↔
      (w = .null ∧ name ∉ required) ∨ accepts kw (strictNode (.obj node)) w := by
  by_cases hnull : isNullable (.obj node)
  · obtain ⟨inner, hnode, hninner, hinner⟩ := h.of_nullable hnull
    obtain ⟨hbranches, hpresent, hvalue⟩ := hnode.split (hinner.single hninner).2.2.2
    obtain ⟨core, hcore⟩ := strictNode_obj inner
    have hcoreEq : propertyCore strictNode (splitProperty node) = core := by
      simp only [propertyCore, hbranches, hvalue, List.map_cons, List.map_nil, hcore]
      rfl
    obtain ⟨b, hb, hacc⟩ := hinner.normalize hninner kw
    rw [hcore] at hb
    simp only [transformProperty, hpresent, hcoreEq, Bool.not_true, Bool.and_false,
      Bool.false_eq_true, if_false]
    rw [accepts_nullableUnion (metadata_keys node) (hinner.core_keys hninner hcore) hb, hacc,
      strict_nullable hnode hninner hinner]
    tauto
  · have hnull : isNullable (.obj node) = false := by simpa using hnull
    obtain ⟨-, htype, hany, -⟩ := h.single hnull
    obtain ⟨hvalue, hnvalue, hsame⟩ := h.value hnull kw
    obtain ⟨core, hcore⟩ := strictNode_obj (splitProperty node).value
    have hbranches : (splitProperty node).nonNullBranches = [] := by
      simp [splitProperty, unionOf, hany]
    have hpresent : (splitProperty node).nullPresent = false := by
      have htypes : typesOf node = [] := by
        unfold typesOf
        split
        · next types hget => exact absurd hget (htype types)
        · rfl
      simp [splitProperty, unionOf, hany, htypes]
    have hcoreEq : propertyCore strictNode (splitProperty node) = core := by
      simp only [propertyCore, hbranches, List.map_nil, hcore]
      rfl
    simp only [transformProperty, hpresent, hcoreEq, Bool.not_false, Bool.and_true,
      List.contains_eq_mem, decide_eq_true_eq]
    by_cases hreq : name ∈ required
    · rw [if_pos hreq, ← (sameCheck_mergeDicts (metadata_keys node)).accepts, ← hcore, hsame]
      simp [hreq]
    · obtain ⟨b, hb, hacc⟩ := hvalue.normalize hnvalue kw
      rw [hcore] at hb
      rw [if_neg hreq, accepts_nullableUnion (metadata_keys node)
        (hvalue.core_keys hnvalue hcore) hb, hacc, hsame]
      simp [hreq]

end RentCompass.Tools
