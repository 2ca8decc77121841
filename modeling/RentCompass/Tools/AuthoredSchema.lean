import RentCompass.Tools.StrictSchema

/-!
# The schemas tools are authored with

The forms a node of an authored schema takes, and what the check says of a value for each. The
keywords that strict mode drops do not count.
-/

namespace RentCompass.Tools

variable {φ : Type}

/-- The check without the keywords that strict mode drops. -/
def Keywords.lenient (kw : Keywords φ) : Keywords φ where
  same := kw.same
  holds keyword bound value := isDropped keyword bound || kw.holds keyword bound value

/-! ### Forms of a node -/

/-- Keywords that say nothing of a value, or are dropped. -/
def noteKeys : List Text := metaKeywords ++ bannedKeywords

/-- Keywords of a scalar besides its type. -/
def scalarKeys : List Text :=
  ["const", "enum", "pattern", "format", "minimum", "maximum", "exclusiveMinimum",
    "exclusiveMaximum", "multipleOf"]

/-- A dict with these keys, and notes. -/
structure HasKeys (node : Dict (JsonValue φ)) (allowed : List Text) : Prop where
  nodup : node.keys.Nodup
  only : ∀ key ∈ node.keys, key ∈ allowed ∨ key ∈ noteKeys

/-- A string, number, integer or boolean, with or without an enum. -/
structure ScalarNode (node : Dict (JsonValue φ)) (type : Text) : Prop where
  keys : HasKeys node (Text.ofString "type" :: scalarKeys)
  typed : node.get? "type" = some (.str type)
  scalar : type ∈ ([("string" : String), "number", "integer", "boolean"].map Text.ofString)

/-- An enum without a type. -/
structure EnumNode (node : Dict (JsonValue φ)) (values : List (JsonValue φ)) : Prop where
  keys : HasKeys node ["enum"]
  listed : node.get? "enum" = some (.arr values)
  nonempty : values ≠ []
  members : ∀ v ∈ values, (∃ s, v = .str s) ∨ ∃ b, v = .bool b

structure ArrayNode (node items : Dict (JsonValue φ)) : Prop where
  keys : HasKeys node ["type", "items"]
  typed : node.get? "type" = some (.str "array")
  items : node.get? "items" = some (.obj items)

/-- An object whose properties are listed. -/
structure ObjectNode (node props : Dict (JsonValue φ)) (required : List Text) : Prop where
  keys : HasKeys node ["type", "properties", "required", "additionalProperties"]
  typed : node.get? "type" = some (.str "object")
  properties : node.get? "properties" = some (.obj props)
  propsNodup : Dict.keys props |>.Nodup
  requires : requiredNames node = required
  declared : required ⊆ Dict.keys props
  additional : node.get? "additionalProperties" = none ∨
    ∃ b, node.get? "additionalProperties" = some (.bool b)

/-- An object of which nothing is said. -/
structure FreeFormNode (node : Dict (JsonValue φ)) : Prop where
  keys : HasKeys node ["type", "properties", "additionalProperties"]
  typed : node.get? "type" = some (.str "object")
  properties : node.get? "properties" = none ∨ node.get? "properties" = some (.obj [])
  additional : node.get? "additionalProperties" = none ∨
    node.get? "additionalProperties" = some (.bool true)

/-- A schema or null. -/
structure NullableNode (node : Dict (JsonValue φ)) (inner : Dict (JsonValue φ)) : Prop where
  keys : HasKeys node ["anyOf"]
  union : node.get? "anyOf" = some (.arr [.obj inner, nullBranch]) ∨
    node.get? "anyOf" = some (.arr [nullBranch, .obj inner])

/-- The schema is a union with null. -/
def isNullable (schema : JsonValue φ) : Bool :=
  match schema with
  | .obj node => (Dict.get? node "anyOf").isSome
  | _ => false

/-- A schema of a tool's argument. Where `inArray`, it stands inside the items of a list. -/
inductive Authored : (inArray : Bool) → JsonValue φ → Prop
  | scalar (inArray : Bool) {node : Dict (JsonValue φ)} {type : Text} :
    ScalarNode node type → Authored inArray (.obj node)
  | enum (inArray : Bool) {node : Dict (JsonValue φ)} {values : List (JsonValue φ)} :
    EnumNode node values → Authored inArray (.obj node)
  /-- An untyped enum directly under a list lists strings, the type such items are given. -/
  | array (inArray : Bool) {node items : Dict (JsonValue φ)} : ArrayNode node items →
    (∀ values, items.get? "type" = none → items.get? "enum" = some (.arr values) →
      ∀ v ∈ values, ∃ s, v = .str s) →
    Authored true (.obj items) → Authored inArray (.obj node)
  /-- Inside a list every property is required or may be null; elsewhere none is both. -/
  | object (inArray : Bool) {node props : Dict (JsonValue φ)} {required : List Text} :
    ObjectNode node props required → props ≠ [] → (∀ p ∈ props, Authored inArray p.2) →
    (∀ p ∈ props, if inArray then p.1 ∈ required ∨ isNullable p.2
      else ¬ (p.1 ∈ required ∧ isNullable p.2)) → Authored inArray (.obj node)
  | freeForm (inArray : Bool) {node : Dict (JsonValue φ)} :
    FreeFormNode node → Authored inArray (.obj node)
  | nullable (inArray : Bool) {node inner : Dict (JsonValue φ)} : NullableNode node inner →
    isNullable (.obj inner) = false → Authored inArray (.obj inner) → Authored inArray (.obj node)

/-- The schema of a tool: an object of arguments. -/
structure ToolSchema (node props : Dict (JsonValue φ)) (required : List Text) : Prop where
  object : ObjectNode node props required
  properties : ∀ p ∈ props, Authored false p.2
  notBoth : ∀ p ∈ props, ¬ (p.1 ∈ required ∧ isNullable p.2)

lemma HasKeys.get?_none {node : Dict (JsonValue φ)} {allowed : List Text} (h : HasKeys node allowed)
    (key : Text) (hkey : key ∉ allowed ++ noteKeys) : node.get? key = none :=
  Dict.get?_eq_none fun hmem => hkey (List.mem_append.2 (h.only key hmem))

lemma NullableNode.nullable {node inner : Dict (JsonValue φ)} (h : NullableNode node inner) :
    isNullable (.obj node) = true := by
  rcases h.union with hu | hu <;> simp [isNullable, hu]

/-- A schema that may be null is a union of one that is not with null. -/
lemma Authored.of_nullable {inArray : Bool} {node : Dict (JsonValue φ)}
    (h : Authored inArray (.obj node)) (hnull : isNullable (.obj node)) :
    ∃ inner, NullableNode node inner ∧ isNullable (.obj inner) = false ∧
      Authored inArray (.obj inner) := by
  cases h with
  | nullable _ hnode hninner hinner => exact ⟨_, hnode, hninner, hinner⟩
  | scalar _ hnode => simp [isNullable, hnode.keys.get?_none "anyOf" (by decide)] at hnull
  | enum _ hnode => simp [isNullable, hnode.keys.get?_none "anyOf" (by decide)] at hnull
  | array _ hnode => simp [isNullable, hnode.keys.get?_none "anyOf" (by decide)] at hnull
  | object _ hnode => simp [isNullable, hnode.keys.get?_none "anyOf" (by decide)] at hnull
  | freeForm _ hnode => simp [isNullable, hnode.keys.get?_none "anyOf" (by decide)] at hnull

lemma Authored.eq_obj {inArray : Bool} {j : JsonValue φ} (h : Authored inArray j) :
    ∃ node, j = .obj node := by
  cases h <;> exact ⟨_, rfl⟩

/-! ### What the check looks at -/

/-- The keywords the check looks up. -/
def lookedUp : List Text :=
  ["const", "enum", "anyOf", "oneOf", "type", "items", "properties", "required",
    "additionalProperties"]

/-- A keyword that asserts something and is not dropped. -/
def asserts (key : Text) (bound : JsonValue φ) : Bool :=
  assertionKeywords.contains key && !isDropped key bound

/-- The check sees no difference. -/
structure SameCheck (s t : Dict (JsonValue φ)) : Prop where
  lookup : ∀ key ∈ lookedUp, s.get? key = t.get? key
  assertion : ∀ key bound, asserts key bound → ((key, bound) ∈ s ↔ (key, bound) ∈ t)

lemma SameCheck.symm {s t : Dict (JsonValue φ)} (h : SameCheck s t) : SameCheck t s where
  lookup key hkey := (h.lookup key hkey).symm
  assertion key bound hp := (h.assertion key bound hp).symm

lemma SameCheck.trans {s t u : Dict (JsonValue φ)} (h : SameCheck s t) (h' : SameCheck t u) :
    SameCheck s u where
  lookup key hkey := (h.lookup key hkey).trans (h'.lookup key hkey)
  assertion key bound hp := (h.assertion key bound hp).trans (h'.assertion key bound hp)

lemma checkAssertions_lenient {kw : Keywords φ} {s : Dict (JsonValue φ)} {v : JsonValue φ} :
    checkAssertions kw.lenient s v ↔
      ∀ key bound, asserts key bound → (key, bound) ∈ s → kw.holds key bound v := by
  simp only [checkAssertions, List.all_eq_true, Keywords.lenient, Bool.or_eq_true,
    Bool.not_eq_true', asserts, Bool.and_eq_true]
  constructor
  · rintro h key bound ⟨hassert, hdrop⟩ hmem
    rcases h (key, bound) hmem with hnot | hdropped | hholds
    · rw [hassert] at hnot
      cases hnot
    · rw [hdrop] at hdropped
      cases hdropped
    · exact hholds
  · rintro h ⟨key, bound⟩ hmem
    by_cases hassert : assertionKeywords.contains key
    · by_cases hdrop : isDropped key bound
      · exact .inr (.inl hdrop)
      · exact .inr (.inr (h key bound ⟨hassert, by simpa using hdrop⟩ hmem))
    · exact .inl (by simpa using hassert)

variable [FloatFormat φ]

/-- The schema accepts the value, up to lengths, counts and formats that strict mode drops. -/
def accepts (kw : Keywords φ) (schema value : JsonValue φ) : Bool :=
  validateSchemaValue kw.lenient schema value

/-- Schemas the check sees no difference between accept the same. -/
lemma SameCheck.accepts {s t : Dict (JsonValue φ)} (h : SameCheck s t) (kw : Keywords φ)
    (v : JsonValue φ) : accepts kw (.obj s) v = accepts kw (.obj t) v := by
  have look (key : Text) (hkey : key ∈ lookedUp) := h.lookup key hkey
  have hassert (v : JsonValue φ) :
      checkAssertions kw.lenient s v = checkAssertions kw.lenient t v := by
    rw [Bool.eq_iff_iff, checkAssertions_lenient, checkAssertions_lenient]
    exact forall₃_congr fun key bound hp => by rw [h.assertion key bound hp]
  have hreq : requiredNames s = requiredNames t := by
    rw [requiredNames, requiredNames, look _ (by decide)]
  have hprops : propertiesOf s = propertiesOf t := by
    rw [propertiesOf, propertiesOf, look _ (by decide)]
  have hcontent : checkContent kw.lenient (validateSchemaValue kw.lenient) s v =
      checkContent kw.lenient (validateSchemaValue kw.lenient) t v := by
    cases v <;> simp only [checkContent, checkItems, checkFields, hassert, hreq, hprops,
      look "items" (by decide), look "additionalProperties" (by decide)]
  simp only [Tools.accepts, validate_obj, checkNode, checkConst, checkEnum, alternatives,
    checkType, hcontent, look "const" (by decide), look "enum" (by decide),
    look "anyOf" (by decide), look "oneOf" (by decide), look "type" (by decide)]

/-! ### What each form accepts -/

/-- A dict with a type and nothing that asserts more of a scalar. -/
structure Plain (s : Dict (JsonValue φ)) (type : Text) : Prop where
  typed : s.get? "type" = some (.str type)
  const : s.get? "const" = none
  enum : s.get? "enum" = none
  anyOf : s.get? "anyOf" = none
  oneOf : s.get? "oneOf" = none
  silent : ∀ key bound, asserts key bound → (key, bound) ∉ s

omit [FloatFormat φ] in
lemma asserts_notMem {node : Dict (JsonValue φ)} {allowed : List Text} (h : HasKeys node allowed)
    (hall : ∀ key ∈ allowed, key ∉ assertionKeywords) (key : Text) (bound : JsonValue φ)
    (hp : asserts key bound) : (key, bound) ∉ node := by
  intro hmem
  simp only [asserts, Bool.and_eq_true, Bool.not_eq_true'] at hp
  have hkey : key ∈ assertionKeywords := by simpa using hp.1
  rcases h.only key (List.mem_map_of_mem (f := (·.1)) hmem) with hin | hin
  · exact hall key hin hkey
  · rcases List.mem_append.1 hin with hmeta | hbanned
    · have hnot : ∀ key ∈ metaKeywords, key ∉ assertionKeywords := by decide
      exact hnot key hmeta hkey
    · have hdropped : isDropped key bound = true := by simp [isDropped, hbanned]
      rw [hp.2] at hdropped
      cases hdropped

lemma accepts_plain {s : Dict (JsonValue φ)} {type : Text} (h : Plain s type) (kw : Keywords φ)
    (v : JsonValue φ) : accepts kw (.obj s) v ↔ schemaTypeMatches type v ∧
      match v with
      | .float x => FloatFormat.isFinite x
      | .arr items => checkItems (accepts kw) s items
      | .obj fields => checkFields (accepts kw) s fields
      | _ => True := by
  have hassert (v : JsonValue φ) : checkAssertions kw.lenient s v = true :=
    checkAssertions_lenient.2 fun key bound hp hmem => absurd hmem (h.silent key bound hp)
  have hcheck : (fun schema value => validateSchemaValue kw.lenient schema value) = accepts kw := rfl
  cases v <;> simp [accepts, validate_obj, checkNode, checkConst, checkEnum, alternatives,
    checkType, checkContent, h.typed, h.const, h.enum, h.anyOf, h.oneOf, hassert, ← hcheck]

omit [FloatFormat φ] in
lemma ArrayNode.plain {node items : Dict (JsonValue φ)} (h : ArrayNode node items) :
    Plain node "array" where
  typed := h.typed
  const := h.keys.get?_none _ (by decide)
  enum := h.keys.get?_none _ (by decide)
  anyOf := h.keys.get?_none _ (by decide)
  oneOf := h.keys.get?_none _ (by decide)
  silent := asserts_notMem h.keys (by decide)

omit [FloatFormat φ] in
lemma ObjectNode.plain {node props : Dict (JsonValue φ)} {required : List Text}
    (h : ObjectNode node props required) : Plain node "object" where
  typed := h.typed
  const := h.keys.get?_none _ (by decide)
  enum := h.keys.get?_none _ (by decide)
  anyOf := h.keys.get?_none _ (by decide)
  oneOf := h.keys.get?_none _ (by decide)
  silent := asserts_notMem h.keys (by decide)

omit [FloatFormat φ] in
lemma FreeFormNode.plain {node : Dict (JsonValue φ)} (h : FreeFormNode node) :
    Plain node "object" where
  typed := h.typed
  const := h.keys.get?_none _ (by decide)
  enum := h.keys.get?_none _ (by decide)
  anyOf := h.keys.get?_none _ (by decide)
  oneOf := h.keys.get?_none _ (by decide)
  silent := asserts_notMem h.keys (by decide)

lemma accepts_array {s items : Dict (JsonValue φ)} (h : Plain s "array")
    (hitems : s.get? "items" = some (.obj items)) (kw : Keywords φ) (v : JsonValue φ) :
    accepts kw (.obj s) v ↔ ∃ vs, v = .arr vs ∧ ∀ x ∈ vs, accepts kw (.obj items) x := by
  rw [accepts_plain h]
  cases v <;> simp [schemaTypeMatches, checkItems, hitems]

lemma accepts_obj {s : Dict (JsonValue φ)} (h : Plain s "object") (kw : Keywords φ)
    (v : JsonValue φ) :
    accepts kw (.obj s) v ↔ ∃ d, v = .obj d ∧ checkFields (accepts kw) s d := by
  rw [accepts_plain h]
  cases v <;> simp [schemaTypeMatches]

lemma accepts_string {s : Dict (JsonValue φ)} (h : Plain s "string") (kw : Keywords φ)
    (v : JsonValue φ) : accepts kw (.obj s) v ↔ ∃ t, v = .str t := by
  rw [accepts_plain h]
  cases v <;> simp [schemaTypeMatches]

/-- What the check asks of a dict whose properties are listed. -/
structure FieldsMeet (kw : Keywords φ) (props : Dict (JsonValue φ)) (required : List Text)
    (closed : Prop) (fields : Dict (JsonValue φ)) : Prop where
  required : ∀ name ∈ required, name ∈ fields.keys
  properties : ∀ p ∈ props, ∀ x, fields.get? p.1 = some x → accepts kw p.2 x
  closed : closed → ∀ key ∈ fields.keys, key ∈ props.keys

lemma checkFields_iff {s props fields : Dict (JsonValue φ)} (kw : Keywords φ)
    (hprops : propertiesOf s = props)
    (hadd : s.get? "additionalProperties" = none ∨
      ∃ b, s.get? "additionalProperties" = some (.bool b)) :
    checkFields (accepts kw) s fields ↔ FieldsMeet kw props (requiredNames s)
      (s.get? "additionalProperties" = some (.bool false)) fields := by
  have hoption (p : Text × JsonValue φ) : (fields.get? p.1).all (accepts kw p.2) = true ↔
      ∀ x, fields.get? p.1 = some x → accepts kw p.2 x := by
    cases fields.get? p.1 <;> simp
  have hparts : checkFields (accepts kw) s fields ↔
      ((∀ name ∈ requiredNames s, name ∈ fields.keys) ∧
        ∀ p ∈ props, ∀ x, fields.get? p.1 = some x → accepts kw p.2 x) ∧
      (s.get? "additionalProperties" = some (.bool false) →
        ∀ key ∈ fields.keys, key ∈ props.keys) := by
    simp only [checkFields, hprops, Bool.and_eq_true, List.all_eq_true, List.contains_eq_mem,
      decide_eq_true_eq, hoption]
    rcases hadd with hadd | ⟨b, hadd⟩
    · simp [hadd]
    · cases b <;> simp [hadd]
  rw [hparts]
  exact ⟨fun h => ⟨h.1.1, h.1.2, h.2⟩, fun h => ⟨⟨h.required, h.properties⟩, h.closed⟩⟩

lemma accepts_object {node props : Dict (JsonValue φ)} {required : List Text}
    (h : ObjectNode node props required) (kw : Keywords φ) (v : JsonValue φ) :
    accepts kw (.obj node) v ↔ ∃ d, v = .obj d ∧ FieldsMeet kw props required
      (node.get? "additionalProperties" = some (.bool false)) d := by
  have hprops : propertiesOf node = props := by simp [propertiesOf, h.properties]
  simp only [accepts_obj h.plain, checkFields_iff kw hprops h.additional, h.requires]

lemma accepts_freeForm {node : Dict (JsonValue φ)} (h : FreeFormNode node) (kw : Keywords φ)
    (v : JsonValue φ) : accepts kw (.obj node) v ↔ ∃ d, v = .obj d := by
  have hprops : propertiesOf node = [] := by
    rcases h.properties with hp | hp <;> simp [propertiesOf, hp]
  have hreq : requiredNames node = [] := by
    simp [requiredNames, h.keys.get?_none "required" (by decide)]
  have hmeet (d : Dict (JsonValue φ)) : checkFields (accepts kw) node d = true := by
    rcases h.additional with hadd | hadd <;> simp [checkFields, hprops, hreq, hadd]
  simp [accepts_obj h.plain, hmeet]

omit [FloatFormat φ] in
lemma nullBranch_plain : Plain ([("type", .str "null")] : Dict (JsonValue φ)) "null" where
  typed := rfl
  const := rfl
  enum := rfl
  anyOf := rfl
  oneOf := rfl
  silent key bound hp hmem := by
    simp only [List.mem_singleton, Prod.mk.injEq] at hmem
    rw [hmem.1] at hp
    exact absurd hp (by simp [asserts, assertionKeywords])

lemma accepts_nullBranch (kw : Keywords φ) (v : JsonValue φ) :
    accepts kw nullBranch v ↔ v = .null := by
  rw [nullBranch, accepts_plain nullBranch_plain]
  cases v <;> simp [schemaTypeMatches]

/-- A union, and nothing else that counts. -/
lemma accepts_union {s : Dict (JsonValue φ)} {branches : List (JsonValue φ)}
    (hconst : s.get? "const" = none) (henum : s.get? "enum" = none) (hone : s.get? "oneOf" = none)
    (hany : s.get? "anyOf" = some (.arr branches)) (hne : branches ≠ []) (kw : Keywords φ)
    (v : JsonValue φ) : accepts kw (.obj s) v ↔ ∃ b ∈ branches, accepts kw b v := by
  obtain ⟨b, bs, rfl⟩ := List.exists_cons_of_ne_nil hne
  simp [accepts, validate_obj, checkNode, checkConst, checkEnum, alternatives, hconst, henum, hone,
    hany]

lemma accepts_nullable {node inner : Dict (JsonValue φ)} (h : NullableNode node inner)
    (kw : Keywords φ) (v : JsonValue φ) :
    accepts kw (.obj node) v ↔ v = .null ∨ accepts kw (.obj inner) v := by
  have hunion {branches : List (JsonValue φ)} (hany : node.get? "anyOf" = some (.arr branches))
      (hne : branches ≠ []) := accepts_union (h.keys.get?_none _ (by decide))
    (h.keys.get?_none _ (by decide)) (h.keys.get?_none _ (by decide)) hany hne kw v
  rcases h.union with hany | hany
  · rw [hunion hany (by simp)]
    simp [accepts_nullBranch, or_comm]
  · rw [hunion hany (by simp)]
    simp [accepts_nullBranch]

lemma ScalarNode.matches {node : Dict (JsonValue φ)} {type : Text} (h : ScalarNode node type)
    {kw : Keywords φ} {v : JsonValue φ} (hv : accepts kw (.obj node) v) :
    schemaTypeMatches type v := by
  have halt : alternatives node = none := by
    simp [alternatives, h.keys.get?_none "anyOf" (by decide),
      h.keys.get?_none "oneOf" (by decide)]
  simp only [accepts, validate_obj, checkNode, halt, checkType, h.typed, Bool.and_eq_true] at hv
  exact hv.2.1

lemma EnumNode.mem {node : Dict (JsonValue φ)} {values : List (JsonValue φ)}
    (h : EnumNode node values) {kw : Keywords φ} {v : JsonValue φ}
    (hv : accepts kw (.obj node) v) : v ∈ values := by
  simp only [accepts, validate_obj, checkNode, checkEnum, h.listed, Bool.and_eq_true,
    List.any_eq_true] at hv
  obtain ⟨⟨-, m, hm, hsame⟩, -⟩ := hv
  have hvm : v = m := by
    rcases h.members m hm with ⟨t, rfl⟩ | ⟨b, rfl⟩ <;> cases v <;> simp [sameJsonScalar] at hsame
    · rw [hsame]
    · rw [hsame]
  exact hvm ▸ hm

/-- A schema that is no union with null rejects null. -/
lemma Authored.rejects_null {inArray : Bool} {j : JsonValue φ} (h : Authored inArray j)
    (hnull : isNullable j = false) (kw : Keywords φ) : accepts kw j .null = false := by
  rw [← Bool.not_eq_true]
  intro hacc
  cases h with
  | scalar _ hnode =>
    have hmatch := hnode.matches hacc
    have hscalar := hnode.scalar
    simp only [List.map_cons, List.map_nil, List.mem_cons, List.not_mem_nil, or_false] at hscalar
    rcases hscalar with rfl | rfl | rfl | rfl <;> simp [schemaTypeMatches] at hmatch
  | enum _ hnode =>
    rcases hnode.members _ (hnode.mem hacc) with ⟨s, hs⟩ | ⟨b, hb⟩
    · cases hs
    · cases hb
  | array _ hnode =>
    obtain ⟨vs, hvs, -⟩ := (accepts_array hnode.plain hnode.items kw _).1 hacc
    cases hvs
  | object _ hnode =>
    obtain ⟨d, hd, -⟩ := (accepts_object hnode kw _).1 hacc
    cases hd
  | freeForm _ hnode =>
    obtain ⟨d, hd⟩ := (accepts_freeForm hnode kw _).1 hacc
    cases hd
  | nullable _ hnode =>
    rw [hnode.nullable] at hnull
    cases hnull

end RentCompass.Tools
