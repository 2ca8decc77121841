import RentCompass.Json.Depth
import RentCompass.Json.RoundTrip

/-!
# Checking a value against a JSON schema

The subset of JSON schema that tool arguments are checked by when they are run. What a keyword
such as `pattern` or `minimum` says of a value is left to `Keywords`.
-/

namespace RentCompass.Tools

variable {φ : Type} [FloatFormat φ]

/-- The comparisons the check is built on. -/
structure Keywords (φ : Type) where
  /-- `left == right` for two numbers, two lists or two dicts. -/
  same : (left right : JsonValue φ) → Bool
  /-- The value meets the keyword with this bound. -/
  holds : (keyword : Text) → (bound value : JsonValue φ) → Bool

/-- The keywords that assert something of a string, a number, a list's or a dict's size. -/
def assertionKeywords : List Text :=
  ["minLength", "maxLength", "pattern", "format", "minimum", "maximum", "exclusiveMinimum",
    "exclusiveMaximum", "multipleOf", "minItems", "maxItems", "uniqueItems", "minProperties",
    "maxProperties"]

/-- `_same_json_scalar`. -/
def sameJsonScalar (kw : Keywords φ) : JsonValue φ → JsonValue φ → Bool
  | .bool a, .bool b => a = b
  | .null, .null => true
  | .str s, .str t => s = t
  | .int m, .int n => m = n
  | .int m, .float y => kw.same (.int m) (.float y)
  | .float x, .int n => kw.same (.float x) (.int n)
  | .float x, .float y => kw.same (.float x) (.float y)
  | .arr vs, .arr ws => kw.same (.arr vs) (.arr ws)
  | .obj d, .obj e => kw.same (.obj d) (.obj e)
  | _, _ => false

/-- `_schema_type_matches`: an unknown type matches. -/
def schemaTypeMatches (expected : Text) (value : JsonValue φ) : Bool :=
  if expected = "null" then value matches .null
  else if expected = "boolean" then value matches .bool _
  else if expected = "integer" then value matches .int _
  else if expected = "number" then value matches .int _ | .float _
  else if expected = "string" then value matches .str _
  else if expected = "array" then value matches .arr _
  else if expected = "object" then value matches .obj _
  else true

/-- `schema.get("anyOf") or schema.get("oneOf")`, where it is a list. -/
def alternatives (schema : Dict (JsonValue φ)) : Option (List (JsonValue φ)) :=
  match schema.get? "anyOf" with
  | some (.arr (branch :: branches)) => some (branch :: branches)
  | none | some (.arr []) | some .null =>
    match schema.get? "oneOf" with
    | some (.arr branches) => some branches
    | _ => none
  | some _ => none

def checkType (schema : Dict (JsonValue φ)) (value : JsonValue φ) : Bool :=
  match schema.get? "type" with
  | some (.str expected) => schemaTypeMatches expected value
  | some (.arr types) => types.any fun
    | .str expected => schemaTypeMatches expected value
    | _ => true
  | _ => true

def checkConst (kw : Keywords φ) (schema : Dict (JsonValue φ)) (value : JsonValue φ) : Bool :=
  match schema.get? "const" with
  | some constant => sameJsonScalar kw value constant
  | none => true

def checkEnum (kw : Keywords φ) (schema : Dict (JsonValue φ)) (value : JsonValue φ) : Bool :=
  match schema.get? "enum" with
  | some (.arr candidates) => candidates.any (sameJsonScalar kw value)
  | some _ => false
  | none => true

def checkAssertions (kw : Keywords φ) (schema : Dict (JsonValue φ)) (value : JsonValue φ) : Bool :=
  schema.all fun p => !assertionKeywords.contains p.1 || kw.holds p.1 p.2 value

/-- The names in `required`. -/
def requiredNames (schema : Dict (JsonValue φ)) : List Text :=
  match schema.get? "required" with
  | some (.arr names) => names.filterMap fun
    | .str name => some name
    | _ => none
  | _ => []

def propertiesOf (schema : Dict (JsonValue φ)) : Dict (JsonValue φ) :=
  match schema.get? "properties" with
  | some (.obj props) => props
  | _ => []

/-- The items of a list. -/
def checkItems (check : JsonValue φ → JsonValue φ → Bool) (schema : Dict (JsonValue φ))
    (items : List (JsonValue φ)) : Bool :=
  match schema.get? "items" with
  | some (.obj itemSchema) => items.all (check (.obj itemSchema))
  | _ => true

/-- The fields of a dict. -/
def checkFields (check : JsonValue φ → JsonValue φ → Bool) (schema : Dict (JsonValue φ))
    (fields : Dict (JsonValue φ)) : Bool :=
  (requiredNames schema).all fields.keys.contains &&
    (propertiesOf schema).all (fun p => (fields.get? p.1).all (check p.2)) &&
    match schema.get? "additionalProperties" with
    | some (.bool false) => fields.keys.all (propertiesOf schema).keys.contains
    | some (.obj additional) => fields.all fun p =>
        (propertiesOf schema).keys.contains p.1 || check (.obj additional) p.2
    | _ => true

/-- What is left to check once the type matches. -/
def checkContent (kw : Keywords φ) (check : JsonValue φ → JsonValue φ → Bool)
    (schema : Dict (JsonValue φ)) (value : JsonValue φ) : Bool :=
  match value with
  | .null => true
  | .float x => checkAssertions kw schema value && FloatFormat.isFinite x
  | .arr items => checkAssertions kw schema value && checkItems check schema items
  | .obj fields => checkAssertions kw schema value && checkFields check schema fields
  | _ => checkAssertions kw schema value

def checkNode (kw : Keywords φ) (check : JsonValue φ → JsonValue φ → Bool)
    (schema : Dict (JsonValue φ)) (value : JsonValue φ) : Bool :=
  checkConst kw schema value && checkEnum kw schema value &&
    match alternatives schema with
    | some branches =>
      if (schema.get? "oneOf").isSome then branches.countP (check · value) = 1
      else branches.any (check · value)
    | none => checkType schema value && checkContent kw check schema value

/-- One level of the check. -/
def checkStep (kw : Keywords φ) (check : JsonValue φ → JsonValue φ → Bool)
    (schema value : JsonValue φ) : Bool :=
  match schema with
  | .obj schema => checkNode kw check schema value
  | _ => true

/-- `_validate_schema_value` does not raise. -/
def validateSchemaValue (kw : Keywords φ) (schema value : JsonValue φ) : Bool :=
  JsonValue.byDepth (checkStep kw) schema value

/-! ### The check without its depth -/

lemma all_congr_of_mem {α : Type} {l : List α} {p q : α → Bool} (h : ∀ a ∈ l, p a = q a) :
    l.all p = l.all q := by
  rw [Bool.eq_iff_iff, List.all_eq_true, List.all_eq_true]
  exact forall₂_congr fun a ha => by rw [h a ha]

lemma any_congr_of_mem {α : Type} {l : List α} {p q : α → Bool} (h : ∀ a ∈ l, p a = q a) :
    l.any p = l.any q := by
  rw [Bool.eq_iff_iff, List.any_eq_true, List.any_eq_true]
  exact exists_congr fun a => and_congr_right fun ha => by rw [h a ha]

omit [FloatFormat φ] in
lemma alternatives_mem {schema : Dict (JsonValue φ)} {branches : List (JsonValue φ)}
    (h : alternatives schema = some branches) {branch : JsonValue φ} (hb : branch ∈ branches) :
    branch.depth < (JsonValue.obj schema).depth := by
  have key : ∀ {name : Text} {list : List (JsonValue φ)}, schema.get? name = some (.arr list) →
      branch ∈ list → branch.depth < (JsonValue.obj schema).depth := fun hget hmem =>
    (JsonValue.depth_lt_arr hmem).trans (JsonValue.depth_lt_get? hget)
  unfold alternatives at h
  split at h
  · next b bs hany =>
    cases h
    exact key hany hb
  all_goals first
    | cases h
    | split at h
      · next hone =>
        cases h
        exact key hone hb
      · cases h

omit [FloatFormat φ] in
lemma depth_lt_propertiesOf {schema : Dict (JsonValue φ)} {p : Text × JsonValue φ}
    (h : p ∈ propertiesOf schema) : p.2.depth < (JsonValue.obj schema).depth := by
  unfold propertiesOf at h
  split at h
  · next hprops => exact (JsonValue.depth_lt_obj h).trans (JsonValue.depth_lt_get? hprops)
  · cases h

/-- The check goes on into parts of the schema only. -/
lemma checkStep_looksBelow (kw : Keywords φ) : JsonValue.LooksBelow (checkStep kw) := by
  intro schema f g h
  cases schema with
  | obj schema =>
    have hitems (items : List (JsonValue φ)) :
        checkItems f schema items = checkItems g schema items := by
      unfold checkItems
      split
      · next hget => rw [h _ (JsonValue.depth_lt_get? hget)]
      · rfl
    have hfields (fields : Dict (JsonValue φ)) :
        checkFields f schema fields = checkFields g schema fields := by
      have hprops : (propertiesOf schema).all (fun p => (fields.get? p.1).all (f p.2)) =
          (propertiesOf schema).all (fun p => (fields.get? p.1).all (g p.2)) :=
        all_congr_of_mem fun p hp => by rw [h _ (depth_lt_propertiesOf hp)]
      unfold checkFields
      rw [hprops]
      split
      · rfl
      · next hget => rw [h _ (JsonValue.depth_lt_get? hget)]
      · rfl
    have hcontent (value : JsonValue φ) :
        checkContent kw f schema value = checkContent kw g schema value := by
      cases value <;> simp only [checkContent, hitems, hfields]
    funext value
    simp only [checkStep, checkNode, hcontent]
    split
    · next branches hbranches =>
      have hcheck : ∀ b ∈ branches, f b value = g b value := fun b hb => by
        rw [h _ (alternatives_mem hbranches hb)]
      rw [List.countP_congr fun b hb => by rw [hcheck b hb],
        any_congr_of_mem fun b hb => hcheck b hb]
    · rfl
  | _ => rfl

lemma validate_obj (kw : Keywords φ) (schema : Dict (JsonValue φ)) (value : JsonValue φ) :
    validateSchemaValue kw (.obj schema) value =
      checkNode kw (validateSchemaValue kw) schema value := by
  have h := JsonValue.byDepth_eq (checkStep_looksBelow kw) (.obj schema)
  exact congrFun h value

end RentCompass.Tools
