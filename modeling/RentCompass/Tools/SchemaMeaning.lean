import RentCompass.Json.Escaped
import RentCompass.Tools.Execution
import RentCompass.Tools.SchemaCheck
import Mathlib.Algebra.Order.Floor.Ring
import Mathlib.Algebra.Order.Round
import Mathlib.Data.Rat.Floor

/-!
# What a JSON schema means

The check of tool arguments, with its keywords as they are written, beside the meaning JSON schema
gives to them. Floats are taken as the numbers they stand for, patterns and formats as predicates.
-/

namespace RentCompass.Tools

open JsonValue

/-- Floats that stand for exact numbers. -/
class ExactFloats (φ : Type) extends FloatFormat φ where
  rat : φ → ℚ
  finite : ∀ x, isFinite x = true

/-- `re.search`, the formats, and `str` of what is not a text. -/
structure StringChecks (φ : Type) where
  searches : (pattern text : Text) → Bool
  hasFormat : (format text : Text) → Bool
  str : JsonValue φ → Text

variable {φ : Type} [ExactFloats φ]

/-- `str(value)` -/
def StringChecks.strOf (checks : StringChecks φ) : JsonValue φ → Text
  | .str s => s
  | v => checks.str v

/-! ### Equality -/

mutual

/-- Equality of lists by their items and of dicts by their keys, and of other values by `scalar`. -/
def equalBy (scalar : JsonValue φ → JsonValue φ → Bool) : JsonValue φ → JsonValue φ → Bool
  | .arr vs, .arr ws => equalItems scalar vs ws
  | .obj d, .obj e => d.length = e.length && equalFields scalar d e
  | v, w => scalar v w

def equalItems (scalar : JsonValue φ → JsonValue φ → Bool) :
    List (JsonValue φ) → List (JsonValue φ) → Bool
  | [], [] => true
  | v :: vs, w :: ws => equalBy scalar v w && equalItems scalar vs ws
  | _, _ => false

def equalFields (scalar : JsonValue φ → JsonValue φ → Bool) :
    List (Text × JsonValue φ) → Dict (JsonValue φ) → Bool
  | [], _ => true
  | (k, v) :: fields, e =>
    (match e.get? k with
      | some w => equalBy scalar v w
      | none => false) && equalFields scalar fields e

end

/-- The number a value is. -/
def number : JsonValue φ → Option ℚ
  | .int n => some n
  | .float x => some (ExactFloats.rat x)
  | _ => none

/-- The number a value is to Python: a `bool` is one. -/
def pyNumber : JsonValue φ → Option ℚ
  | .bool b => some (if b then 1 else 0)
  | v => number v

/-- Equality of scalars, with numbers by `num`. -/
def scalarEqual (num : JsonValue φ → Option ℚ) (v w : JsonValue φ) : Bool :=
  match v, w with
  | .null, .null => true
  | .str s, .str t => s = t
  | v, w =>
    match num v, num w with
    | some a, some b => a = b
    | none, none => (match v, w with
      | .bool a, .bool b => a = b
      | _, _ => false)
    | _, _ => false

/-- `left == right` -/
def pyEqual : JsonValue φ → JsonValue φ → Bool := equalBy (scalarEqual pyNumber)

/-- Equality of JSON values. -/
def jsonEqual : JsonValue φ → JsonValue φ → Bool := equalBy (scalarEqual number)

/-! ### The keywords as they are checked -/

/-- `int(bound)` -/
def intOf : JsonValue φ → Option Int
  | .bool b => some (if b then 1 else 0)
  | .int n => some n
  | .float x =>
    some (if 0 ≤ ExactFloats.rat x then ⌊ExactFloats.rat x⌋ else ⌈ExactFloats.rat x⌉)
  | _ => none

/-- `round(q)`: halves to the even number. -/
def pyRound (q : ℚ) : ℤ :=
  if Int.fract q = 1 / 2 then (if ⌊q⌋ % 2 = 0 then ⌊q⌋ else ⌊q⌋ + 1) else round q

/-- `math.isclose(a, b)` -/
def isClose (a b : ℚ) : Bool := |a - b| ≤ max |a| |b| / 10 ^ 9

/-- `value` is a multiple of the divisor, as it is checked. -/
def closeToMultiple (value divisor : ℚ) : Bool :=
  divisor ≠ 0 && isClose (value / divisor) (pyRound (value / divisor))

/-- The size is at least the bound, and at most. -/
def sizeAtLeast (bound : JsonValue φ) (size : Nat) : Bool := (intOf bound).any fun n => n ≤ (size : Int)

def sizeAtMost (bound : JsonValue φ) (size : Nat) : Bool := (intOf bound).any fun n => (size : Int) ≤ n

/-- The keywords of a string. -/
def stringHolds (checks : StringChecks φ) (keyword : Text) (bound : JsonValue φ) (s : Text) : Bool :=
  if keyword = "minLength" then sizeAtLeast bound s.length
  else if keyword = "maxLength" then sizeAtMost bound s.length
  else if keyword = "pattern" then (bound matches .null) || checks.searches (checks.strOf bound) s
  else if keyword = "format" then !truthy bound || checks.hasFormat (checks.strOf bound) s
  else true

/-- The keywords of a number. -/
def numberHolds (keyword : Text) (bound : JsonValue φ) (value : ℚ) : Bool :=
  if keyword = "minimum" then (pyNumber bound).any (· ≤ value)
  else if keyword = "maximum" then (pyNumber bound).any fun b => value ≤ b
  else if keyword = "exclusiveMinimum" then (pyNumber bound).any fun b => b < value
  else if keyword = "exclusiveMaximum" then (pyNumber bound).any fun b => value < b
  else if keyword = "multipleOf" then (pyNumber bound).any (closeToMultiple value)
  else true

/-- The keywords of a list. -/
def listHolds (keyword : Text) (bound : JsonValue φ) (items : List (JsonValue φ)) : Bool :=
  if keyword = "minItems" then sizeAtLeast bound items.length
  else if keyword = "maxItems" then sizeAtMost bound items.length
  else if keyword = "uniqueItems" then
    !truthy bound || (items.map (dumpsAscii .canonical)).Nodup
  else true

/-- The keywords of a dict. -/
def dictHolds (keyword : Text) (bound : JsonValue φ) (fields : Dict (JsonValue φ)) : Bool :=
  if keyword = "minProperties" then sizeAtLeast bound fields.length
  else if keyword = "maxProperties" then sizeAtMost bound fields.length
  else true

/-- The keywords as `_validate_schema_value` checks them. -/
def pyKeywords (checks : StringChecks φ) : Keywords φ where
  same := pyEqual
  holds keyword bound
    | .str s => stringHolds checks keyword bound s
    | .arr items => listHolds keyword bound items
    | .obj fields => dictHolds keyword bound fields
    | .int n => numberHolds keyword bound n
    | .float x => numberHolds keyword bound (ExactFloats.rat x)
    | _ => true

/-! ### The meaning of the keywords -/

/-- The types of JSON schema. -/
def typeNames : List Text :=
  ["null", "boolean", "integer", "number", "string", "array", "object"].map Text.ofString

/-- The value is of the type: a number without a fraction is an integer, however it is written. -/
def HasType (name : Text) : JsonValue φ → Prop
  | .null => name = "null"
  | .bool _ => name = "boolean"
  | .str _ => name = "string"
  | .arr _ => name = "array"
  | .obj _ => name = "object"
  | .int _ => name = "integer" ∨ name = "number"
  | .float x => name = "number" ∨ name = "integer" ∧ (ExactFloats.rat x).isInt

/-- What the keywords of sizes, texts and numbers say of a value they are about. -/
def Asserts (checks : StringChecks φ) (keyword : Text) (bound : JsonValue φ) :
    JsonValue φ → Prop
  | .str s =>
    (keyword = "minLength" → ∀ n, number bound = some n → n ≤ s.length) ∧
    (keyword = "maxLength" → ∀ n, number bound = some n → s.length ≤ n) ∧
    (keyword = "pattern" → ∀ p, bound = .str p → checks.searches p s) ∧
    (keyword = "format" → ∀ f, bound = .str f → f ≠ [] → checks.hasFormat f s)
  | .arr items =>
    (keyword = "minItems" → ∀ n, number bound = some n → n ≤ items.length) ∧
    (keyword = "maxItems" → ∀ n, number bound = some n → items.length ≤ n) ∧
    (keyword = "uniqueItems" → bound = .bool true → items.Pairwise fun v w => jsonEqual v w = false)
  | .obj fields =>
    (keyword = "minProperties" → ∀ n, number bound = some n → n ≤ fields.length) ∧
    (keyword = "maxProperties" → ∀ n, number bound = some n → fields.length ≤ n)
  | value => ∀ q, number value = some q → ∀ b, number bound = some b →
    (keyword = "minimum" → b ≤ q) ∧ (keyword = "maximum" → q ≤ b) ∧
    (keyword = "exclusiveMinimum" → b < q) ∧ (keyword = "exclusiveMaximum" → q < b) ∧
    (keyword = "multipleOf" → ∃ k : ℤ, q = k * b)

/-- The keywords of a node other than `const`, `enum`, `anyOf` and `oneOf`. -/
structure Rest (checks : StringChecks φ) (accepts : JsonValue φ → JsonValue φ → Prop)
    (schema : Dict (JsonValue φ)) (value : JsonValue φ) : Prop where
  type : ∀ name, schema.get? "type" = some (.str name) → HasType name value
  types : ∀ names, schema.get? "type" = some (.arr names) →
    ∃ name, .str name ∈ names ∧ HasType name value
  asserts : ∀ keyword bound, schema.get? keyword = some bound → Asserts checks keyword bound value
  items : ∀ items s, value = .arr items → schema.get? "items" = some s → ∀ v ∈ items, accepts s v
  required : ∀ fields names, value = .obj fields → schema.get? "required" = some (.arr names) →
    ∀ name, .str name ∈ names → name ∈ Dict.keys fields
  properties : ∀ fields props, value = .obj fields → schema.get? "properties" = some (.obj props) →
    ∀ p ∈ props, ∀ v, Dict.get? fields p.1 = some v → accepts p.2 v
  additional : ∀ fields s, value = .obj fields → schema.get? "additionalProperties" = some s →
    ∀ p ∈ fields, p.1 ∉ (propertiesOf schema).keys → accepts s p.2

/-- All keywords of a node hold of a value. -/
structure Conforms (checks : StringChecks φ) (accepts : JsonValue φ → JsonValue φ → Prop)
    (schema : Dict (JsonValue φ)) (value : JsonValue φ) : Prop where
  const : ∀ c, schema.get? "const" = some c → jsonEqual value c
  enum : ∀ cs, schema.get? "enum" = some (.arr cs) → ∃ c ∈ cs, jsonEqual value c
  anyOf : ∀ bs, schema.get? "anyOf" = some (.arr bs) → ∃ b ∈ bs, accepts b value
  oneOf : ∀ bs, schema.get? "oneOf" = some (.arr bs) →
    ∃ before b after, bs = before ++ b :: after ∧ accepts b value ∧
      ∀ b' ∈ before ++ after, ¬ accepts b' value
  rest : Rest checks accepts schema value

/-- One level of the meaning. -/
def meaningStep (checks : StringChecks φ) (accepts : JsonValue φ → JsonValue φ → Prop)
    (schema value : JsonValue φ) : Prop :=
  match schema with
  | .obj schema => Conforms checks accepts schema value
  | .bool b => b = true
  | _ => True

/-- JSON schema accepts the value. -/
def Accepts (checks : StringChecks φ) (schema value : JsonValue φ) : Prop :=
  JsonValue.byDepth (meaningStep checks) schema value

/-! ### The meaning without its depth -/

lemma conforms_congr {checks : StringChecks φ} {schema : Dict (JsonValue φ)}
    {f g : JsonValue φ → JsonValue φ → Prop}
    (h : ∀ s, s.depth < (JsonValue.obj schema).depth → f s = g s) {value : JsonValue φ}
    (hf : Conforms checks f schema value) : Conforms checks g schema value where
  const := hf.const
  enum := hf.enum
  anyOf bs hbs := by
    obtain ⟨b, hb, haccepts⟩ := hf.anyOf bs hbs
    rw [h b ((depth_lt_arr hb).trans (depth_lt_get? hbs))] at haccepts
    exact ⟨b, hb, haccepts⟩
  oneOf bs hbs := by
    obtain ⟨before, b, after, rfl, haccepts, hothers⟩ := hf.oneOf bs hbs
    have hlt : ∀ b' ∈ before ++ b :: after, f b' = g b' := fun b' hb' =>
      h b' ((depth_lt_arr hb').trans (depth_lt_get? hbs))
    rw [hlt b (by simp)] at haccepts
    refine ⟨before, b, after, rfl, haccepts, fun b' hb' => ?_⟩
    rw [← hlt b' (by rw [List.mem_append] at hb'; simp only [List.mem_append, List.mem_cons]; tauto)]
    exact hothers b' hb'
  rest := {
    type := hf.rest.type
    types := hf.rest.types
    asserts := hf.rest.asserts
    items items s hvalue hs v hv := by
      rw [← h s (depth_lt_get? hs)]
      exact hf.rest.items items s hvalue hs v hv
    required := hf.rest.required
    properties fields props hvalue hprops p hp v hv := by
      rw [← h p.2 ((depth_lt_obj hp).trans (depth_lt_get? hprops))]
      exact hf.rest.properties fields props hvalue hprops p hp v hv
    additional fields s hvalue hs p hp hnot := by
      rw [← h s (depth_lt_get? hs)]
      exact hf.rest.additional fields s hvalue hs p hp hnot }

lemma meaningStep_looksBelow (checks : StringChecks φ) :
    JsonValue.LooksBelow (meaningStep checks) := by
  intro schema f g h
  cases schema with
  | obj schema =>
    funext value
    exact propext ⟨conforms_congr h, conforms_congr fun s hs => (h s hs).symm⟩
  | _ => rfl

lemma accepts_node {checks : StringChecks φ} {schema : Dict (JsonValue φ)} {value : JsonValue φ} :
    Accepts checks (.obj schema) value ↔ Conforms checks (Accepts checks) schema value := by
  have h := JsonValue.byDepth_eq (meaningStep_looksBelow checks) (.obj schema)
  exact iff_of_eq (congrFun h value)

lemma accepts_bool {checks : StringChecks φ} {b : Bool} {value : JsonValue φ} :
    Accepts checks (.bool b) value ↔ b = true := by
  have h := JsonValue.byDepth_eq (meaningStep_looksBelow checks) (.bool b)
  exact iff_of_eq (congrFun h value)

end RentCompass.Tools
