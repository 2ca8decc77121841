import Mathlib.Data.Nat.Digits.Defs
import RentCompass.Json.Value

/-!
# JSON texts

`json.dumps` with `ensure_ascii=False`, and `json.loads`.
-/

/-- The floats of a Python, as far as JSON texts show them. -/
class FloatFormat (φ : Type) where
  nan : φ
  infinity : φ
  negInfinity : φ
  /-- `math.isfinite`. -/
  isFinite : φ → Bool
  /-- What `json.dumps` writes. -/
  text : φ → Text
  /-- `float` of a number token. -/
  ofToken : Text → φ

/-- The floats that are no numbers: a format for texts without fractions. -/
inductive NonFinite where
  | nan
  | infinity
  | negInfinity
  deriving DecidableEq

instance : FloatFormat NonFinite where
  nan := .nan
  infinity := .infinity
  negInfinity := .negInfinity
  isFinite _ := false
  text
    | .nan => Text.ofString "NaN"
    | .infinity => Text.ofString "Infinity"
    | .negInfinity => Text.ofString "-Infinity"
  ofToken _ := .nan

namespace JsonValue

variable {φ : Type} [FloatFormat φ]

/-! ### Characters -/

/-- `"` -/
@[match_pattern] abbrev quote : Nat := 34
/-- `,` -/
@[match_pattern] abbrev comma : Nat := 44
/-- `-` -/
@[match_pattern] abbrev minus : Nat := 45
/-- `.` -/
@[match_pattern] abbrev point : Nat := 46
/-- `:` -/
@[match_pattern] abbrev colon : Nat := 58
/-- `[` -/
@[match_pattern] abbrev openArr : Nat := 91
/-- The backslash. -/
@[match_pattern] abbrev escape : Nat := 92
/-- `]` -/
@[match_pattern] abbrev closeArr : Nat := 93
/-- The opening brace. -/
@[match_pattern] abbrev openObj : Nat := 123
/-- The closing brace. -/
@[match_pattern] abbrev closeObj : Nat := 125

def isDigit (c : Nat) : Bool := 48 ≤ c && c ≤ 57

/-- The whitespace of a JSON text. -/
def isSpace (c : Nat) : Bool := c == 32 || c == 9 || c == 10 || c == 13

def skipSpace (t : Text) : Text := t.dropWhile isSpace

/-! ### Writing -/

/-- The decimal digits of a number. -/
def decimal (n : Nat) : Text :=
  if n = 0 then [48] else ((Nat.digits 10 n).map (· + 48)).reverse

/-- `int.__repr__`. -/
def intText (n : Int) : Text :=
  if n < 0 then minus :: decimal n.natAbs else decimal n.natAbs

def hexDigit (n : Nat) : Nat := if n < 10 then 48 + n else 87 + n

/-- One character of a string. -/
def escapeChar (c : Nat) : Text :=
  match c with
  | 34 => [escape, quote]
  | 92 => [escape, escape]
  | 10 => [escape, 110]
  | 13 => [escape, 114]
  | 9 => [escape, 116]
  | 12 => [escape, 102]
  | 8 => [escape, 98]
  | c => if c < 32 then [escape, 117, 48, 48, hexDigit (c / 16), hexDigit (c % 16)] else [c]

def stringText (s : Text) : Text := quote :: s.flatMap escapeChar ++ [quote]

/-- How a value is laid out: the blanks after `,` and after `:`, and `sort_keys`. -/
structure Style where
  itemBlanks : Nat
  keyBlanks : Nat
  sortKeys : Bool

/-- The layout `json.dumps` uses by itself. -/
def Style.default : Style where
  itemBlanks := 1
  keyBlanks := 1
  sortKeys := false

/-- `sort_keys=True, separators=(",", ":")`. -/
def Style.canonical : Style where
  itemBlanks := 0
  keyBlanks := 0
  sortKeys := true

def Style.itemSep (style : Style) : Text := comma :: List.replicate style.itemBlanks 32

def Style.keySep (style : Style) : Text := colon :: List.replicate style.keyBlanks 32

/-- The fields of an object in the order they are written. -/
def Style.order {α : Type} (style : Style) (fields : Dict α) : Dict α :=
  if style.sortKeys then fields.sortKeys else fields

/-- A field as it is written. -/
def Style.field (style : Style) (p : Text × Text) : Text :=
  stringText p.1 ++ style.keySep ++ p.2

mutual

/-- `json.dumps(value, ensure_ascii=False)`. -/
def dumps (style : Style) : JsonValue φ → Text
  | .null => Text.ofString "null"
  | .bool true => Text.ofString "true"
  | .bool false => Text.ofString "false"
  | .int n => intText n
  | .float x => FloatFormat.text x
  | .str s => stringText s
  | .arr items => openArr :: style.itemSep.intercalate (dumpsItems style items) ++ [closeArr]
  | .obj fields =>
    openObj :: style.itemSep.intercalate
      ((style.order (dumpsFields style fields)).map style.field) ++ [closeObj]

def dumpsItems (style : Style) : List (JsonValue φ) → List Text
  | [] => []
  | v :: items => v.dumps style :: dumpsItems style items

def dumpsFields (style : Style) : List (Text × JsonValue φ) → Dict Text
  | [] => []
  | (k, v) :: fields => (k, v.dumps style) :: dumpsFields style fields

end

/-! ### Reading -/

/-- The text after a literal. -/
def literal (word t : Text) : Option Text :=
  if word.isPrefixOf t then some (t.drop word.length) else none

def hexValue (c : Nat) : Option Nat :=
  if isDigit c then some (c - 48)
  else if 97 ≤ c ∧ c ≤ 102 then some (c - 87)
  else if 65 ≤ c ∧ c ≤ 70 then some (c - 55)
  else none

/-- The four digits of a `\u` escape. -/
def hexEscape (t : Text) : Option (Nat × Text) :=
  match t with
  | a :: b :: c :: d :: t => do
    let a ← hexValue a
    let b ← hexValue b
    let c ← hexValue c
    let d ← hexValue d
    some (4096 * a + 256 * b + 16 * c + d, t)
  | _ => none

/-- A one-letter escape. -/
def shortEscape (c : Nat) : Option Nat :=
  match c with
  | 34 => some 34
  | 92 => some 92
  | 47 => some 47
  | 98 => some 8
  | 102 => some 12
  | 110 => some 10
  | 114 => some 13
  | 116 => some 9
  | _ => none

/-- A `\u` escape, with the low surrogate after a high one. -/
def unicodeEscape (t : Text) : Option (Nat × Text) := do
  let (high, t) ← hexEscape t
  if 0xD800 ≤ high ∧ high ≤ 0xDBFF then
    match t with
    | 92 :: 117 :: rest =>
      match hexEscape rest with
      | some (low, rest) =>
        if 0xDC00 ≤ low ∧ low ≤ 0xDFFF then
          some (0x10000 + (high - 0xD800) * 0x400 + (low - 0xDC00), rest)
        else some (high, t)
      | none => some (high, t)
    | _ => some (high, t)
  else some (high, t)

/-- The characters of a string up to its closing quote; control characters are refused. -/
def readString : Nat → Text → Option (Text × Text)
  | 0, _ => none
  | _, [] => none
  | _ + 1, 34 :: t => some ([], t)
  | n + 1, 92 :: c :: t => do
    let (c, t) ← if c = 117 then unicodeEscape t else (shortEscape c).map (·, t)
    let (s, t) ← readString n t
    some (c :: s, t)
  | n + 1, c :: t => do
    if c < 32 ∨ c = 92 then none
    let (s, t) ← readString n t
    some (c :: s, t)

/-- A run of digits. -/
def digitsOf (t : Text) : Text × Text := (t.takeWhile isDigit, t.dropWhile isDigit)

/-- The integer part of a number. -/
def readInt (t : Text) : Option (Text × Text) :=
  match t with
  | 48 :: t => some ([48], t)
  | c :: t => if isDigit c then some (digitsOf (c :: t)) else none
  | [] => none

/-- A fraction, if there is one. -/
def readFraction (t : Text) : Text × Text :=
  match t with
  | 46 :: c :: t =>
    if isDigit c then (46 :: (digitsOf (c :: t)).1, (digitsOf (c :: t)).2) else ([], 46 :: c :: t)
  | t => ([], t)

/-- A sign that is one of these, if there is one. -/
def readSign (signs t : Text) : Text × Text :=
  match t with
  | c :: t => if c ∈ signs then ([c], t) else ([], c :: t)
  | [] => ([], [])

/-- An exponent, if there is one. -/
def readExponent (t : Text) : Text × Text :=
  match t with
  | e :: t =>
    if (e = 101 ∨ e = 69) ∧ (digitsOf (readSign [45, 43] t).2).1 ≠ [] then
      (e :: (readSign [45, 43] t).1 ++ (digitsOf (readSign [45, 43] t).2).1,
        (digitsOf (readSign [45, 43] t).2).2)
    else ([], e :: t)
  | [] => ([], [])

/-- The number a run of digits stands for. -/
def digitsValue (t : Text) : Nat := Nat.ofDigits 10 (t.map (· - 48)).reverse

/-- The number its parts stand for: an integer unless there is a fraction or an exponent. -/
def numberOf (sign digits fraction exponent : Text) : JsonValue φ :=
  if fraction = [] ∧ exponent = [] then
    .int (if sign = [] then digitsValue digits else -(digitsValue digits))
  else .float (FloatFormat.ofToken (sign ++ digits ++ fraction ++ exponent))

/-- A number. -/
def readNumber (t : Text) : Option (JsonValue φ × Text) :=
  (readInt (readSign [45] t).2).map fun digits =>
    let fraction := readFraction digits.2
    let exponent := readExponent fraction.2
    (numberOf (readSign [45] t).1 digits.1 fraction.1 exponent.1, exponent.2)

mutual

/-- A value, and the text after it. -/
def readValue : Nat → Text → Option (JsonValue φ × Text)
  | 0, _ => none
  | n + 1, t =>
    match t with
    | [] => none
    | 34 :: t => (readString (t.length + 1) t).map fun (s, t) => (.str s, t)
    | 91 :: t =>
      match skipSpace t with
      | 93 :: t => some (.arr [], t)
      | t => (readItems n t).map fun (items, t) => (.arr items, t)
    | 123 :: t =>
      match skipSpace t with
      | 125 :: t => some (.obj [], t)
      | t => (readFields n t).map fun (fields, t) => (.obj (Dict.ofPairs fields), t)
    | 110 :: _ => (literal (Text.ofString "null") t).map fun t => (.null, t)
    | 116 :: _ => (literal (Text.ofString "true") t).map fun t => (.bool true, t)
    | 102 :: _ => (literal (Text.ofString "false") t).map fun t => (.bool false, t)
    | 78 :: _ => (literal (Text.ofString "NaN") t).map fun t => (.float FloatFormat.nan, t)
    | 73 :: _ =>
      (literal (Text.ofString "Infinity") t).map fun t => (.float FloatFormat.infinity, t)
    | 45 :: 73 :: _ =>
      (literal (Text.ofString "-Infinity") t).map fun t => (.float FloatFormat.negInfinity, t)
    | t => readNumber t

/-- The items of an array, from the first on. -/
def readItems : Nat → Text → Option (List (JsonValue φ) × Text)
  | 0, _ => none
  | n + 1, t => do
    let (v, t) ← readValue n t
    match skipSpace t with
    | 93 :: t => some ([v], t)
    | 44 :: t => do
      let (items, t) ← readItems n (skipSpace t)
      some (v :: items, t)
    | _ => none

/-- The fields of an object, from the first on. -/
def readFields : Nat → Text → Option (List (Text × JsonValue φ) × Text)
  | 0, _ => none
  | n + 1, t =>
    match t with
    | 34 :: t => do
      let (k, t) ← readString (t.length + 1) t
      match skipSpace t with
      | 58 :: t => do
        let (v, t) ← readValue n (skipSpace t)
        match skipSpace t with
        | 125 :: t => some ([(k, v)], t)
        | 44 :: t => do
          let (fields, t) ← readFields n (skipSpace t)
          some ((k, v) :: fields, t)
        | _ => none
      | _ => none
    | _ => none

end

/-- `json.loads`: `none` where it raises. -/
def loads (t : Text) : Option (JsonValue φ) :=
  match readValue (t.length + 1) (skipSpace t) with
  | some (v, rest) => if skipSpace rest = [] then some v else none
  | none => none

end JsonValue
