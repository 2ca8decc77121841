import RentCompass.Json.Reading
import RentCompass.Matching

/-!
# Chinese amounts

`zh_money_digits` writes amounts such as `两千五` and `3千5百` in digits, for the parsers of
budgets. Two expressions are substituted one after the other.
-/

namespace RentCompass.ZhMoney

open JsonValue (decimal)

/-! ### Characters -/

/-- The characters `\d` matches, with their value: those of the Unicode category `Nd`. -/
structure Digits where
  value : Nat → Option Nat
  value_lt : ∀ c v, value c = some v → v < 10
  ascii : ∀ v < 10, value (48 + v) = some v
  not_numeral : ∀ c ∈ Text.ofString ".零一二两三四五六七八九十百千万几数多来余", value c = none

def Digits.isDigit (U : Digits) (c : Nat) : Bool := (U.value c).isSome

@[match_pattern] abbrev zero : Nat := 0x96F6
@[match_pattern] abbrev ten : Nat := 0x5341
@[match_pattern] abbrev hundred : Nat := 0x767E
@[match_pattern] abbrev thousand : Nat := 0x5343
@[match_pattern] abbrev myriad : Nat := 0x4E07

/-- `_ZH_DIGITS` -/
def _ZH_DIGITS : List (Nat × Nat) :=
  [(zero, 0), (0x4E00, 1), (0x4E8C, 2), (0x4E24, 2), (0x4E09, 3), (0x56DB, 4), (0x4E94, 5),
    (0x516D, 6), (0x4E03, 7), (0x516B, 8), (0x4E5D, 9)]

/-- The characters of a run. -/
def isRun (U : Digits) (c : Nat) : Bool :=
  U.isDigit c || decide (c ∈ Text.ofString "零一二两三四五六七八九十百千万")

/-! ### The expressions -/

def oneOf (s : String) : Regex Nat := .char fun c => decide (c ∈ Text.ofString s)

def is {γ : Type} (c : Nat) : Pattern γ Nat := .plain (.char (· == c))

/-- `_DIGIT_THOUSANDS` -/
def _DIGIT_THOUSANDS (U : Digits) : Pattern Nat Nat :=
  .concat [
    .plain (.beside fun before _ => !before.any fun c => U.isDigit c || c == 46),
    .group 1 (.char U.isDigit), is thousand,
    .opt (.seq (.group 2 (.char U.isDigit)) (.opt (is hundred))),
    .plain (.beside fun _ after =>
      !after.any fun c => U.isDigit c || decide (c ∈ Text.ofString "多来余"))]

inductive ZhGroup where
  | wan | wanK | k | kTen | kH | kT | h | hT
deriving DecidableEq

def _ZH_NUMERAL_BEFORE (U : Digits) : Pattern ZhGroup Nat :=
  .plain (.beside fun before _ => !before.any fun c =>
    U.isDigit c || decide (c ∈ Text.ofString "一二两三四五六七八九十百千万零几数"))

def _ZH_NUMERAL_AFTER : Pattern ZhGroup Nat :=
  .plain (.beside fun _ after => !after.any fun c =>
    decide (c ∈ Text.ofString "一二两三四五六七八九十百千万零几多来余"))

/-- `(?P<wan>[一二两三])万(?P<wan_k>[一二两三四五六七八九])?` -/
def zhWan : Pattern ZhGroup Nat :=
  .concat [.group .wan (oneOf "一二两三"), is myriad,
    .opt (.group .wanK (oneOf "一二两三四五六七八九"))]

/-- `(?P<k>…)千(?:零(?P<k_ten>…)十|(?P<k_h>…)(?:百(?:(?P<k_t>…)十?)?)?)?` -/
def zhThousands : Pattern ZhGroup Nat :=
  .concat [.group .k (oneOf "一二两三四五六七八九"), is thousand,
    .opt (.alt
      (.concat [is zero, .group .kTen (oneOf "一二三四五六七八九"), is ten])
      (.concat [.group .kH (oneOf "一二两三四五六七八九"),
        .opt (.concat [is hundred,
          .opt (.concat [.group .kT (oneOf "一二三四五六七八九"), .opt (is ten)])])]))]

/-- `(?P<h>[二两三四五六七八九])百(?:(?P<h_t>…)十?)?` -/
def zhHundreds : Pattern ZhGroup Nat :=
  .concat [.group .h (oneOf "二两三四五六七八九"), is hundred,
    .opt (.concat [.group .hT (oneOf "一二三四五六七八九"), .opt (is ten)])]

/-- `_ZH_MONEY` -/
def _ZH_MONEY (U : Digits) : Pattern ZhGroup Nat :=
  .concat [_ZH_NUMERAL_BEFORE U, .alt zhWan (.alt zhThousands zhHundreds), _ZH_NUMERAL_AFTER]

/-- `digit` of `_zh_money_value`: a group that took part holds one character. -/
def digit (groups : Pattern.Groups ZhGroup Nat) (name : ZhGroup) : Nat :=
  match groups.lookup name with
  | some (c :: _) => (_ZH_DIGITS.lookup c).getD 0
  | _ => 0

/-- `_zh_money_value`, before `str`. -/
def _zh_money_value (groups : Pattern.Groups ZhGroup Nat) : Nat :=
  let digit := digit groups
  digit .wan * 10000 + digit .wanK * 1000 + digit .k * 1000 + digit .kH * 100 + digit .kTen * 10 +
    digit .kT * 10 + digit .h * 100 + digit .hT * 10

/-- `int(m.group(i) or 0)` -/
def groupInt (U : Digits) (groups : Pattern.Groups Nat Nat) (i : Nat) : Nat :=
  match groups.lookup i with
  | some (c :: _) => (U.value c).getD 0
  | _ => 0

def thousandsValue (U : Digits) (groups : Pattern.Groups Nat Nat) : Nat :=
  groupInt U groups 1 * 1000 + groupInt U groups 2 * 100

/-- `zh_money_digits` -/
def zh_money_digits (U : Digits) (t : Text) : Text :=
  if t.any fun c => c == hundred || c == thousand || c == myriad then
    (_ZH_MONEY U).sub (fun m => decimal (_zh_money_value m.groups))
      ((_DIGIT_THOUSANDS U).sub (fun m => decimal (thousandsValue U m.groups)) t)
  else t

/-! ### What a run says -/

/-- A number that waits for its unit. -/
inductive Coefficient where
  | numeral (n : Nat)
  | digits (n count : Nat)
deriving DecidableEq

/-- A run read so far: what stands before `万`, the sum behind it, the last unit, and whether a
`零` came after that. -/
structure Reading where
  myriads : Option Nat
  total : Nat
  unit : Option Nat
  gap : Bool
  coefficient : Option Coefficient
deriving DecidableEq

namespace Reading

def start : Reading where
  myriads := none
  total := 0
  unit := none
  gap := false
  coefficient := none

/-- The coefficient counts ones where it stands. -/
def ones (s : Reading) (n : Nat) (single : Bool) : Option Nat :=
  match s.unit with
  | none => some (s.total + n)
  | some u =>
    if u = 10 ∨ s.gap ∨ single = false then if n < u then some (s.total + n) else none else none

/-- The number that was read, as the count of a larger unit. -/
def count (s : Reading) : Option Nat :=
  match s.coefficient with
  | none => if s.gap then none else some s.total
  | some (.numeral n) => s.ones n true
  | some (.digits n k) => s.ones n (k == 1)

/-- A number at the end of the run: a single digit with no `零` before it counts the next lower
unit. -/
def atEnd (s : Reading) (n : Nat) (single : Bool) : Option Nat :=
  match s.unit with
  | some u => if single && !s.gap then some (s.total + n * (u / 10)) else s.ones n single
  | none => s.ones n single

/-- The number that was read. -/
def finish (s : Reading) : Option Nat :=
  (match s.coefficient with
    | some (.numeral n) => s.atEnd n true
    | some (.digits n k) => s.atEnd n (k == 1)
    | none => s.count).map (s.myriads.getD 0 * 10000 + ·)

/-- A unit below `万`: smaller than the one before it. -/
def readUnit (s : Reading) (u : Nat) : Option Reading :=
  if s.unit.all (u < ·) then
    match s.coefficient with
    | some (.numeral n) | some (.digits n _) =>
      some { s with total := s.total + n * u, unit := some u, gap := false, coefficient := none }
    | none =>
      if u = 10 ∧ s.unit = none then
        some { s with total := 10, unit := some 10 }
      else none
  else none

def readMyriad (s : Reading) : Option Reading :=
  if s.myriads = none then
    s.count.bind fun n =>
      if n = 0 then none
      else some { myriads := some n, total := 0, unit := some 10000, gap := false,
                  coefficient := none }
  else none

def readDigit (s : Reading) (d : Nat) : Option Reading :=
  match s.coefficient with
  | none => some { s with coefficient := some (.digits d 1) }
  | some (.digits n k) => some { s with coefficient := some (.digits (10 * n + d) (k + 1)) }
  | some (.numeral _) => none

def readNumeral (s : Reading) (n : Nat) : Option Reading :=
  if s.coefficient = none then some { s with coefficient := some (.numeral n) } else none

def readZero (s : Reading) : Option Reading :=
  if s.coefficient = none ∧ s.unit ≠ none ∧ s.gap = false then some { s with gap := true } else none

/-- A character that is no digit. -/
def readSign (s : Reading) : Nat → Option Reading
  | zero => s.readZero
  | ten => s.readUnit 10
  | hundred => s.readUnit 100
  | thousand => s.readUnit 1000
  | myriad => s.readMyriad
  | c => (_ZH_DIGITS.lookup c).bind s.readNumeral

/-- The next character of a run. -/
def step (U : Digits) (s : Reading) (c : Nat) : Option Reading :=
  match U.value c with
  | some d => s.readDigit d
  | none => s.readSign c

end Reading

/-- The number a run of digits and numerals stands for, if it stands for one. -/
def runValue (U : Digits) (r : Text) : Option Nat :=
  (r.foldlM (Reading.step U) Reading.start).bind Reading.finish

/-- The ten digits of ASCII. -/
def Digits.ofAscii : Digits where
  value c := if 48 ≤ c ∧ c ≤ 57 then some (c - 48) else none
  value_lt := by
    intro c v h
    split at h
    · obtain rfl := Option.some.inj h
      omega
    · contradiction
  ascii := by
    intro v hv
    rw [if_pos (by omega), Nat.add_sub_cancel_left]
  not_numeral := by decide

end RentCompass.ZhMoney
