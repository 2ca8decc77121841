import Mathlib.Data.List.Sort
import RentCompass.Agent.CommuteKeys
import RentCompass.Joined

/-!
# Stated durations

`figure_spans` finds the durations of a text: first hours and minutes in digits, then hours in
words, then minutes in digits, where what is found before is blanked, and last the phrases of a
list, each where it first stands.
-/

namespace RentCompass.Commute

/-! ### Characters and numbers -/

/-- Letters with the characters `\d` matches. `str.lower` makes two characters of `İ` alone. -/
structure Casing extends Letters where
  isDigit : Nat → Bool
  isWord_digit : ∀ c, isDigit c → isWord c
  isWord_dotted : isWord 0x130
  length_lowerChar : ∀ c, (lowerChar c).length = if c = 0x130 then 2 else 1

/-- `float` of digits, its order, and the arithmetic on it. -/
structure Floats (V : Type) where
  float : Text → V
  /-- `x * 60 + y` -/
  sixty : V → V → V
  ofNat : Nat → V
  ofNat_inj : ∀ m n, ofNat m = ofNat n → m = n

/-- `(start, end, minutes)` -/
structure Span (V : Type) where
  start : Nat
  stop : Nat
  minutes : V
deriving DecidableEq

/-- The order of tuples. -/
def Span.le {V : Type} [LE V] (s s' : Span V) : Prop :=
  s.start < s'.start ∨ s.start = s'.start ∧
    (s.stop < s'.stop ∨ s.stop = s'.stop ∧ s.minutes ≤ s'.minutes)

instance {V : Type} [LE V] [DecidableRel (α := V) (· ≤ ·)] :
    DecidableRel (Span.le (V := V)) := fun _ _ =>
  inferInstanceAs (Decidable (_ ∨ _ ∧ (_ ∨ _ ∧ _)))

/-! ### The expressions -/

/-- A letter of an expression that ignores case. -/
def matchesLetter (l c : Nat) : Bool :=
  c == l || c + 32 == l || (l == 105 && (c == 0x130 || c == 0x131)) || (l == 115 && c == 0x17F) ||
    (l == 107 && c == 0x212A)

/-- A word of an expression that ignores case. -/
def word (s : String) : Regex Nat := .concat ((Text.ofString s).map fun l => .char (matchesLetter l))

def oneOfWords (ss : List String) : Regex Nat := .oneOf (ss.map word)

/-- A word with or without an `s`. -/
def plural (s : String) : Regex Nat := .seq (word s) (.opt (word "s"))

/-- `\b` -/
def wordBoundary (C : Casing) : Regex Nat :=
  .beside fun before after => before.any C.isWord != after.any C.isWord

/-- `(?<![\d.])` -/
def noNumberBefore (C : Casing) : Regex Nat :=
  .beside fun before _ => !before.any fun c => C.isDigit c || c == 46

/-- `_MORE` -/
def _MORE : Regex Nat :=
  .opt (.seq (oneOfWords ["extra", "more", "additional", "fewer", "less"])
    (.plus fun c => c == 32 || c == 9))

/-- `\d{1,2}` -/
def twoDigits (C : Casing) : Regex Nat := .seq (.char C.isDigit) (.upTo 1 C.isDigit)

/-- `HOURS_AND_MINUTES` -/
def HOURS_AND_MINUTES (C : Casing) : Pattern Nat Nat :=
  .concat [
    .plain (noNumberBefore C),
    .group 1 (.seq (twoDigits C) (.opt (.seq (.char (· == 46)) (.char C.isDigit)))),
    .plain (.star Text.isSpace), .plain _MORE,
    .plain (.oneOf [plural "hour", plural "hr", word "h"]), .plain (wordBoundary C),
    .opt (.concat [
      .plain (.star Text.isSpace), .plain (.opt (.seq (word "and") (.plus Text.isSpace))),
      .group 2 (twoDigits C), .plain (.star Text.isSpace),
      .plain (.oneOf [plural "minute", plural "min"]), .plain (wordBoundary C)])]

/-- `MINUTES` -/
def MINUTES (C : Casing) : Pattern Nat Nat :=
  .concat [
    .plain (noNumberBefore C),
    .group 1 (.seq (.plus C.isDigit) (.opt (.seq (.char (· == 46)) (.plus C.isDigit)))),
    .plain (.star fun c => Text.isSpace c || c == 45 || c == 0x2013), .plain _MORE,
    .plain (.oneOf [plural "minute", .seq (plural "min") (wordBoundary C),
      .seq (.char (· == 0x5206)) (.char (· == 0x949F))])]

/-- `_HOUR_WORDS` -/
def _HOUR_WORDS : List (Text × Nat) :=
  [("one", 1), ("two", 2), ("three", 3), ("four", 4), ("five", 5), ("six", 6), ("seven", 7),
    ("eight", 8), ("nine", 9), ("ten", 10)].map fun p => (Text.ofString p.1, p.2)

/-- `_WORD_HOURS` -/
def _WORD_HOURS (C : Casing) : Pattern Nat Nat :=
  .concat [
    .plain (wordBoundary C),
    .group 1 (oneOfWords ["one", "two", "three", "four", "five", "six", "seven", "eight", "nine",
      "ten"]),
    .plain (.plus Text.isSpace),
    .opt (.concat [
      .plain (word "and"), .plain (.plus Text.isSpace), .plain (word "a"),
      .plain (.opt (word "n")), .plain (.plus Text.isSpace),
      .group 2 (oneOfWords ["half", "quarter"]), .plain (.plus Text.isSpace)]),
    .plain (plural "hour"), .plain (wordBoundary C)]

/-- `DURATION_WORDS` -/
def DURATION_WORDS : List (Text × Nat) :=
  [("an hour and a half", 90), ("one and a half hours", 90), ("an hour and a quarter", 75),
    ("three quarters of an hour", 45), ("half an hour", 30), ("half-an-hour", 30),
    ("a half hour", 30), ("a quarter of an hour", 15), ("quarter of an hour", 15),
    ("two hours", 120), ("an hour", 60), ("one hour", 60)].map fun p => (Text.ofString p.1, p.2)

/-! ### The spans -/

section

variable {V : Type}

/-- `m.group(i)` -/
def group (groups : Pattern.Groups Nat Nat) (i : Nat) : Option Text := groups.lookup i

/-- The minutes of hours and minutes. -/
def hoursAndMinutes (F : Floats V) (groups : Pattern.Groups Nat Nat) : V :=
  F.sixty (F.float ((group groups 1).getD []))
    (match group groups 2 with
      | some minutes => F.float minutes
      | none => F.ofNat 0)

/-- `_word_hours`, with no value where the number word is not in the table. -/
def _word_hours (C : Casing) (F : Floats V) (groups : Pattern.Groups Nat Nat) : Option V :=
  let extra := ([(Text.ofString "half", 30), (Text.ofString "quarter", 15)].lookup
    (C.lower ((group groups 2).getD []))).getD 0
  (_HOUR_WORDS.lookup (C.lower ((group groups 1).getD []))).map fun hours =>
    F.ofNat (hours * 60 + extra)

/-- `p.sub(lambda m: " " * len(m.group()), text)` -/
def mask (p : Pattern Nat Nat) (text : Text) : Text :=
  p.sub (fun m => List.replicate m.text.length 32) text

/-- The span of a match. -/
def spanOf (value : Pattern.Groups Nat Nat → V) (m : Nat × Pattern.Found Nat Nat) : Span V :=
  { start := m.1, stop := m.1 + m.2.text.length, minutes := value m.2.groups }

/-- The span of a match that may have no value. -/
def spanOf? (value : Pattern.Groups Nat Nat → Option V) (m : Nat × Pattern.Found Nat Nat) :
    Option (Span V) := (value m.2.groups).map fun minutes => spanOf (fun _ => minutes) m

/-- `words[:at] + " " * len(phrase) + words[at + len(phrase):]` -/
def blank (words : Text) (start n : Nat) : Text :=
  words.take start ++ List.replicate n 32 ++ words.drop (start + n)

/-- The phrases in their order, each where it first stands in what the earlier ones leave. -/
def phraseSpans (F : Floats V) : List (Text × Nat) → Text → List (Span V)
  | [], _ => []
  | (phrase, value) :: rest, words =>
    match phrase.firstAt words with
    | some start =>
      { start := start, stop := start + phrase.length, minutes := F.ofNat value } ::
        phraseSpans F rest (blank words start phrase.length)
    | none => phraseSpans F rest words

/-- The spans of hours and minutes. -/
def hoursSpans (C : Casing) (F : Floats V) (text : Text) : List (Span V) :=
  ((HOURS_AND_MINUTES C).locate text).map (spanOf (hoursAndMinutes F))

/-- The spans of hours in words. -/
def wordHoursSpans (C : Casing) (F : Floats V) (masked : Text) : Option (List (Span V)) :=
  ((_WORD_HOURS C).locate masked).mapM (spanOf? (_word_hours C F))

/-- The spans of minutes. -/
def minutesSpans (C : Casing) (F : Floats V) (masked : Text) : List (Span V) :=
  ((MINUTES C).locate masked).map (spanOf fun groups => F.float ((group groups 1).getD []))

/-- `figure_spans`, with no answer where a number word is not in the table. -/
def figure_spans [LE V] [DecidableRel (α := V) (· ≤ ·)] (C : Casing) (F : Floats V) (text : Text) :
    Option (List (Span V)) := do
  let spans := hoursSpans C F text
  let masked := mask (HOURS_AND_MINUTES C) text
  let spans := spans ++ (← wordHoursSpans C F masked)
  let masked := mask (_WORD_HOURS C) masked
  let spans := spans ++ minutesSpans C F masked
  return (spans ++ phraseSpans F DURATION_WORDS (C.lower masked)).insertionSort Span.le

end

end RentCompass.Commute
