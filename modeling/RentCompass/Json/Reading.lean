import Mathlib.Data.Nat.Digits.Lemmas
import RentCompass.Json.Dumps

/-!
# Reading JSON texts

What `json.loads` reads of numbers, of strings, and of arrays and objects that are made up of texts
it reads, with blanks wherever the grammar allows them.
-/

namespace JsonValue

/-! ### Number tokens -/

/-- A non-empty run of digits. -/
def IsDigits (t : Text) : Prop := t ≠ [] ∧ ∀ c ∈ t, isDigit c

/-- The integer part of a number. -/
def IsInt (t : Text) : Prop := t = [48] ∨ t.head? ≠ some 48 ∧ IsDigits t

/-- A fraction, or none. -/
def IsFraction (t : Text) : Prop := t = [] ∨ ∃ digits, IsDigits digits ∧ t = 46 :: digits

/-- An exponent, or none. -/
def IsExponent (t : Text) : Prop :=
  t = [] ∨ ∃ sign digits, sign ∈ [[], [45], [43]] ∧ IsDigits digits ∧ t = 101 :: (sign ++ digits)

/-- The parts of a number token. -/
structure IsNumber (sign digits fraction exponent : Text) : Prop where
  sign : sign ∈ [[], [45]]
  digits : IsInt digits
  fraction : IsFraction fraction
  exponent : IsExponent exponent

/-- The text after a number does not go on with it. -/
def EndsNumber (rest : Text) : Prop :=
  ∀ c ∈ rest.head?, isDigit c = false ∧ c ≠ 46 ∧ c ≠ 101 ∧ c ≠ 69

lemma IsDigits.head {t : Text} (h : IsDigits t) : ∃ c t', t = c :: t' ∧ isDigit c := by
  cases t with
  | nil => exact absurd rfl h.1
  | cons c t => exact ⟨c, t, rfl, h.2 c (by simp)⟩

lemma IsInt.isDigits {t : Text} (h : IsInt t) : IsDigits t := by
  rcases h with rfl | h
  · exact ⟨by simp, by decide⟩
  · exact h.2

lemma digitsOf_append {digits rest : Text} (h : ∀ c ∈ digits, isDigit c)
    (hr : ∀ c ∈ rest.head?, isDigit c = false) : digitsOf (digits ++ rest) = (digits, rest) := by
  have htake : rest.takeWhile isDigit = [] := by
    cases rest with
    | nil => rfl
    | cons c rest => simp [hr c (by simp)]
  have hdrop : rest.dropWhile isDigit = rest := by
    cases rest with
    | nil => rfl
    | cons c rest => simp [hr c (by simp)]
  simp only [digitsOf, List.takeWhile_append_of_pos h, List.dropWhile_append_of_pos h, htake,
    hdrop, List.append_nil]

lemma readInt_append {digits rest : Text} (h : IsInt digits)
    (hr : ∀ c ∈ rest.head?, isDigit c = false) :
    readInt (digits ++ rest) = some (digits, rest) := by
  rcases h with rfl | ⟨h48, h⟩
  · rfl
  · obtain ⟨c, t, rfl, hc⟩ := h.head
    have hne : c ≠ 48 := by simpa using h48
    have := digitsOf_append h.2 hr
    simp only [List.cons_append] at this ⊢
    simp [readInt, hc, this]

lemma readFraction_append {fraction rest : Text} (h : IsFraction fraction)
    (hr : ∀ c ∈ rest.head?, isDigit c = false ∧ c ≠ 46) :
    readFraction (fraction ++ rest) = (fraction, rest) := by
  rcases h with rfl | ⟨digits, h, rfl⟩
  · cases rest with
    | nil => rfl
    | cons c rest =>
      have := (hr c (by simp)).2
      simp [readFraction, this]
  · have := digitsOf_append h.2 fun c hc => (hr c hc).1
    obtain ⟨c, t, rfl, hc⟩ := h.head
    simp only [List.cons_append] at this ⊢
    simp [readFraction, hc, this]

lemma readSign_of_notMem {signs : Text} {c : Nat} {t : Text} (h : c ∉ signs) :
    readSign signs (c :: t) = ([], c :: t) := by
  simp [readSign, h]

lemma isDigit_ne {c d : Nat} (hc : isDigit c) (hd : isDigit d = false) : c ≠ d := by
  rintro rfl
  simp [hc] at hd

lemma readSign_append {signs sign digits rest : Text} (hs : sign = [] ∨ ∃ s ∈ signs, sign = [s])
    (hsigns : ∀ s ∈ signs, isDigit s = false) (h : IsDigits digits) :
    readSign signs (sign ++ digits ++ rest) = (sign, digits ++ rest) := by
  rcases hs with rfl | ⟨s, hs, rfl⟩
  · obtain ⟨c, t, rfl, hc⟩ := h.head
    simp only [List.nil_append, List.cons_append]
    exact readSign_of_notMem fun hm => by simp [hsigns c hm] at hc
  · simp [readSign, hs]

lemma readExponent_append {exponent rest : Text} (h : IsExponent exponent)
    (hr : ∀ c ∈ rest.head?, isDigit c = false ∧ c ≠ 101 ∧ c ≠ 69) :
    readExponent (exponent ++ rest) = (exponent, rest) := by
  rcases h with rfl | ⟨sign, digits, hsign, h, rfl⟩
  · cases rest with
    | nil => rfl
    | cons c rest =>
      have := hr c (by simp)
      simp [readExponent, this.2.1, this.2.2]
  · have hsign' : readSign [45, 43] (sign ++ digits ++ rest) = (sign, digits ++ rest) :=
      readSign_append (by simp at hsign; simpa using hsign) (by decide) h
    have hdigits := digitsOf_append h.2 fun c hc => (hr c hc).1
    simp only [List.cons_append, readExponent, hsign', hdigits]
    simp [h.1]

lemma IsFraction.head {fraction rest : Text} (h : IsFraction fraction)
    (hr : ∀ c ∈ rest.head?, isDigit c = false) :
    ∀ c ∈ (fraction ++ rest).head?, isDigit c = false := by
  rcases h with rfl | ⟨digits, h, rfl⟩
  · simpa using hr
  · intro c hc
    simp only [List.cons_append, List.head?_cons, Option.mem_some_iff] at hc
    subst hc
    decide

lemma IsExponent.head {exponent rest : Text} (h : IsExponent exponent) {p : Nat → Prop}
    (hp : p 101) (hr : ∀ c ∈ rest.head?, p c) : ∀ c ∈ (exponent ++ rest).head?, p c := by
  rcases h with rfl | ⟨sign, digits, _, h, rfl⟩
  · simpa using hr
  · intro c hc
    simp only [List.cons_append, List.head?_cons, Option.mem_some_iff] at hc
    exact hc ▸ hp

variable {φ : Type} [FloatFormat φ]

/-- A number token is read whole, as the number its parts stand for. -/
lemma readNumber_append {sign digits fraction exponent rest : Text}
    (h : IsNumber sign digits fraction exponent) (hr : EndsNumber rest) :
    readNumber (φ := φ) (sign ++ digits ++ fraction ++ exponent ++ rest) =
      some (numberOf sign digits fraction exponent, rest) := by
  have hexp : ∀ c ∈ (exponent ++ rest).head?, isDigit c = false ∧ c ≠ 46 :=
    h.exponent.head (by decide) fun c hc => ⟨(hr c hc).1, (hr c hc).2.1⟩
  have hsign : readSign [45] (sign ++ digits ++ (fraction ++ (exponent ++ rest))) =
      (sign, digits ++ (fraction ++ (exponent ++ rest))) :=
    readSign_append (by have := h.sign; simp at this; simpa using this) (by decide)
      h.digits.isDigits
  have hint : readInt (digits ++ (fraction ++ (exponent ++ rest))) =
      some (digits, fraction ++ (exponent ++ rest)) :=
    readInt_append h.digits (h.fraction.head fun c hc => (hexp c hc).1)
  have hfrac : readFraction (fraction ++ (exponent ++ rest)) = (fraction, exponent ++ rest) :=
    readFraction_append h.fraction hexp
  have hexpo : readExponent (exponent ++ rest) = (exponent, rest) :=
    readExponent_append h.exponent fun c hc => ⟨(hr c hc).1, (hr c hc).2.2⟩
  rw [List.append_assoc, List.append_assoc]
  simp only [readNumber, hsign, hint, Option.map_some, hfrac, hexpo]

/-! ### Integers -/

lemma isDigit_add {d : Nat} (h : d < 10) : isDigit (d + 48) := by
  simp only [isDigit, Bool.and_eq_true, decide_eq_true_eq]
  omega

lemma decimal_isInt (n : Nat) : IsInt (decimal n) := by
  by_cases hn : n = 0
  · exact .inl (by simp [decimal, hn])
  · right
    have hne : Nat.digits 10 n ≠ [] := Nat.digits_ne_nil_iff_ne_zero.2 hn
    have hlast := Nat.getLast_digit_ne_zero 10 hn
    refine ⟨?_, ?_, ?_⟩
    · simp only [decimal, hn, if_false, List.head?_reverse, List.getLast?_map]
      rw [List.getLast?_eq_some_getLast hne]
      simpa using hlast
    · simp [decimal, hn, hne]
    · intro c hc
      simp only [decimal, hn, if_false, List.mem_reverse, List.mem_map] at hc
      obtain ⟨d, hd, rfl⟩ := hc
      exact isDigit_add (Nat.digits_lt_base (by decide) hd)

lemma digitsValue_decimal (n : Nat) : digitsValue (decimal n) = n := by
  by_cases hn : n = 0
  · simp [decimal, hn, digitsValue]
  · simp only [digitsValue, decimal, hn, if_false, List.map_reverse, List.reverse_reverse,
      List.map_map]
    have : (Nat.digits 10 n).map ((· - 48) ∘ (· + 48)) = Nat.digits 10 n := by
      simp [Function.comp_def]
    rw [this, Nat.ofDigits_digits]

/-- The text of an integer is a number token that stands for it. -/
lemma intText_isNumber (n : Int) : ∃ sign digits, IsNumber sign digits [] [] ∧
    intText n = sign ++ digits ++ [] ++ [] ∧ numberOf (φ := φ) sign digits [] [] = .int n := by
  by_cases hn : n < 0
  · refine ⟨[45], decimal n.natAbs, ⟨by simp, decimal_isInt _, .inl rfl, .inl rfl⟩, ?_, ?_⟩
    · simp [intText, hn]
    · simp [numberOf, digitsValue_decimal, abs_of_neg hn]
  · refine ⟨[], decimal n.natAbs, ⟨by simp, decimal_isInt _, .inl rfl, .inl rfl⟩, ?_, ?_⟩
    · simp [intText, hn]
    · simp [numberOf, digitsValue_decimal, abs_of_nonneg (not_lt.1 hn)]

/-! ### Strings -/

lemma hexValue_hexDigit {n : Nat} (h : n < 16) : hexValue (hexDigit n) = some n := by
  revert n
  decide

lemma readString_escapeChar (c n : Nat) (t : Text) :
    readString (n + 1) (escapeChar c ++ t) =
      (readString n t).map fun p => (c :: p.1, p.2) := by
  have hchar : ∀ c : Nat, ¬ (c < 32 ∨ c = 92) → c ≠ 34 →
      readString (n + 1) (c :: t) = (readString n t).map fun p => (c :: p.1, p.2) := by
    intro c hc h34
    have h92 : c ≠ 92 := fun h => hc (.inr h)
    rw [readString]
    · simp only [hc, if_false]
      cases readString n t <;> simp
    · exact h34
    · exact fun _ _ h => absurd h h92
  have hshort : ∀ c d : Nat, shortEscape d = some c → d ≠ 117 →
      readString (n + 1) (92 :: d :: t) = (readString n t).map fun p => (c :: p.1, p.2) := by
    intro c d hd h117
    simp only [readString, h117, if_false, hd, Option.map_some, Option.bind_eq_bind,
      Option.bind_some]
    cases readString n t <;> rfl
  have hunicode : c < 32 → readString (n + 1)
      (92 :: 117 :: 48 :: 48 :: hexDigit (c / 16) :: hexDigit (c % 16) :: t) =
      (readString n t).map fun p => (c :: p.1, p.2) := by
    intro hc
    have hval : 16 * (c / 16) + c % 16 = c := Nat.div_add_mod c 16
    have hhex : hexEscape (48 :: 48 :: hexDigit (c / 16) :: hexDigit (c % 16) :: t) =
        some (c, t) := by
      simp [hexEscape, hexValue_hexDigit (show c / 16 < 16 by omega),
        hexValue_hexDigit (show c % 16 < 16 by omega), hval,
        show hexValue 48 = some 0 by decide]
    have hlow : ¬ (0xD800 ≤ c ∧ c ≤ 0xDBFF) := by omega
    have : unicodeEscape (48 :: 48 :: hexDigit (c / 16) :: hexDigit (c % 16) :: t) =
        some (c, t) := by
      simp [unicodeEscape, hhex, hlow]
    simp only [readString, if_true, this, Option.bind_eq_bind, Option.bind_some]
    cases readString n t <;> rfl
  unfold escapeChar
  split
  · exact hshort _ _ (by decide) (by decide)
  · exact hshort _ _ (by decide) (by decide)
  · exact hshort _ _ (by decide) (by decide)
  · exact hshort _ _ (by decide) (by decide)
  · exact hshort _ _ (by decide) (by decide)
  · exact hshort _ _ (by decide) (by decide)
  · exact hshort _ _ (by decide) (by decide)
  · split_ifs with hc
    · exact hunicode hc
    · exact hchar c (not_or.2 ⟨hc, by assumption⟩) (by assumption)

lemma escapeChar_ne_nil (c : Nat) : escapeChar c ≠ [] := by
  unfold escapeChar
  split <;> simp
  split_ifs <;> simp

/-- A string is read up to its closing quote. -/
lemma readString_append (s rest : Text) {n : Nat} (h : s.length < n) :
    readString n (s.flatMap escapeChar ++ quote :: rest) = some (s, rest) := by
  induction s generalizing n with
  | nil =>
    obtain ⟨n, rfl⟩ := Nat.exists_eq_succ_of_ne_zero (by omega : n ≠ 0)
    simp [readString]
  | cons c s ih =>
    obtain ⟨n, rfl⟩ := Nat.exists_eq_succ_of_ne_zero (by omega : n ≠ 0)
    simp only [List.flatMap_cons, List.append_assoc, Nat.succ_eq_add_one]
    rw [readString_escapeChar, ih (by simpa using h)]
    rfl

lemma length_flatMap_escapeChar (s : Text) : s.length ≤ (s.flatMap escapeChar).length := by
  induction s with
  | nil => simp
  | cons c s ih =>
    have := List.length_pos_iff.2 (escapeChar_ne_nil c)
    simp only [List.flatMap_cons, List.length_cons, List.length_append]
    omega

lemma readString_stringText (s rest : Text) :
    readString ((s.flatMap escapeChar ++ quote :: rest).length + 1)
      (s.flatMap escapeChar ++ quote :: rest) = some (s, rest) := by
  apply readString_append
  have := length_flatMap_escapeChar s
  simp only [List.length_append]
  omega

/-- A character a value may start with. -/
def Starts (c : Nat) : Prop := isSpace c = false ∧ c ≠ closeArr ∧ c ≠ closeObj

lemma skipSpace_of_starts {c : Nat} (h : isSpace c = false) (t : Text) :
    skipSpace (c :: t) = c :: t := by
  simp [skipSpace, h]

lemma skipSpace_blanks {n c : Nat} (h : isSpace c = false) (t : Text) :
    skipSpace (List.replicate n 32 ++ c :: t) = c :: t := by
  induction n with
  | zero => exact skipSpace_of_starts h t
  | succ n ih => simpa [skipSpace, List.replicate_succ, isSpace] using ih

lemma starts_of_isDigit {c : Nat} (h : isDigit c) : Starts c := by
  refine ⟨?_, ?_, ?_⟩
  · simp only [isDigit, Bool.and_eq_true, decide_eq_true_eq] at h
    simp only [isSpace, Bool.or_eq_false_iff, beq_eq_false_iff_ne]
    omega
  · rintro rfl
    exact absurd h (by decide)
  · rintro rfl
    exact absurd h (by decide)

/-- A float of the format is written as a number token that stands for it. -/
class LawfulFloatFormat (φ : Type) [FloatFormat φ] : Prop where
  token : ∀ x : φ, FloatFormat.isFinite x → ∃ sign digits fraction exponent,
    IsNumber sign digits fraction exponent ∧ ¬ (fraction = [] ∧ exponent = []) ∧
      FloatFormat.text x = sign ++ digits ++ fraction ++ exponent
  ofToken_text : ∀ x : φ, FloatFormat.isFinite x → FloatFormat.ofToken (FloatFormat.text x) = x

instance : LawfulFloatFormat NonFinite where
  token _ h := absurd h Bool.false_ne_true
  ofToken_text _ h := absurd h Bool.false_ne_true

lemma IsNumber.head {sign digits fraction exponent : Text}
    (h : IsNumber sign digits fraction exponent) :
    ∃ c t, sign ++ digits ++ fraction ++ exponent = c :: t ∧ (c = minus ∨ isDigit c) := by
  obtain ⟨d, t, hd, hdig⟩ := h.digits.isDigits.head
  have hs := h.sign
  simp only [List.mem_cons, List.not_mem_nil, or_false] at hs
  rcases hs with rfl | rfl
  · exact ⟨d, t ++ fraction ++ exponent, by simp [hd], .inr hdig⟩
  · exact ⟨45, digits ++ fraction ++ exponent, by simp, .inl rfl⟩

lemma readValue_digit {c : Nat} (h : isDigit c) (n : Nat) (t : Text) :
    readValue (φ := φ) (n + 1) (c :: t) = readNumber (c :: t) := by
  have : c ≠ 34 ∧ c ≠ 91 ∧ c ≠ 123 ∧ c ≠ 110 ∧ c ≠ 116 ∧ c ≠ 102 ∧ c ≠ 78 ∧ c ≠ 73 ∧ c ≠ 45 := by
    simp only [isDigit, Bool.and_eq_true, decide_eq_true_eq] at h
    omega
  rw [readValue] <;> simp [this]

lemma readValue_minus {c : Nat} (h : isDigit c) (n : Nat) (t : Text) :
    readValue (φ := φ) (n + 1) (45 :: c :: t) = readNumber (45 :: c :: t) := by
  have : c ≠ 73 := by
    rintro rfl
    exact absurd h (by decide)
  rw [readValue] <;> simp [this]

/-- A number token is read as a value. -/
lemma readValue_number {sign digits fraction exponent rest : Text}
    (h : IsNumber sign digits fraction exponent) (hr : EndsNumber rest) (n : Nat) :
    readValue (φ := φ) (n + 1) (sign ++ digits ++ fraction ++ exponent ++ rest) =
      some (numberOf sign digits fraction exponent, rest) := by
  rw [← readNumber_append (φ := φ) h hr]
  obtain ⟨d, t, rfl, hd⟩ := h.digits.isDigits.head
  have hs := h.sign
  simp only [List.mem_cons, List.not_mem_nil, or_false] at hs
  rcases hs with rfl | rfl
  · exact readValue_digit hd n _
  · exact readValue_minus hd n _

lemma endsNumber_cons {c : Nat} (h : isDigit c = false ∧ c ≠ 46 ∧ c ≠ 101 ∧ c ≠ 69) (t : Text) :
    EndsNumber (c :: t) := by
  simpa [EndsNumber] using h

/-! ### Values in other texts -/

/-- A text is read as a value, whatever follows it. -/
structure Reads (t : Text) (v : JsonValue φ) : Prop where
  head : ∃ c u, t = c :: u ∧ Starts c
  reads : ∀ n rest, t.length < n → EndsNumber rest → readValue n (t ++ rest) = some (v, rest)

/-- The characters of a string are read as a text, up to the closing quote. -/
def ReadsString (body s : Text) : Prop :=
  ∀ rest, readString ((body ++ quote :: rest).length + 1) (body ++ quote :: rest) = some (s, rest)

def Blank (t : Text) : Prop := ∀ c ∈ t, isSpace c

lemma blank_nil : Blank [] := by
  simp [Blank]

lemma Blank.append {t t' : Text} (h : Blank t) (h' : Blank t') : Blank (t ++ t') := by
  intro c hc
  rcases List.mem_append.1 hc with hc | hc
  · exact h c hc
  · exact h' c hc

lemma blank_replicate (n : Nat) : Blank (List.replicate n 32) := by
  intro c hc
  rw [List.eq_of_mem_replicate hc]
  rfl

lemma skipSpace_blank {ws : Text} (h : Blank ws) {c : Nat} (hc : isSpace c = false) (t : Text) :
    skipSpace (ws ++ c :: t) = c :: t := by
  rw [skipSpace, List.dropWhile_append_of_pos h]
  exact skipSpace_of_starts hc t

lemma endsNumber_of_isSpace {c : Nat} (h : isSpace c) (t : Text) : EndsNumber (c :: t) := by
  simp only [isSpace, Bool.or_eq_true, beq_iff_eq] at h
  apply endsNumber_cons
  rcases h with ((rfl | rfl) | rfl) | rfl <;> decide

/-- A number ends before blanks. -/
lemma endsNumber_blank {ws : Text} (h : Blank ws) {c : Nat}
    (hc : isDigit c = false ∧ c ≠ 46 ∧ c ≠ 101 ∧ c ≠ 69) (t : Text) : EndsNumber (ws ++ c :: t) := by
  cases ws with
  | nil => exact endsNumber_cons hc t
  | cons d ws => exact endsNumber_of_isSpace (h d (by simp)) _

lemma reads_null : Reads (Text.ofString "null") (.null : JsonValue φ) where
  head := ⟨110, _, rfl, by decide, by decide, by decide⟩
  reads n rest hn _ := by
    obtain ⟨n, rfl⟩ := Nat.exists_eq_succ_of_ne_zero (by omega : n ≠ 0)
    rfl

lemma reads_true : Reads (Text.ofString "true") (.bool true : JsonValue φ) where
  head := ⟨116, _, rfl, by decide, by decide, by decide⟩
  reads n rest hn _ := by
    obtain ⟨n, rfl⟩ := Nat.exists_eq_succ_of_ne_zero (by omega : n ≠ 0)
    rfl

lemma reads_false : Reads (Text.ofString "false") (.bool false : JsonValue φ) where
  head := ⟨102, _, rfl, by decide, by decide, by decide⟩
  reads n rest hn _ := by
    obtain ⟨n, rfl⟩ := Nat.exists_eq_succ_of_ne_zero (by omega : n ≠ 0)
    rfl

lemma reads_number {sign digits fraction exponent : Text}
    (h : IsNumber sign digits fraction exponent) :
    Reads (sign ++ digits ++ fraction ++ exponent)
      (numberOf sign digits fraction exponent : JsonValue φ) where
  head := by
    obtain ⟨c, u, hc, rfl | hdigit⟩ := h.head
    · exact ⟨_, u, hc, by decide, by decide, by decide⟩
    · exact ⟨c, u, hc, starts_of_isDigit hdigit⟩
  reads n rest hn hrest := by
    obtain ⟨n, rfl⟩ := Nat.exists_eq_succ_of_ne_zero (by omega : n ≠ 0)
    exact readValue_number h hrest n

lemma reads_int (m : Int) : Reads (intText m) (.int m : JsonValue φ) := by
  obtain ⟨sign, digits, hnumber, htext, hvalue⟩ := intText_isNumber (φ := φ) m
  rw [htext, ← hvalue]
  exact reads_number hnumber

lemma reads_float [LawfulFloatFormat φ] {x : φ} (hx : FloatFormat.isFinite x) :
    Reads (FloatFormat.text x) (.float x) := by
  obtain ⟨sign, digits, fraction, exponent, hnumber, hparts, htext⟩ := LawfulFloatFormat.token x hx
  have hvalue : numberOf sign digits fraction exponent = JsonValue.float x := by
    rw [numberOf, if_neg hparts, ← htext, LawfulFloatFormat.ofToken_text x hx]
  rw [htext, ← hvalue]
  exact reads_number hnumber

lemma reads_str {body s : Text} (h : ReadsString body s) :
    Reads (quote :: body ++ [quote]) (.str s : JsonValue φ) where
  head := ⟨34, _, rfl, by decide, by decide, by decide⟩
  reads n rest hn _ := by
    obtain ⟨n, rfl⟩ := Nat.exists_eq_succ_of_ne_zero (by omega : n ≠ 0)
    have := h rest
    simp only [List.cons_append, List.append_assoc, List.nil_append, readValue, this,
      Option.map_some]

/-! ### Arrays -/

/-- Texts with commas between them. -/
def commas (ts : List Text) : Text := [comma].intercalate ts

lemma commas_cons (t : Text) (ts : List Text) : ∃ e, commas (t :: ts) = t ++ e := by
  cases ts with
  | nil => exact ⟨[], by simp [commas]⟩
  | cons u ts => exact ⟨comma :: commas (u :: ts), by simp [commas, List.intercalate_cons_cons]⟩

lemma commas_append (lead t : Text) (ts : List Text) :
    commas ((lead ++ t) :: ts) = lead ++ commas (t :: ts) := by
  cases ts <;> simp [commas, List.intercalate_cons_cons]

/-- The blanks behind a comma may be taken for the beginning of the text behind it. -/
lemma intercalate_blanks (ws t : Text) (ts : List Text) :
    (comma :: ws).intercalate (t :: ts) = commas (t :: ts.map (ws ++ ·)) := by
  induction ts generalizing t with
  | nil => simp [commas]
  | cons u ts ih =>
    have hmore : (comma :: ws).intercalate ((ws ++ u) :: ts) = ws ++ (comma :: ws).intercalate (u :: ts) := by
      cases ts <;> simp [List.intercalate_cons_cons]
    rw [commas, List.map_cons, List.intercalate_cons_cons, List.intercalate_cons_cons, ← commas,
      ← ih, hmore]
    simp

/-- An item of an array: blanks, the text of its value, and blanks. -/
structure Item (φ : Type) where
  before : Text
  text : Text
  after : Text
  value : JsonValue φ

structure Item.Good (i : Item φ) : Prop where
  before : Blank i.before
  reads : Reads i.text i.value
  after : Blank i.after

def Item.written (i : Item φ) : Text := i.before ++ (i.text ++ i.after)

lemma Item.Good.skipSpace {i : Item φ} (h : i.Good) (rest : Text) :
    skipSpace (i.written ++ rest) = i.text ++ (i.after ++ rest) := by
  obtain ⟨c, u, hc, hspace, -⟩ := h.reads.head
  rw [Item.written, hc, List.append_assoc, List.cons_append, List.cons_append,
    skipSpace_blank h.before hspace]
  simp

section ReadItem

variable {n : Nat} {t rest u w : Text} {v : JsonValue φ} (hv : readValue n t = some (v, rest))
include hv

lemma readItems_last (hrest : skipSpace rest = 93 :: u) :
    readItems (n + 1) t = some ([v], u) := by
  simp [readItems, hv, hrest]

lemma readItems_more {vs : List (JsonValue φ)} (hrest : skipSpace rest = 44 :: u)
    (hmore : readItems n (skipSpace u) = some (vs, w)) :
    readItems (n + 1) t = some (v :: vs, w) := by
  simp [readItems, hv, hrest, hmore]

end ReadItem

lemma readItems_commas {items : List (Item φ)} (hne : items ≠ []) (h : ∀ i ∈ items, i.Good)
    {closing : Text} (hclosing : Blank closing) (rest : Text) (n : Nat)
    (hn : (commas (items.map Item.written)).length + 1 < n) :
    readItems n (skipSpace (commas (items.map Item.written) ++ (closing ++ closeArr :: rest))) =
      some (items.map Item.value, rest) := by
  induction items generalizing n with
  | nil => exact absurd rfl hne
  | cons i items ih =>
    obtain ⟨n, rfl⟩ := Nat.exists_eq_succ_of_ne_zero (by omega : n ≠ 0)
    have hi := h i (by simp)
    cases items with
    | nil =>
      simp only [commas, List.map_cons, List.map_nil, List.intercalate_singleton, Item.written,
        List.length_append] at hn
      simp only [commas, List.map_cons, List.map_nil, List.intercalate_singleton]
      rw [hi.skipSpace, ← List.append_assoc i.after]
      have hblank := hi.after.append hclosing
      exact readItems_last (hi.reads.reads n _ (by omega) (endsNumber_blank hblank (by decide) _))
        (skipSpace_blank hblank (by decide) _)
    | cons j items =>
      have hbody : commas ((i :: j :: items).map Item.written) =
          i.written ++ comma :: commas ((j :: items).map Item.written) := by
        simp [commas, List.intercalate_cons_cons]
      rw [hbody] at hn ⊢
      simp only [List.length_append, List.length_cons, Item.written] at hn
      rw [List.append_assoc, hi.skipSpace, List.cons_append]
      exact readItems_more (hi.reads.reads n _ (by omega) (endsNumber_blank hi.after (by decide) _))
        (skipSpace_blank hi.after (by decide) _)
        (ih (by simp) (fun x hx => h x (by simp [hx])) n (by omega))

lemma reads_arr_nil {ws : Text} (h : Blank ws) :
    Reads (openArr :: (ws ++ [closeArr])) (.arr [] : JsonValue φ) where
  head := ⟨91, _, rfl, by decide, by decide, by decide⟩
  reads n rest hn _ := by
    obtain ⟨n, rfl⟩ := Nat.exists_eq_succ_of_ne_zero (by omega : n ≠ 0)
    have hskip : skipSpace (ws ++ closeArr :: rest) = closeArr :: rest :=
      skipSpace_blank h (by decide) rest
    simp [readValue, hskip]

lemma reads_arr {items : List (Item φ)} (hne : items ≠ []) (h : ∀ i ∈ items, i.Good)
    {closing : Text} (hclosing : Blank closing) :
    Reads (openArr :: (commas (items.map Item.written) ++ (closing ++ [closeArr])))
      (.arr (items.map Item.value)) where
  head := ⟨91, _, rfl, by decide, by decide, by decide⟩
  reads n rest hn _ := by
    obtain ⟨n, rfl⟩ := Nat.exists_eq_succ_of_ne_zero (by omega : n ≠ 0)
    simp only [List.length_cons, List.length_append] at hn
    have hitems := readItems_commas hne h hclosing rest n (by omega)
    obtain ⟨i, items, rfl⟩ := List.exists_cons_of_ne_nil hne
    have hi := h i (by simp)
    obtain ⟨c, u, hc, -, hclose, -⟩ := hi.reads.head
    obtain ⟨e, he⟩ := commas_cons i.written (items.map Item.written)
    rw [← List.map_cons] at he
    rw [he, List.append_assoc, hi.skipSpace, hc, List.cons_append] at hitems
    simp only [List.cons_append, List.append_assoc, List.nil_append, readValue]
    rw [he, List.append_assoc, hi.skipSpace, hc, List.cons_append]
    split
    · next heq => exact absurd (List.cons.inj heq).1 hclose
    · rw [hitems]
      rfl

/-- The items of an array whose separators all have the same blanks. -/
lemma reads_items {α : Type} {items : List α} (hne : items ≠ []) {text : α → Text}
    {value : α → JsonValue φ} (h : ∀ a ∈ items, Reads (text a) (value a)) {lead ws closing : Text}
    (hlead : Blank lead) (hws : Blank ws) (hclosing : Blank closing) :
    Reads (openArr :: (lead ++ ((comma :: ws).intercalate (items.map text) ++
      (closing ++ [closeArr])))) (.arr (items.map value)) := by
  obtain ⟨a, items, rfl⟩ := List.exists_cons_of_ne_nil hne
  have hgood : ∀ i ∈ (⟨lead, text a, [], value a⟩ : Item φ) ::
      items.map (fun b => ⟨ws, text b, [], value b⟩), i.Good := by
    intro i hi
    rcases List.mem_cons.1 hi with rfl | hi
    · exact ⟨hlead, h a (by simp), blank_nil⟩
    · obtain ⟨b, hb, rfl⟩ := List.mem_map.1 hi
      exact ⟨hws, h b (by simp [hb]), blank_nil⟩
  have := reads_arr (by simp) hgood hclosing
  rw [List.map_cons, intercalate_blanks, ← List.append_assoc lead, ← commas_append]
  simpa [Item.written, Function.comp_def] using this

/-! ### Objects -/

/-- A member of an object: blanks, the characters of its key, blanks, the colon, blanks, the text of
its value, and blanks. -/
structure Member (φ : Type) where
  before : Text
  key : Text
  keyAfter : Text
  valueBefore : Text
  text : Text
  after : Text
  name : Text
  value : JsonValue φ

structure Member.Good (m : Member φ) : Prop where
  before : Blank m.before
  key : ReadsString m.key m.name
  keyAfter : Blank m.keyAfter
  valueBefore : Blank m.valueBefore
  reads : Reads m.text m.value
  after : Blank m.after

def Member.written (m : Member φ) : Text :=
  m.before ++ quote :: (m.key ++ quote :: (m.keyAfter ++ colon :: (m.valueBefore ++ (m.text ++ m.after))))

lemma Member.Good.skipSpace {m : Member φ} (h : m.Good) (rest : Text) :
    skipSpace (m.written ++ rest) = quote :: (m.key ++ quote ::
      (m.keyAfter ++ colon :: (m.valueBefore ++ (m.text ++ (m.after ++ rest))))) := by
  rw [Member.written, List.append_assoc, List.cons_append, skipSpace_blank h.before (by decide)]
  simp

section ReadMember

variable {n : Nat} {s u w rest t : Text} {k : Text} {v : JsonValue φ}
  (hkey : readString (s.length + 1) s = some (k, u)) (hcolon : skipSpace u = 58 :: w)
  (hv : readValue n (skipSpace w) = some (v, rest))
include hkey hcolon hv

lemma readFields_last (hrest : skipSpace rest = 125 :: t) :
    readFields (n + 1) (34 :: s) = some ([(k, v)], t) := by
  simp [readFields, hkey, hcolon, hv, hrest]

lemma readFields_more {fields : List (Text × JsonValue φ)} {t' : Text}
    (hrest : skipSpace rest = 44 :: t) (hmore : readFields n (skipSpace t) = some (fields, t')) :
    readFields (n + 1) (34 :: s) = some ((k, v) :: fields, t') := by
  simp [readFields, hkey, hcolon, hv, hrest, hmore]

end ReadMember

/-- The value of a member is read after its colon. -/
lemma Member.Good.readValue {m : Member φ} (h : m.Good) {n : Nat} {rest : Text}
    (hn : m.text.length < n) (hrest : EndsNumber rest) :
    readValue n (JsonValue.skipSpace (m.valueBefore ++ (m.text ++ rest))) = some (m.value, rest) := by
  obtain ⟨c, u, hc, hspace, -⟩ := h.reads.head
  have hskip : JsonValue.skipSpace (m.valueBefore ++ (m.text ++ rest)) = m.text ++ rest := by
    rw [hc, List.cons_append, skipSpace_blank h.valueBefore hspace]
  rw [hskip]
  exact h.reads.reads n rest hn hrest

lemma readFields_commas {members : List (Member φ)} (hne : members ≠ [])
    (h : ∀ m ∈ members, m.Good) {closing : Text} (hclosing : Blank closing) (rest : Text) (n : Nat)
    (hn : (commas (members.map Member.written)).length + 1 < n) :
    readFields n (skipSpace (commas (members.map Member.written) ++ (closing ++ closeObj :: rest))) =
      some (members.map fun m => (m.name, m.value), rest) := by
  induction members generalizing n with
  | nil => exact absurd rfl hne
  | cons m members ih =>
    obtain ⟨n, rfl⟩ := Nat.exists_eq_succ_of_ne_zero (by omega : n ≠ 0)
    have hm := h m (by simp)
    cases members with
    | nil =>
      simp only [commas, List.map_cons, List.map_nil, List.intercalate_singleton, Member.written,
        List.length_append, List.length_cons] at hn
      simp only [commas, List.map_cons, List.map_nil, List.intercalate_singleton]
      rw [hm.skipSpace, ← List.append_assoc m.after]
      have hblank := hm.after.append hclosing
      exact readFields_last (hm.key _) (skipSpace_blank hm.keyAfter (by decide) _)
        (hm.readValue (by omega) (endsNumber_blank hblank (by decide) _))
        (skipSpace_blank hblank (by decide) _)
    | cons m' members =>
      have hbody : commas ((m :: m' :: members).map Member.written) =
          m.written ++ comma :: commas ((m' :: members).map Member.written) := by
        simp [commas, List.intercalate_cons_cons]
      rw [hbody] at hn ⊢
      simp only [List.length_append, List.length_cons, Member.written] at hn
      rw [List.append_assoc, hm.skipSpace, List.cons_append]
      exact readFields_more (hm.key _) (skipSpace_blank hm.keyAfter (by decide) _)
        (hm.readValue (by omega) (endsNumber_blank hm.after (by decide) _))
        (skipSpace_blank hm.after (by decide) _)
        (ih (by simp) (fun x hx => h x (by simp [hx])) n (by omega))

lemma reads_obj_nil {ws : Text} (h : Blank ws) :
    Reads (openObj :: (ws ++ [closeObj])) (.obj [] : JsonValue φ) where
  head := ⟨123, _, rfl, by decide, by decide, by decide⟩
  reads n rest hn _ := by
    obtain ⟨n, rfl⟩ := Nat.exists_eq_succ_of_ne_zero (by omega : n ≠ 0)
    have hskip : skipSpace (ws ++ closeObj :: rest) = closeObj :: rest :=
      skipSpace_blank h (by decide) rest
    simp [readValue, hskip]

lemma reads_obj {members : List (Member φ)} (hne : members ≠ []) (h : ∀ m ∈ members, m.Good)
    {closing : Text} (hclosing : Blank closing) :
    Reads (openObj :: (commas (members.map Member.written) ++ (closing ++ [closeObj])))
      (.obj (Dict.ofPairs (members.map fun m => (m.name, m.value)))) where
  head := ⟨123, _, rfl, by decide, by decide, by decide⟩
  reads n rest hn _ := by
    obtain ⟨n, rfl⟩ := Nat.exists_eq_succ_of_ne_zero (by omega : n ≠ 0)
    simp only [List.length_cons, List.length_append] at hn
    have hmembers := readFields_commas hne h hclosing rest n (by omega)
    obtain ⟨m, members, rfl⟩ := List.exists_cons_of_ne_nil hne
    have hm := h m (by simp)
    obtain ⟨e, he⟩ := commas_cons m.written (members.map Member.written)
    rw [← List.map_cons] at he
    rw [he, List.append_assoc, hm.skipSpace] at hmembers
    simp only [List.cons_append, List.append_assoc, List.nil_append, readValue]
    rw [he, List.append_assoc, hm.skipSpace]
    simp only [hmembers, Option.map_some]

/-- The members of an object whose separators all have the same blanks. -/
lemma reads_members {α : Type} {fields : List α} (hne : fields ≠ []) {key name text : α → Text}
    {value : α → JsonValue φ} (hkey : ∀ a ∈ fields, ReadsString (key a) (name a))
    (h : ∀ a ∈ fields, Reads (text a) (value a)) {lead ws keySpace closing : Text}
    (hlead : Blank lead) (hws : Blank ws) (hkeySpace : Blank keySpace) (hclosing : Blank closing) :
    Reads (openObj :: (lead ++ ((comma :: ws).intercalate (fields.map fun a =>
      quote :: (key a ++ quote :: colon :: (keySpace ++ text a))) ++ (closing ++ [closeObj]))))
      (.obj (Dict.ofPairs (fields.map fun a => (name a, value a)))) := by
  obtain ⟨a, fields, rfl⟩ := List.exists_cons_of_ne_nil hne
  have hgood : ∀ m ∈ (⟨lead, key a, [], keySpace, text a, [], name a, value a⟩ : Member φ) ::
      fields.map (fun b => ⟨ws, key b, [], keySpace, text b, [], name b, value b⟩), m.Good := by
    intro m hm
    rcases List.mem_cons.1 hm with rfl | hm
    · exact ⟨hlead, hkey a (by simp), blank_nil, hkeySpace, h a (by simp), blank_nil⟩
    · obtain ⟨b, hb, rfl⟩ := List.mem_map.1 hm
      exact ⟨hws, hkey b (by simp [hb]), blank_nil, hkeySpace, h b (by simp [hb]),
        blank_nil⟩
  have := reads_obj (by simp) hgood hclosing
  rw [List.map_cons, intercalate_blanks, ← List.append_assoc lead, ← commas_append]
  simpa [Member.written, Function.comp_def] using this

/-- A text between blanks is read by `json.loads`. -/
lemma loads_of_reads {t : Text} {v : JsonValue φ} (h : Reads t v) {before after : Text}
    (hbefore : Blank before) (hafter : Blank after) : loads (before ++ (t ++ after)) = some v := by
  obtain ⟨c, u, hc, hspace, -⟩ := h.head
  have hskip : skipSpace (before ++ (t ++ after)) = t ++ after := by
    rw [hc, List.cons_append, skipSpace_blank hbefore hspace]
  have hends : EndsNumber after := by
    cases after with
    | nil => simp [EndsNumber]
    | cons d after =>
      exact endsNumber_of_isSpace (hafter d (by simp)) after
  have hempty : skipSpace after = [] := List.dropWhile_eq_nil_iff.2 hafter
  rw [loads, hskip, h.reads _ after (by simp only [List.length_append]; omega) hends]
  simp [hempty]

end JsonValue
