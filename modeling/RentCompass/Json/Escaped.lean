import RentCompass.Json.Indented

/-!
# JSON texts in ASCII

`json.dumps` by itself escapes every character beyond ASCII, a surrogate as itself. `json.loads`
makes one character of a high surrogate and a low one next to it, so a text with such a pair does
not come back as it was.
-/

namespace JsonValue

variable {φ : Type} [FloatFormat φ]

mutual

/-- `json.dumps(value)`. -/
def dumpsAscii (style : Style) : JsonValue φ → Text
  | .null => Text.ofString "null"
  | .bool true => Text.ofString "true"
  | .bool false => Text.ofString "false"
  | .int n => intText n
  | .float x => FloatFormat.text x
  | .str s => asciiText s
  | .arr items =>
    openArr :: style.itemSep.intercalate (dumpsAsciiItems style items) ++ [closeArr]
  | .obj fields =>
    openObj :: style.itemSep.intercalate ((style.order (dumpsAsciiFields style fields)).map fun p =>
      asciiText p.1 ++ style.keySep ++ p.2) ++ [closeObj]

def dumpsAsciiItems (style : Style) : List (JsonValue φ) → List Text
  | [] => []
  | v :: items => v.dumpsAscii style :: dumpsAsciiItems style items

def dumpsAsciiFields (style : Style) : List (Text × JsonValue φ) → Dict Text
  | [] => []
  | (k, v) :: fields => (k, v.dumpsAscii style) :: dumpsAsciiFields style fields

end

lemma dumpsAsciiItems_eq (style : Style) (items : List (JsonValue φ)) :
    dumpsAsciiItems style items = items.map (dumpsAscii style) := by
  induction items with
  | nil => rfl
  | cons v items ih => simp [dumpsAsciiItems, ih]

lemma dumpsAsciiFields_eq (style : Style) (fields : List (Text × JsonValue φ)) :
    dumpsAsciiFields style fields = fields.map fun p => (p.1, p.2.dumpsAscii style) := by
  induction fields with
  | nil => rfl
  | cons p fields ih => simp [dumpsAsciiFields, ih]

/-! ### Surrogates -/

def isHigh (c : Nat) : Bool := 0xD800 ≤ c && c ≤ 0xDBFF

def isLow (c : Nat) : Bool := 0xDC00 ≤ c && c ≤ 0xDFFF

/-- The text with one character for each high surrogate and the low one after it. -/
def joinPairs : Text → Text
  | [] => []
  | [c] => [c]
  | c :: d :: s =>
    if isHigh c && isLow d then (0x10000 + (c - 0xD800) * 0x400 + (d - 0xDC00)) :: joinPairs s
    else c :: joinPairs (d :: s)

/-- Without surrogates nothing is joined. -/
lemma joinPairs_of_none {s : Text} (h : ∀ c ∈ s, isHigh c = false) : joinPairs s = s := by
  induction s using joinPairs.induct with
  | case1 => rfl
  | case2 c => rfl
  | case3 c d s hpair ih =>
    rw [h c (by simp)] at hpair
    cases hpair
  | case4 c d s hpair ih =>
    rw [joinPairs, if_neg hpair, ih fun x hx => h x (List.mem_cons_of_mem c hx)]

/-- The escape of a high surrogate does not read on, unless a low one is next. -/
lemma unicodeEscape_high {c : Nat} (hc : isHigh c) {t : Text}
    (ht : ∀ u low rest, t = 92 :: 117 :: u → hexEscape u = some (low, rest) → isLow low = false) :
    unicodeEscape (hexDigit (c / 4096 % 16) :: hexDigit (c / 256 % 16) ::
      hexDigit (c / 16 % 16) :: hexDigit (c % 16) :: t) = some (c, t) := by
  simp only [isHigh, Bool.and_eq_true, decide_eq_true_eq] at hc
  rw [unicodeEscape, hexEscape_unicodeText (by omega)]
  simp only [Option.bind_eq_bind, Option.bind_some]
  rw [if_pos hc]
  split
  · next u =>
    split
    · next low rest hlow =>
      have := ht u low rest rfl hlow
      simp only [isLow, Bool.and_eq_false_iff, decide_eq_false_iff_not] at this
      rw [if_neg (by omega)]
    · rfl
  · rfl

/-- What is written of a character is no escape of a low surrogate, unless it is one. -/
lemma hexEscape_asciiChar {c low : Nat} (hcode : c < 0x110000) (hc : isLow c = false) {t u rest : Text}
    (h : asciiChar c ++ t = 92 :: 117 :: u) (hlow : hexEscape u = some (low, rest)) :
    isLow low = false := by
  have hescape : ∀ n, n < 0x10000 → ∀ t, unicodeText n ++ t = 92 :: 117 :: u → low = n := by
    intro n hn t ht
    simp only [unicodeText, List.cons_append, List.cons.injEq, true_and, List.nil_append] at ht
    rw [← ht, hexEscape_unicodeText hn] at hlow
    exact (Prod.mk.inj (Option.some.inj hlow)).1.symm
  unfold asciiChar at h
  split at h
  all_goals try exact absurd (List.cons.inj (List.cons.inj h).2).1 (by decide)
  next h34 h92 _ _ _ _ _ =>
  split_ifs at h with hplain hbmp
  · rw [List.singleton_append] at h
    exact absurd (List.cons.inj h).1 h92
  · rw [hescape c hbmp t h]
    exact hc
  · rw [List.append_assoc] at h
    rw [hescape _ (by omega) _ h]
    simp only [isLow, Bool.and_eq_false_iff, decide_eq_false_iff_not]
    omega

lemma asciiChar_surrogate {c : Nat} (h : isHigh c ∨ isLow c) : asciiChar c = unicodeText c := by
  have hrange : 0xD800 ≤ c ∧ c ≤ 0xDFFF := by
    simp only [isHigh, isLow, Bool.and_eq_true, decide_eq_true_eq] at h
    omega
  unfold asciiChar
  split
  all_goals try omega
  rw [if_neg (by omega), if_pos (by omega)]

lemma readString_unicodeEscape {c n : Nat} {u t : Text} (h : unicodeEscape u = some (c, t)) :
    readString (n + 1) (92 :: 117 :: u) = (readString n t).map fun p => (c :: p.1, p.2) := by
  simp only [readString, if_true, h, Option.bind_eq_bind, Option.bind_some]
  cases readString n t <;> rfl

/-- A character is read by itself, unless it is a high surrogate before a low one. -/
lemma readString_asciiChar_append {c : Nat} (hcode : c < 0x110000) {t : Text}
    (ht : isHigh c → ∀ u low rest, t = 92 :: 117 :: u → hexEscape u = some (low, rest) →
      isLow low = false) (n : Nat) :
    readString (n + 1) (asciiChar c ++ t) = (readString n t).map fun p => (c :: p.1, p.2) := by
  by_cases hc : isHigh c
  · rw [asciiChar_surrogate (.inl hc)]
    exact readString_unicodeEscape (unicodeEscape_high hc (ht hc))
  · apply readString_asciiChar
    rw [Bool.not_eq_true, isHigh] at hc
    rw [isReadable, hc]
    simpa using hcode

/-- A string comes back with its surrogates joined. -/
lemma readString_joinPairs {s : Text} (hs : ∀ c ∈ s, c < 0x110000) :
    ReadsString (s.flatMap asciiChar) (joinPairs s) := by
  intro rest
  have key : ∀ n, s.length < n →
      readString n (s.flatMap asciiChar ++ quote :: rest) = some (joinPairs s, rest) := by
    induction s using joinPairs.induct with
    | case1 =>
      intro n hn
      obtain ⟨n, rfl⟩ := Nat.exists_eq_succ_of_ne_zero (by omega : n ≠ 0)
      simp [readString, joinPairs]
    | case2 c =>
      intro n hn
      simp only [List.length_singleton] at hn
      obtain ⟨n, rfl⟩ := Nat.exists_eq_add_of_lt hn
      rw [List.flatMap_singleton, Nat.add_comm 1 n, readString_asciiChar_append (hs c (by simp))]
      · simp [readString, joinPairs]
      · intro _ u low rest' h
        cases h
    | case3 c d s hpair ih =>
      intro n hn
      simp only [List.length_cons] at hn
      obtain ⟨n, rfl⟩ := Nat.exists_eq_succ_of_ne_zero (by omega : n ≠ 0)
      have hboth := hpair
      simp only [Bool.and_eq_true, isHigh, isLow, decide_eq_true_eq] at hboth
      rw [Bool.and_eq_true] at hpair
      rw [joinPairs, if_pos (by rw [Bool.and_eq_true]; exact hpair), List.flatMap_cons,
        List.flatMap_cons, asciiChar_surrogate (.inl hpair.1), asciiChar_surrogate (.inr hpair.2),
        List.append_assoc, List.append_assoc]
      have hread := unicodeEscape_pair c d (by omega) (by omega) (by omega) (by omega)
        (s.flatMap asciiChar ++ quote :: rest)
      rw [Nat.succ_eq_add_one]
      refine (readString_unicodeEscape hread).trans ?_
      rw [ih (fun x hx => hs x (by simp [hx])) n (by omega)]
      rfl
    | case4 c d s hpair ih =>
      intro n hn
      simp only [List.length_cons] at hn
      obtain ⟨n, rfl⟩ := Nat.exists_eq_succ_of_ne_zero (by omega : n ≠ 0)
      rw [joinPairs, if_neg hpair, List.flatMap_cons, List.append_assoc,
        readString_asciiChar_append (hs c (by simp)),
        ih (fun x hx => hs x (List.mem_cons_of_mem c hx)) n (by simp only [List.length_cons]; omega)]
      · rfl
      · intro hhigh u low rest' h hlow
        rw [List.flatMap_cons, List.append_assoc] at h
        refine hexEscape_asciiChar (hs d (by simp)) ?_ h hlow
        simpa [hhigh] using hpair
  apply key
  have := length_flatMap_asciiChar s
  simp only [List.length_append]
  omega

/-! ### Values -/

/-- The value that comes back: its strings joined, and of two keys that become one the later. -/
def joined (v : JsonValue φ) : JsonValue φ :=
  v.rewrite fun
    | .str s => .str (joinPairs s)
    | .obj fields => .obj (Dict.ofPairs (fields.map fun p => (joinPairs p.1, p.2)))
    | v => v

/-- Every string and every key is made of code points. -/
def codePoints (v : JsonValue φ) : Bool :=
  v.all fun
    | .str s => s.all (· < 0x110000)
    | .obj fields => fields.all fun p => p.1.all (· < 0x110000)
    | _ => true

omit [FloatFormat φ] in
lemma codePoints_arr {items : List (JsonValue φ)} :
    (arr items).codePoints ↔ ∀ v ∈ items, v.codePoints := by
  simp [codePoints, all_arr]

omit [FloatFormat φ] in
lemma codePoints_obj {fields : List (Text × JsonValue φ)} :
    (obj fields).codePoints ↔ ∀ p ∈ fields, (∀ c ∈ p.1, c < 0x110000) ∧ p.2.codePoints := by
  simp only [codePoints, all_obj, Bool.and_eq_true, List.all_eq_true, decide_eq_true_eq]
  exact ⟨fun h p hp => ⟨h.1 p hp, h.2 p hp⟩, fun h => ⟨fun p hp => (h p hp).1, fun p hp => (h p hp).2⟩⟩

/-- What was written comes back, joined. -/
theorem reads_dumpsAscii [LawfulFloatFormat φ] (v : JsonValue φ) (hfin : v.finite)
    (hcode : v.codePoints) : Reads (v.dumpsAscii .default) v.joined := by
  induction v using induct with
  | null => exact reads_null
  | bool b =>
    cases b with
    | false => exact reads_false
    | true => exact reads_true
  | int m => exact reads_int m
  | float x => exact reads_float (by simpa [finite, all] using hfin)
  | str s => exact reads_str (readString_joinPairs (by simpa [codePoints, all] using hcode))
  | arr items ih =>
    rw [finite_arr] at hfin
    rw [codePoints_arr] at hcode
    rw [dumpsAscii, dumpsAsciiItems_eq, joined, rewrite_arr]
    by_cases hne : items = []
    · subst hne
      exact reads_arr_nil blank_nil
    · exact reads_items hne (fun v hv => ih v hv (hfin v hv) (hcode v hv)) blank_nil
        (blank_replicate 1) blank_nil
  | obj fields ih =>
    rw [finite_obj] at hfin
    rw [codePoints_obj] at hcode
    rw [dumpsAscii, dumpsAsciiFields_eq, joined, rewrite_obj]
    by_cases hne : fields = []
    · subst hne
      exact reads_obj_nil blank_nil
    · have := reads_members hne (fun p hp => readString_joinPairs (hcode p hp).1)
        (fun p hp => ih p hp (hfin p hp) (hcode p hp).2) blank_nil (blank_replicate 1)
        (blank_replicate 1) blank_nil
      simpa [asciiText, Style.order, Style.keySep, Style.itemSep, Style.default, Function.comp_def,
        joined] using this

/-- `json.loads` reads back what `json.dumps` wrote, joined. -/
theorem loads_dumpsAscii [LawfulFloatFormat φ] (v : JsonValue φ) (hfin : v.finite)
    (hcode : v.codePoints) : loads (v.dumpsAscii .default) = some v.joined := by
  simpa using loads_of_reads (reads_dumpsAscii v hfin hcode) blank_nil blank_nil

end JsonValue
