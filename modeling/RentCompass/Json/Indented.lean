import RentCompass.Json.RoundTrip

/-!
# Indented JSON texts

`json.dumps` with `indent=2`, `sort_keys=True` and characters beyond ASCII escaped, and that
`json.loads` reads such a text back.
-/

namespace JsonValue

variable {φ : Type} [FloatFormat φ]

/-! ### Writing -/

/-- A `\u` escape. -/
def unicodeText (n : Nat) : Text :=
  [escape, 117, hexDigit (n / 4096 % 16), hexDigit (n / 256 % 16), hexDigit (n / 16 % 16),
    hexDigit (n % 16)]

/-- One character of a string of ASCII characters. -/
def asciiChar (c : Nat) : Text :=
  match c with
  | 34 => [escape, quote]
  | 92 => [escape, escape]
  | 10 => [escape, 110]
  | 13 => [escape, 114]
  | 9 => [escape, 116]
  | 12 => [escape, 102]
  | 8 => [escape, 98]
  | c =>
    if 32 ≤ c ∧ c ≤ 126 then [c]
    else if c < 0x10000 then unicodeText c
    else unicodeText (0xD800 + (c - 0x10000) / 0x400) ++ unicodeText (0xDC00 + (c - 0x10000) % 0x400)

def asciiText (s : Text) : Text := quote :: s.flatMap asciiChar ++ [quote]

/-- A new line at a level. -/
def newline (level : Nat) : Text := 10 :: List.replicate (2 * level) 32

/-- The lines of an array or of an object, each at this level. -/
def lines (level : Nat) (ts : List Text) : Text := (comma :: newline level).intercalate ts

/-- A field as it is written. -/
def indentedField (p : Text × Text) : Text := asciiText p.1 ++ (colon :: 32 :: p.2)

mutual

/-- `json.dumps(value, indent=2, sort_keys=True)`, inside so many arrays and objects. -/
def indented (level : Nat) : JsonValue φ → Text
  | .null => Text.ofString "null"
  | .bool true => Text.ofString "true"
  | .bool false => Text.ofString "false"
  | .int n => intText n
  | .float x => FloatFormat.text x
  | .str s => asciiText s
  | .arr [] => [openArr, closeArr]
  | .arr items =>
    openArr :: newline (level + 1) ++ lines (level + 1) (indentedItems (level + 1) items) ++
      newline level ++ [closeArr]
  | .obj [] => [openObj, closeObj]
  | .obj fields =>
    openObj :: newline (level + 1) ++ lines (level + 1)
      ((Dict.sortKeys (indentedFields (level + 1) fields)).map indentedField) ++
      newline level ++ [closeObj]

def indentedItems (level : Nat) : List (JsonValue φ) → List Text
  | [] => []
  | v :: items => v.indented level :: indentedItems level items

def indentedFields (level : Nat) : List (Text × JsonValue φ) → Dict Text
  | [] => []
  | (k, v) :: fields => (k, v.indented level) :: indentedFields level fields

end

lemma indentedItems_eq (level : Nat) (items : List (JsonValue φ)) :
    indentedItems level items = items.map (·.indented level) := by
  induction items with
  | nil => rfl
  | cons v items ih => simp [indentedItems, ih]

lemma indentedFields_eq (level : Nat) (fields : List (Text × JsonValue φ)) :
    indentedFields level fields = fields.map fun p => (p.1, p.2.indented level) := by
  induction fields with
  | nil => rfl
  | cons p fields ih => simp [indentedFields, ih]

/-! ### Strings -/

/-- A code point that is no high surrogate: an escape for it does not read on. -/
def isReadable (c : Nat) : Bool := c < 0x110000 && !(0xD800 ≤ c && c ≤ 0xDBFF)

/-- Every string and every key is made of such code points. -/
def readable (v : JsonValue φ) : Bool :=
  v.all fun
    | .str s => s.all isReadable
    | .obj fields => fields.all fun p => p.1.all isReadable
    | _ => true

lemma hexEscape_unicodeText {n : Nat} (hn : n < 0x10000) (t : Text) :
    hexEscape (hexDigit (n / 4096 % 16) :: hexDigit (n / 256 % 16) :: hexDigit (n / 16 % 16) ::
      hexDigit (n % 16) :: t) = some (n, t) := by
  have hdigit : ∀ m, hexValue (hexDigit (m % 16)) = some (m % 16) := fun m =>
    hexValue_hexDigit (Nat.mod_lt _ (by decide))
  have hsum : 4096 * (n / 4096 % 16) + 256 * (n / 256 % 16) + 16 * (n / 16 % 16) + n % 16 = n := by
    omega
  simp [hexEscape, hdigit, hsum]

/-- The halves of a pair stand for one character. -/
lemma unicodeEscape_pair (high low : Nat) (hhigh : 0xD800 ≤ high) (hhigh' : high ≤ 0xDBFF)
    (hlow : 0xDC00 ≤ low) (hlow' : low ≤ 0xDFFF) (t : Text) :
    unicodeEscape (hexDigit (high / 4096 % 16) :: hexDigit (high / 256 % 16) ::
      hexDigit (high / 16 % 16) :: hexDigit (high % 16) :: (unicodeText low ++ t)) =
      some (0x10000 + (high - 0xD800) * 0x400 + (low - 0xDC00), t) := by
  have hnext : unicodeText low ++ t = 92 :: 117 :: hexDigit (low / 4096 % 16) ::
      hexDigit (low / 256 % 16) :: hexDigit (low / 16 % 16) :: hexDigit (low % 16) :: t := rfl
  rw [unicodeEscape, hexEscape_unicodeText (by omega)]
  simp only [Option.bind_eq_bind, Option.bind_some]
  rw [if_pos ⟨hhigh, hhigh'⟩, hnext]
  simp only [hexEscape_unicodeText (show low < 0x10000 by omega)]
  rw [if_pos ⟨hlow, hlow'⟩]

lemma readString_asciiChar {c : Nat} (hc : isReadable c) (n : Nat) (t : Text) :
    readString (n + 1) (asciiChar c ++ t) = (readString n t).map fun p => (c :: p.1, p.2) := by
  have hshort : ∀ c d : Nat, shortEscape d = some c → d ≠ 117 →
      readString (n + 1) (92 :: d :: t) = (readString n t).map fun p => (c :: p.1, p.2) := by
    intro c d hd h117
    simp only [readString, h117, if_false, hd, Option.map_some, Option.bind_eq_bind,
      Option.bind_some]
    cases readString n t <;> rfl
  have hunicode : ∀ (u : Text), unicodeEscape u = some (c, t) →
      readString (n + 1) (92 :: 117 :: u) = (readString n t).map fun p => (c :: p.1, p.2) := by
    intro u hu
    simp only [readString, if_true, hu, Option.bind_eq_bind, Option.bind_some]
    cases readString n t <;> rfl
  simp only [isReadable, Bool.and_eq_true, decide_eq_true_eq, Bool.not_eq_true',
    Bool.and_eq_false_iff, decide_eq_false_iff_not] at hc
  unfold asciiChar
  split
  · exact hshort _ _ (by decide) (by decide)
  · exact hshort _ _ (by decide) (by decide)
  · exact hshort _ _ (by decide) (by decide)
  · exact hshort _ _ (by decide) (by decide)
  · exact hshort _ _ (by decide) (by decide)
  · exact hshort _ _ (by decide) (by decide)
  · exact hshort _ _ (by decide) (by decide)
  · rename_i h34 h92 _ _ _ _ _
    split_ifs with hplain hbmp
    · rw [List.singleton_append, readString]
      · have : ¬ (c < 32 ∨ c = 92) := fun h => h.elim (by omega) h92
        simp only [this, if_false]
        cases readString n t <;> simp
      · exact h34
      · exact fun _ _ h => absurd h h92
    · refine hunicode _ ?_
      have hhigh : ¬ (0xD800 ≤ c ∧ c ≤ 0xDBFF) := by omega
      simp [unicodeEscape, hexEscape_unicodeText hbmp, hhigh]
    · have hpair := unicodeEscape_pair (0xD800 + (c - 0x10000) / 0x400)
        (0xDC00 + (c - 0x10000) % 0x400) (by omega) (by omega) (by omega) (by omega) t
      have hback : 0x10000 + (0xD800 + (c - 0x10000) / 0x400 - 0xD800) * 0x400 +
          (0xDC00 + (c - 0x10000) % 0x400 - 0xDC00) = c := by omega
      rw [hback] at hpair
      rw [List.append_assoc]
      exact hunicode _ hpair

lemma asciiChar_ne_nil (c : Nat) : asciiChar c ≠ [] := by
  unfold asciiChar
  split <;> simp
  split_ifs <;> simp [unicodeText]

lemma length_flatMap_asciiChar (s : Text) : s.length ≤ (s.flatMap asciiChar).length := by
  induction s with
  | nil => simp
  | cons c s ih =>
    have := List.length_pos_iff.2 (asciiChar_ne_nil c)
    simp only [List.flatMap_cons, List.length_cons, List.length_append]
    omega

/-- A string is read up to its closing quote. -/
lemma readString_asciiText {s : Text} (hs : s.all isReadable) (rest : Text) :
    readString ((s.flatMap asciiChar ++ quote :: rest).length + 1)
      (s.flatMap asciiChar ++ quote :: rest) = some (s, rest) := by
  have key : ∀ n, s.length < n →
      readString n (s.flatMap asciiChar ++ quote :: rest) = some (s, rest) := by
    induction s with
    | nil =>
      intro n hn
      obtain ⟨n, rfl⟩ := Nat.exists_eq_succ_of_ne_zero (by omega : n ≠ 0)
      simp [readString]
    | cons c s ih =>
      intro n hn
      obtain ⟨n, rfl⟩ := Nat.exists_eq_succ_of_ne_zero (by omega : n ≠ 0)
      simp only [List.all_cons, Bool.and_eq_true] at hs
      simp only [List.flatMap_cons, List.append_assoc, Nat.succ_eq_add_one]
      rw [readString_asciiChar hs.1, ih hs.2 n (by simpa using hn)]
      rfl
  apply key
  have := length_flatMap_asciiChar s
  simp only [List.length_append]
  omega

/-! ### Values -/

omit [FloatFormat φ] in
lemma readable_arr {items : List (JsonValue φ)} :
    (arr items).readable ↔ ∀ v ∈ items, v.readable := by
  simp [readable, all_arr]

omit [FloatFormat φ] in
lemma readable_obj {fields : List (Text × JsonValue φ)} :
    (obj fields).readable ↔ ∀ p ∈ fields, p.1.all isReadable ∧ p.2.readable := by
  simp only [readable, all_obj, Bool.and_eq_true, List.all_eq_true]
  exact ⟨fun h p hp => ⟨h.1 p hp, h.2 p hp⟩, fun h => ⟨fun p hp => (h p hp).1, fun p hp => (h p hp).2⟩⟩

/-- The items of an array as they are written. -/
def itemLines (level : Nat) (items : List (JsonValue φ)) : Text :=
  lines level (items.map (·.indented level))

/-- The fields of an object as they are written, already in their order. -/
def fieldLines (level : Nat) (fields : Dict (JsonValue φ)) : Text :=
  lines level (fields.map fun p => indentedField (p.1, p.2.indented level))

lemma indented_arr {items : List (JsonValue φ)} (hne : items ≠ []) (level : Nat) :
    (arr items).indented level = openArr :: (newline (level + 1) ++
      (itemLines (level + 1) items ++ (newline level ++ [closeArr]))) := by
  cases items with
  | nil => exact absurd rfl hne
  | cons v items =>
    rw [indented, indentedItems_eq]
    · simp [itemLines]
    · simp

lemma indented_obj {fields : List (Text × JsonValue φ)} (hne : fields ≠ []) (level : Nat) :
    (obj fields).indented level = openObj :: (newline (level + 1) ++
      (fieldLines (level + 1) (Dict.sortKeys fields) ++ (newline level ++ [closeObj]))) := by
  cases fields with
  | nil => exact absurd rfl hne
  | cons p fields =>
    rw [indented, indentedFields_eq, Dict.map_sortKeys]
    · simp [fieldLines, Function.comp_def]
    · simp

lemma blank_newline (level : Nat) : Blank (newline level) := by
  intro c hc
  rcases List.mem_cons.1 hc with rfl | hc
  · rfl
  · exact blank_replicate _ c hc

variable [LawfulFloatFormat φ]

/-- What was written is read back, at whatever level. -/
theorem reads_indented (v : JsonValue φ) (hdict : v.distinctKeys) (hfin : v.finite)
    (hread : v.readable) (level : Nat) : Reads (v.indented level) v.sorted := by
  induction v using induct generalizing level with
  | null => exact reads_null
  | bool b =>
    cases b with
    | false => exact reads_false
    | true => exact reads_true
  | int m => exact reads_int m
  | float x => exact reads_float (by simpa [finite, all] using hfin)
  | str s => exact reads_str (readString_asciiText (by simpa [readable, all] using hread))
  | arr items ih =>
    rw [distinctKeys_arr] at hdict
    rw [finite_arr] at hfin
    rw [readable_arr] at hread
    by_cases hne : items = []
    · subst hne
      exact reads_arr_nil blank_nil
    · rw [indented_arr hne, sorted_arr, itemLines, lines]
      exact reads_items hne
        (fun v hv => ih v hv (hdict v hv) (hfin v hv) (hread v hv) (level + 1))
        (blank_newline _) (blank_newline _) (blank_newline _)
  | obj fields ih =>
    rw [distinctKeys_obj] at hdict
    rw [finite_obj] at hfin
    rw [readable_obj] at hread
    by_cases hne : fields = []
    · subst hne
      exact reads_obj_nil blank_nil
    have hmem : ∀ {p}, p ∈ Dict.sortKeys fields → p ∈ fields := Dict.mem_sortKeys.1
    have hne' : Dict.sortKeys fields ≠ [] := fun h => hne (Dict.sortKeys_eq_nil.1 h)
    have hnodup : ((Dict.sortKeys fields).map (·.1)).Nodup := Dict.keys_sortKeys_nodup.2 hdict.1
    rw [indented_obj hne, sorted_obj, Dict.map_sortKeys, fieldLines, lines]
    have := reads_members hne' (fun p hp => readString_asciiText (hread p (hmem hp)).1)
      (fun p hp => ih p (hmem hp) (hdict.2 p (hmem hp)) (hfin p (hmem hp)) (hread p (hmem hp)).2
        (level + 1))
      (blank_newline (level + 1)) (blank_newline (level + 1)) (blank_replicate 1)
      (blank_newline level)
    rw [Dict.ofPairs_of_nodup (by simpa [Dict.keys, Function.comp_def] using hnodup)] at this
    simpa [indentedField, asciiText] using this

/-- `json.loads` reads an indented text back, also with a newline behind it. -/
theorem loads_indented (v : JsonValue φ) (hdict : v.distinctKeys) (hfin : v.finite)
    (hread : v.readable) : loads (v.indented 0 ++ [10]) = some v.sorted := by
  simpa [newline] using
    loads_of_reads (reads_indented v hdict hfin hread 0) blank_nil (blank_newline 0)

end JsonValue
