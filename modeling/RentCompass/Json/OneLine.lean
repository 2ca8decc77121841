import RentCompass.Json.RoundTrip

/-!
# A JSON text is one line

`json.dumps` without indentation writes no control characters: those of a string are escaped.
-/

namespace JsonValue

lemma low_of_isDigits {t : Text} (h : IsDigits t) : ∀ c ∈ t, 32 ≤ c := by
  intro c hc
  have := h.2 c hc
  simp [isDigit] at this
  omega

lemma low_of_isNumber {sign digits fraction exponent : Text}
    (h : IsNumber sign digits fraction exponent) :
    ∀ c ∈ sign ++ digits ++ fraction ++ exponent, 32 ≤ c := by
  intro c hc
  simp only [List.mem_append] at hc
  rcases hc with ((hc | hc) | hc) | hc
  · have := h.sign
    simp only [List.mem_cons, List.not_mem_nil, or_false] at this
    rcases this with rfl | rfl
    · simp at hc
    · simp only [List.mem_singleton] at hc
      omega
  · exact low_of_isDigits h.digits.isDigits c hc
  · rcases h.fraction with rfl | ⟨ds, hds, rfl⟩
    · simp at hc
    · rcases List.mem_cons.1 hc with rfl | hc
      · omega
      · exact low_of_isDigits hds c hc
  · rcases h.exponent with rfl | ⟨s, ds, hs, hds, rfl⟩
    · simp at hc
    · rcases List.mem_cons.1 hc with rfl | hc
      · omega
      · rcases List.mem_append.1 hc with hc | hc
        · simp only [List.mem_cons, List.not_mem_nil, or_false] at hs
          rcases hs with rfl | rfl | rfl <;> simp at hc <;> omega
        · exact low_of_isDigits hds c hc

lemma low_decimal (n : Nat) : ∀ c ∈ decimal n, 32 ≤ c := by
  intro c hc
  unfold decimal at hc
  split_ifs at hc
  · simp only [List.mem_singleton] at hc
    omega
  · simp only [List.mem_reverse, List.mem_map] at hc
    obtain ⟨d, -, rfl⟩ := hc
    omega

lemma low_intText (n : Int) : ∀ c ∈ intText n, 32 ≤ c := by
  intro c hc
  unfold intText at hc
  split_ifs at hc
  · rcases List.mem_cons.1 hc with rfl | hc
    · decide
    · exact low_decimal _ c hc
  · exact low_decimal _ c hc

lemma low_hexDigit {n : Nat} : 32 ≤ hexDigit n := by
  unfold hexDigit
  split_ifs <;> omega

lemma low_escapeChar (d : Nat) : ∀ c ∈ escapeChar d, 32 ≤ c := by
  intro c hc
  unfold escapeChar at hc
  split at hc
  case h_8 =>
    split_ifs at hc with hlow
    · simp only [List.mem_cons, List.not_mem_nil, or_false] at hc
      rcases hc with rfl | rfl | rfl | rfl | rfl | rfl
      · decide
      · decide
      · decide
      · decide
      · exact low_hexDigit
      · exact low_hexDigit
    · simp only [List.mem_singleton] at hc
      omega
  all_goals
    simp only [List.mem_cons, List.not_mem_nil, or_false] at hc
    rcases hc with rfl | rfl <;> decide

lemma low_stringText (s : Text) : ∀ c ∈ stringText s, 32 ≤ c := by
  intro c hc
  simp only [stringText, List.mem_append, List.mem_cons, List.mem_flatMap, List.not_mem_nil,
    or_false] at hc
  rcases hc with (rfl | ⟨d, -, hc⟩) | rfl
  · decide
  · exact low_escapeChar d c hc
  · decide

lemma low_intercalate {sep : Text} {ts : List Text} (hsep : ∀ c ∈ sep, 32 ≤ c)
    (h : ∀ t ∈ ts, ∀ c ∈ t, 32 ≤ c) : ∀ c ∈ sep.intercalate ts, 32 ≤ c := by
  induction ts with
  | nil => simp
  | cons t ts ih =>
    have ht := h t (by simp)
    have hts := ih fun u hu => h u (by simp [hu])
    cases ts with
    | nil => simpa using ht
    | cons u ts =>
      intro c hc
      rw [List.intercalate_cons_cons] at hc
      simp only [List.mem_append] at hc
      rcases hc with (hc | hc) | hc
      · exact ht c hc
      · exact hsep c hc
      · exact hts c hc

lemma low_itemSep (style : Style) : ∀ c ∈ style.itemSep, 32 ≤ c := by
  intro c hc
  rcases List.mem_cons.1 hc with rfl | hc
  · decide
  · have := List.eq_of_mem_replicate hc
    omega

lemma low_keySep (style : Style) : ∀ c ∈ style.keySep, 32 ≤ c := by
  intro c hc
  rcases List.mem_cons.1 hc with rfl | hc
  · decide
  · have := List.eq_of_mem_replicate hc
    omega

variable {φ : Type} [FloatFormat φ] [LawfulFloatFormat φ]

/-- No control character is written. -/
theorem low_dumps (style : Style) (v : JsonValue φ) (hfin : v.finite) :
    ∀ c ∈ v.dumps style, 32 ≤ c := by
  induction v using induct with
  | null =>
    rw [dumps]
    decide
  | bool b =>
    cases b with
    | false =>
      rw [dumps]
      decide
    | true =>
      rw [dumps]
      decide
  | int m => exact low_intText m
  | float x =>
    obtain ⟨sign, digits, fraction, exponent, hnumber, -, htext⟩ :=
      LawfulFloatFormat.token x (by simpa [finite, all] using hfin)
    rw [dumps, htext]
    exact low_of_isNumber hnumber
  | str s => exact low_stringText s
  | arr items ih =>
    rw [finite_arr] at hfin
    intro c hc
    simp only [dumps_arr, itemsText, List.mem_append, List.mem_cons, List.not_mem_nil,
      or_false] at hc
    rcases hc with (rfl | hc) | rfl
    · decide
    · apply low_intercalate (low_itemSep style) _ c hc
      intro t ht
      obtain ⟨v, hv, rfl⟩ := List.mem_map.1 ht
      exact ih v hv (hfin v hv)
    · decide
  | obj fields ih =>
    rw [finite_obj] at hfin
    intro c hc
    simp only [dumps_obj, fieldsText, List.mem_append, List.mem_cons, List.not_mem_nil,
      or_false] at hc
    rcases hc with (rfl | hc) | rfl
    · decide
    · apply low_intercalate (low_itemSep style) _ c hc
      intro t ht
      obtain ⟨p, hp, rfl⟩ := List.mem_map.1 ht
      intro d hd
      simp only [Style.field, List.mem_append] at hd
      rcases hd with (hd | hd) | hd
      · exact low_stringText p.1 d hd
      · exact low_keySep style d hd
      · exact ih p (mem_order.1 hp) (hfin p (mem_order.1 hp)) d hd
    · decide

end JsonValue
