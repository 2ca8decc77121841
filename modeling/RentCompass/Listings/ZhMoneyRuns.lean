import RentCompass.Listings.ZhMoney

/-!
# Chinese amounts, run by run

What the two expressions can match, and what becomes of one run of digits and numerals.
-/

namespace RentCompass.ZhMoney

open JsonValue (decimal)
open Pattern (mem_ends_seq mem_ends_alt mem_ends_opt mem_ends_empty mem_ends_beside mem_ends_char
  mem_ends_group_char)

variable (U : Digits)

/-! ### Numerals -/

/-- One to nine. -/
def IsNumeral (a : Nat) : Prop := a ∈ Text.ofString "一二两三四五六七八九"

instance (a : Nat) : Decidable (IsNumeral a) := inferInstanceAs (Decidable (_ ∈ _))

/-- What `_ZH_DIGITS` says of a character. -/
def zh (a : Nat) : Nat := (_ZH_DIGITS.lookup a).getD 0

lemma IsNumeral.zh_pos {a : Nat} (h : IsNumeral a) : 0 < zh a := by
  have : ∀ a ∈ Text.ofString "一二两三四五六七八九", 0 < zh a := by decide
  exact this a h

lemma IsNumeral.zh_lt {a : Nat} (h : IsNumeral a) : zh a < 10 := by
  have : ∀ a ∈ Text.ofString "一二两三四五六七八九", zh a < 10 := by decide
  exact this a h

/-- The texts `_ZH_MONEY` covers, with their values. -/
inductive ZhForm : Text → Nat → Prop
  | wan {a : Nat} (ha : IsNumeral a) : ZhForm [a, myriad] (zh a * 10000)
  | wanK {a b : Nat} (ha : IsNumeral a) (hb : IsNumeral b) :
      ZhForm [a, myriad, b] (zh a * 10000 + zh b * 1000)
  | k {a : Nat} (ha : IsNumeral a) : ZhForm [a, thousand] (zh a * 1000)
  | kTen {a b : Nat} (ha : IsNumeral a) (hb : IsNumeral b) :
      ZhForm [a, thousand, zero, b, ten] (zh a * 1000 + zh b * 10)
  | kH {a b : Nat} (ha : IsNumeral a) (hb : IsNumeral b) :
      ZhForm [a, thousand, b] (zh a * 1000 + zh b * 100)
  | kHundred {a b : Nat} (ha : IsNumeral a) (hb : IsNumeral b) :
      ZhForm [a, thousand, b, hundred] (zh a * 1000 + zh b * 100)
  | kT {a b d : Nat} (ha : IsNumeral a) (hb : IsNumeral b) (hd : IsNumeral d) :
      ZhForm [a, thousand, b, hundred, d] (zh a * 1000 + zh b * 100 + zh d * 10)
  | kTs {a b d : Nat} (ha : IsNumeral a) (hb : IsNumeral b) (hd : IsNumeral d) :
      ZhForm [a, thousand, b, hundred, d, ten] (zh a * 1000 + zh b * 100 + zh d * 10)
  | h {a : Nat} (ha : IsNumeral a) : ZhForm [a, hundred] (zh a * 100)
  | hT {a b : Nat} (ha : IsNumeral a) (hb : IsNumeral b) :
      ZhForm [a, hundred, b] (zh a * 100 + zh b * 10)
  | hTs {a b : Nat} (ha : IsNumeral a) (hb : IsNumeral b) :
      ZhForm [a, hundred, b, ten] (zh a * 100 + zh b * 10)

/-- The texts `_DIGIT_THOUSANDS` covers, with their values. -/
inductive DigitForm : Text → Nat → Prop
  | k {a n : Nat} (ha : U.value a = some n) : DigitForm [a, thousand] (n * 1000)
  | kH {a b n m : Nat} (ha : U.value a = some n) (hb : U.value b = some m) :
      DigitForm [a, thousand, b] (n * 1000 + m * 100)
  | kHundred {a b n m : Nat} (ha : U.value a = some n) (hb : U.value b = some m) :
      DigitForm [a, thousand, b, hundred] (n * 1000 + m * 100)

lemma digit_cons_self (g : ZhGroup) (a : Nat) (gs : Pattern.Groups ZhGroup Nat) :
    digit ((g, [a]) :: gs) g = zh a := by
  simp [digit, zh]

lemma digit_cons_ne {g g' : ZhGroup} (h : g ≠ g') (t : Text) (gs : Pattern.Groups ZhGroup Nat) :
    digit ((g, t) :: gs) g' = digit gs g' := by
  have : (g' == g) = false := by simpa using h.symm
  simp [digit, List.lookup_cons, this]

@[simp] lemma digit_nil (g : ZhGroup) : digit [] g = 0 := rfl

/-- A numeral of one of the classes in the expressions. -/
lemma isNumeral_of {a : Nat} {s : String}
    (hs : ∀ a ∈ Text.ofString s, a ∈ Text.ofString "一二两三四五六七八九")
    (h : decide (a ∈ Text.ofString s) = true) : IsNumeral a := hs a (of_decide_eq_true h)

lemma zhForm_of_value {u t rest : Text} {n v : Nat} (h : ZhForm u n) (hv : v = n)
    (ht : t = u ++ rest) : ∃ u, ZhForm u v ∧ t = u ++ rest := ⟨u, hv ▸ h, ht⟩

lemma zhForm_of_mem_zhWan {pos : Regex.Pos Nat} {m : Pattern.Groups ZhGroup Nat × Regex.Pos Nat}
    (h : m ∈ zhWan.ends pos) : ∃ u, ZhForm u (_zh_money_value m.1) ∧ pos.2 = u ++ m.2.2 := by
  obtain ⟨groups, last, rest⟩ := m
  simp only [zhWan, Pattern.concat, List.foldr_cons, List.foldr_nil, oneOf, is, mem_ends_seq,
    mem_ends_opt, mem_ends_empty, mem_ends_char, mem_ends_group_char, existsAndEq, and_true,
    true_and, Prod.exists, Prod.mk.injEq, List.nil_append, List.append_nil, List.cons_append,
    and_assoc] at h
  obtain ⟨gs, s, x, a, hpos, ha, hx, htail, rfl⟩ := h
  obtain rfl := eq_of_beq hx
  have ha := isNumeral_of (by decide) ha
  rcases htail with ⟨b, rfl, hb, rfl, -⟩ | ⟨rfl, -, rfl⟩
  · have hb := isNumeral_of (by decide) hb
    exact zhForm_of_value (ZhForm.wanK ha hb) (by simp [_zh_money_value, digit_cons_self, digit_cons_ne]) hpos
  · exact zhForm_of_value (ZhForm.wan ha) (by simp [_zh_money_value, digit_cons_self, digit_cons_ne]) hpos

lemma zhForm_of_mem_zhThousands {pos : Regex.Pos Nat}
    {m : Pattern.Groups ZhGroup Nat × Regex.Pos Nat} (h : m ∈ zhThousands.ends pos) :
    ∃ u, ZhForm u (_zh_money_value m.1) ∧ pos.2 = u ++ m.2.2 := by
  obtain ⟨groups, last, rest⟩ := m
  simp only [zhThousands, Pattern.concat, List.foldr_cons, List.foldr_nil, oneOf, is, mem_ends_seq,
    mem_ends_alt, mem_ends_opt, mem_ends_empty, mem_ends_char, mem_ends_group_char, existsAndEq, and_true,
    true_and, Prod.exists, Prod.mk.injEq, List.nil_append, List.append_nil, List.cons_append,
    and_assoc] at h
  obtain ⟨gs, s, x, a, hpos, ha, hx, htail, rfl⟩ := h
  obtain rfl := eq_of_beq hx
  have ha := isNumeral_of (by decide) ha
  rcases htail with (⟨z, b, y, rfl, hy, hb, hz, rfl, -⟩ | ⟨s₁, b, rfl, hb, gs₁, htail, rfl⟩) |
    ⟨rfl, -, rfl⟩
  · obtain rfl := eq_of_beq hy
    obtain rfl := eq_of_beq hz
    have hb := isNumeral_of (by decide) hb
    exact zhForm_of_value (ZhForm.kTen ha hb) (by simp [_zh_money_value, digit_cons_self, digit_cons_ne]) hpos
  · have hb := isNumeral_of (by decide) hb
    rcases htail with ⟨s₂, y, rfl, hy, htail⟩ | ⟨rfl, -, rfl⟩
    · obtain rfl := eq_of_beq hy
      rcases htail with ⟨s₃, d, rfl, hd, gs₂, htail, rfl⟩ | ⟨rfl, -, rfl⟩
      · have hd := isNumeral_of (by decide) hd
        rcases htail with ⟨z, rfl, hz, rfl, -⟩ | ⟨rfl, -, rfl⟩
        · obtain rfl := eq_of_beq hz
          exact zhForm_of_value (ZhForm.kTs ha hb hd) (by simp [_zh_money_value, digit_cons_self, digit_cons_ne]) hpos
        · exact zhForm_of_value (ZhForm.kT ha hb hd) (by simp [_zh_money_value, digit_cons_self, digit_cons_ne]) hpos
      · exact zhForm_of_value (ZhForm.kHundred ha hb) (by simp [_zh_money_value, digit_cons_self, digit_cons_ne]) hpos
    · exact zhForm_of_value (ZhForm.kH ha hb) (by simp [_zh_money_value, digit_cons_self, digit_cons_ne]) hpos
  · exact zhForm_of_value (ZhForm.k ha) (by simp [_zh_money_value, digit_cons_self, digit_cons_ne]) hpos

lemma zhForm_of_mem_zhHundreds {pos : Regex.Pos Nat}
    {m : Pattern.Groups ZhGroup Nat × Regex.Pos Nat} (h : m ∈ zhHundreds.ends pos) :
    ∃ u, ZhForm u (_zh_money_value m.1) ∧ pos.2 = u ++ m.2.2 := by
  obtain ⟨groups, last, rest⟩ := m
  simp only [zhHundreds, Pattern.concat, List.foldr_cons, List.foldr_nil, oneOf, is, mem_ends_seq,
    mem_ends_opt, mem_ends_empty, mem_ends_char, mem_ends_group_char, existsAndEq, and_true,
    true_and, Prod.exists, Prod.mk.injEq, List.nil_append, List.append_nil, List.cons_append,
    and_assoc] at h
  obtain ⟨gs, s, x, a, hpos, ha, hx, htail, rfl⟩ := h
  obtain rfl := eq_of_beq hx
  have ha := isNumeral_of (by decide) ha
  rcases htail with ⟨s₁, b, rfl, hb, gs₁, htail, rfl⟩ | ⟨rfl, -, rfl⟩
  · have hb := isNumeral_of (by decide) hb
    rcases htail with ⟨z, rfl, hz, rfl, -⟩ | ⟨rfl, -, rfl⟩
    · obtain rfl := eq_of_beq hz
      exact zhForm_of_value (ZhForm.hTs ha hb) (by simp [_zh_money_value, digit_cons_self, digit_cons_ne]) hpos
    · exact zhForm_of_value (ZhForm.hT ha hb) (by simp [_zh_money_value, digit_cons_self, digit_cons_ne]) hpos
  · exact zhForm_of_value (ZhForm.h ha) (by simp [_zh_money_value, digit_cons_self, digit_cons_ne]) hpos

/-- What a match of `_ZH_MONEY` covers is one of the forms, and its groups hold the value. -/
lemma zhForm_of_mem {prev : Option Nat} {t : Text} {m : Pattern.Groups ZhGroup Nat × Regex.Pos Nat}
    (h : m ∈ (_ZH_MONEY U).ends (prev, t)) :
    ∃ u, ZhForm u (_zh_money_value m.1) ∧ t = u ++ m.2.2 ∧ (∀ x ∈ prev, isRun U x = false) := by
  obtain ⟨m₁, hm₁, m', hm', rfl⟩ := mem_ends_seq.1 h
  obtain ⟨hbefore, rfl⟩ := mem_ends_beside.1 hm₁
  obtain ⟨m₂, hm₂, m'', hm'', rfl⟩ := mem_ends_seq.1 hm'
  obtain ⟨m₃, hm₃, m₄, hm₄, rfl⟩ := mem_ends_seq.1 hm''
  obtain ⟨-, rfl⟩ := mem_ends_beside.1 hm₃
  obtain rfl := mem_ends_empty.1 hm₄
  have hform : ∃ u, ZhForm u (_zh_money_value m₂.1) ∧ t = u ++ m₂.2.2 := by
    rcases mem_ends_alt.1 hm₂ with h | h
    · exact zhForm_of_mem_zhWan h
    rcases mem_ends_alt.1 h with h | h
    · exact zhForm_of_mem_zhThousands h
    · exact zhForm_of_mem_zhHundreds h
  obtain ⟨u, hu, ht⟩ := hform
  refine ⟨u, by simpa using hu, ht, ?_⟩
  rintro x rfl
  have hsub : ∀ c ∈ Text.ofString "零一二两三四五六七八九十百千万",
      c ∈ Text.ofString "一二两三四五六七八九十百千万零几数" := by decide
  simp only [Option.any_some, Bool.not_eq_true', Bool.or_eq_false_iff,
    decide_eq_false_iff_not] at hbefore
  simp only [isRun, hbefore.1, Bool.false_or, decide_eq_false_iff_not]
  exact fun hx => hbefore.2 (hsub x hx)

/-- What a match of `_DIGIT_THOUSANDS` covers is one of the forms, and its groups hold the value. -/
lemma digitForm_of_mem {prev : Option Nat} {t : Text} {m : Pattern.Groups Nat Nat × Regex.Pos Nat}
    (h : m ∈ (_DIGIT_THOUSANDS U).ends (prev, t)) :
    ∃ u, DigitForm U u (thousandsValue U m.1) ∧ t = u ++ m.2.2 ∧
      (∀ x ∈ prev, U.isDigit x = false) ∧ ∀ x ∈ m.2.2.head?, U.isDigit x = false := by
  obtain ⟨groups, last, rest⟩ := m
  simp only [_DIGIT_THOUSANDS, Pattern.concat, List.foldr_cons, List.foldr_nil, is, mem_ends_seq,
    mem_ends_opt, mem_ends_empty, mem_ends_beside, mem_ends_char, mem_ends_group_char, existsAndEq,
    and_true, true_and, Prod.exists, Prod.mk.injEq, List.nil_append, List.append_nil,
    List.cons_append, and_assoc] at h
  obtain ⟨hbefore, gs, s, x, a, ht, ha, hx, htail, hafter, rfl⟩ := h
  obtain rfl := eq_of_beq hx
  obtain ⟨n, hn⟩ := Option.isSome_iff_exists.1 ha
  have hprev : ∀ x ∈ prev, U.isDigit x = false := by
    rintro x rfl
    simp only [Option.any_some, Bool.not_eq_true', Bool.or_eq_false_iff] at hbefore
    exact hbefore.1
  have hrest : ∀ x ∈ rest.head?, U.isDigit x = false := by
    intro x hx
    rw [Option.mem_def.1 hx] at hafter
    simp only [Option.any_some, Bool.not_eq_true', Bool.or_eq_false_iff] at hafter
    exact hafter.1
  rcases htail with ⟨s₁, b, rfl, hb, gs₁, htail, rfl⟩ | ⟨rfl, -, rfl⟩
  · obtain ⟨l, hl⟩ := Option.isSome_iff_exists.1 hb
    have hvalue : thousandsValue U [(1, [a]), (2, [b])] = n * 1000 + l * 100 := by
      simp [thousandsValue, groupInt, List.lookup_cons, hn, hl]
    rcases htail with ⟨y, rfl, hy, rfl, -⟩ | ⟨rfl, -, rfl⟩
    · obtain rfl := eq_of_beq hy
      refine ⟨[a, thousand, b, hundred], ?_, ht, hprev, hrest⟩
      simp only [hvalue]
      exact DigitForm.kHundred hn hl
    · refine ⟨[a, thousand, b], ?_, ht, hprev, hrest⟩
      simp only [hvalue]
      exact DigitForm.kH hn hl
  · have hvalue : thousandsValue U [(1, [a])] = n * 1000 := by
      simp [thousandsValue, groupInt, List.lookup_cons, hn]
    refine ⟨[a, thousand], ?_, ht, hprev, hrest⟩
    simp only [hvalue]
    exact DigitForm.k hn

/-! ### The value of a form -/

namespace Reading

lemma step_digit {a n : Nat} (ha : U.value a = some n) (s : Reading) :
    step U s a = s.readDigit n := by
  simp only [step, ha]

lemma step_of_not_digit {a : Nat} (ha : U.value a = none) (s : Reading) :
    step U s a = s.readSign a := by
  simp only [step, ha]

lemma step_zero (s : Reading) : step U s zero = s.readZero :=
  step_of_not_digit U (U.not_numeral _ (by decide)) s

lemma step_ten (s : Reading) : step U s ten = s.readUnit 10 :=
  step_of_not_digit U (U.not_numeral _ (by decide)) s

lemma step_hundred (s : Reading) : step U s hundred = s.readUnit 100 :=
  step_of_not_digit U (U.not_numeral _ (by decide)) s

lemma step_thousand (s : Reading) : step U s thousand = s.readUnit 1000 :=
  step_of_not_digit U (U.not_numeral _ (by decide)) s

lemma step_myriad (s : Reading) : step U s myriad = s.readMyriad :=
  step_of_not_digit U (U.not_numeral _ (by decide)) s

lemma step_numeral {a : Nat} (ha : IsNumeral a) (s : Reading) :
    step U s a = s.readNumeral (zh a) := by
  have hnot : ∀ c ∈ Text.ofString "一二两三四五六七八九",
      c ∈ Text.ofString ".零一二两三四五六七八九十百千万几数多来余" := by decide
  rw [step_of_not_digit U (U.not_numeral a (hnot a ha))]
  have hcases : a = 0x4E00 ∨ a = 0x4E8C ∨ a = 0x4E24 ∨ a = 0x4E09 ∨ a = 0x56DB ∨ a = 0x4E94 ∨
      a = 0x516D ∨ a = 0x4E03 ∨ a = 0x516B ∨ a = 0x4E5D := by
    simpa [IsNumeral, Text.ofString] using ha
  rcases hcases with rfl | rfl | rfl | rfl | rfl | rfl | rfl | rfl | rfl | rfl <;> rfl

end Reading

open Reading in
/-- The value of a form is what the run says. -/
lemma ZhForm.runValue {u : Text} {n : Nat} (h : ZhForm u n) : runValue U u = some n := by
  cases h with
  | wan ha =>
    simp [ZhMoney.runValue, step_numeral U ha, step_myriad, start, readNumeral, readMyriad, count,
      ones, finish, ha.zh_pos.ne']
  | wanK ha hb =>
    simp [ZhMoney.runValue, step_numeral U ha, step_numeral U hb, step_myriad, start, readNumeral,
      readMyriad, count, ones, finish, atEnd, ha.zh_pos.ne']
  | k ha =>
    simp [ZhMoney.runValue, step_numeral U ha, step_thousand, start, readNumeral, readUnit, count,
      finish]
  | kTen ha hb =>
    simp [ZhMoney.runValue, step_numeral U ha, step_numeral U hb, step_thousand, step_zero,
      step_ten, start, readNumeral, readUnit, readZero, count, finish]
  | kH ha hb =>
    simp [ZhMoney.runValue, step_numeral U ha, step_numeral U hb, step_thousand, start,
      readNumeral, readUnit, finish, atEnd]
  | kHundred ha hb =>
    simp [ZhMoney.runValue, step_numeral U ha, step_numeral U hb, step_thousand, step_hundred,
      start, readNumeral, readUnit, count, finish]
  | kT ha hb hd =>
    simp [ZhMoney.runValue, step_numeral U ha, step_numeral U hb, step_numeral U hd,
      step_thousand, step_hundred, start, readNumeral, readUnit, finish, atEnd]
  | kTs ha hb hd =>
    simp [ZhMoney.runValue, step_numeral U ha, step_numeral U hb, step_numeral U hd,
      step_thousand, step_hundred, step_ten, start, readNumeral, readUnit, count, finish]
  | h ha =>
    simp [ZhMoney.runValue, step_numeral U ha, step_hundred, start, readNumeral, readUnit, count,
      finish]
  | hT ha hb =>
    simp [ZhMoney.runValue, step_numeral U ha, step_numeral U hb, step_hundred, start,
      readNumeral, readUnit, finish, atEnd]
  | hTs ha hb =>
    simp [ZhMoney.runValue, step_numeral U ha, step_numeral U hb, step_hundred, step_ten, start,
      readNumeral, readUnit, count, finish]

open Reading in
lemma DigitForm.runValue {u : Text} {n : Nat} (h : DigitForm U u n) : runValue U u = some n := by
  cases h with
  | k ha =>
    simp [ZhMoney.runValue, step_digit U ha, step_thousand, start, readDigit, readUnit, count,
      finish]
  | kH ha hb =>
    simp [ZhMoney.runValue, step_digit U ha, step_digit U hb, step_thousand, start, readDigit,
      readUnit, finish, atEnd]
  | kHundred ha hb =>
    simp [ZhMoney.runValue, step_digit U ha, step_digit U hb, step_thousand, step_hundred, start,
      readDigit, readUnit, count, finish]

/-! ### Forms that are followed by digits -/

/-- A reading that stands at a unit. -/
structure Reading.AtUnit (s : Reading) (n w : Nat) : Prop where
  gap : s.gap = false
  coefficient : s.coefficient = none
  value : s.myriads.getD 0 * 10000 + s.total = n
  unit : s.unit = some w
  le : w ≤ n
  cases : w = 10 ∨ w = 100 ∨ w = 1000 ∨ w = 10000

open Reading in
/-- A form ends at a unit or with a numeral. -/
lemma ZhForm.read {u : Text} {n : Nat} (h : ZhForm u n) :
    ∃ s, u.foldlM (step U) start = some s ∧
      ((∃ d, s.coefficient = some (.numeral d)) ∨ ∃ w, s.AtUnit n w) := by
  cases h with
  | @wan a ha =>
    refine ⟨⟨some (zh a), 0, some 10000, false, none⟩, ?_,
      .inr ⟨10000, rfl, rfl, by simp, rfl, ?_, by simp⟩⟩
    · simp [step_numeral U ha, step_myriad, start, readNumeral, readMyriad, count, ones, ha.zh_pos.ne']
    · have := ha.zh_pos
      omega
  | @wanK a b ha hb =>
    refine ⟨⟨some (zh a), 0, some 10000, false, some (.numeral (zh b))⟩, ?_, .inl ⟨_, rfl⟩⟩
    simp [step_numeral U ha, step_numeral U hb, step_myriad, start, readNumeral, readMyriad, count, ones, ha.zh_pos.ne']
  | @k a ha =>
    refine ⟨⟨none, zh a * 1000, some 1000, false, none⟩, ?_,
      .inr ⟨1000, rfl, rfl, by simp, rfl, ?_, by simp⟩⟩
    · simp [step_numeral U ha, step_thousand, start, readNumeral, readUnit]
    · have := ha.zh_pos
      omega
  | @kTen a b ha hb =>
    refine ⟨⟨none, zh a * 1000 + zh b * 10, some 10, false, none⟩, ?_,
      .inr ⟨10, rfl, rfl, by simp, rfl, ?_, by simp⟩⟩
    · simp [step_numeral U ha, step_numeral U hb, step_thousand, step_zero, step_ten, start, readNumeral, readUnit, readZero]
    · have := ha.zh_pos
      omega
  | @kH a b ha hb =>
    refine ⟨⟨none, zh a * 1000, some 1000, false, some (.numeral (zh b))⟩, ?_, .inl ⟨_, rfl⟩⟩
    simp [step_numeral U ha, step_numeral U hb, step_thousand, start, readNumeral, readUnit]
  | @kHundred a b ha hb =>
    refine ⟨⟨none, zh a * 1000 + zh b * 100, some 100, false, none⟩, ?_,
      .inr ⟨100, rfl, rfl, by simp, rfl, ?_, by simp⟩⟩
    · simp [step_numeral U ha, step_numeral U hb, step_thousand, step_hundred, start, readNumeral, readUnit]
    · have := ha.zh_pos
      omega
  | @kT a b d ha hb hd =>
    refine ⟨⟨none, zh a * 1000 + zh b * 100, some 100, false, some (.numeral (zh d))⟩, ?_, .inl ⟨_, rfl⟩⟩
    simp [step_numeral U ha, step_numeral U hb, step_numeral U hd, step_thousand, step_hundred, start, readNumeral, readUnit]
  | @kTs a b d ha hb hd =>
    refine ⟨⟨none, zh a * 1000 + zh b * 100 + zh d * 10, some 10, false, none⟩, ?_,
      .inr ⟨10, rfl, rfl, by simp, rfl, ?_, by simp⟩⟩
    · simp [step_numeral U ha, step_numeral U hb, step_numeral U hd, step_thousand, step_hundred, step_ten, start, readNumeral, readUnit]
    · have := ha.zh_pos
      omega
  | @h a ha =>
    refine ⟨⟨none, zh a * 100, some 100, false, none⟩, ?_,
      .inr ⟨100, rfl, rfl, by simp, rfl, ?_, by simp⟩⟩
    · simp [step_numeral U ha, step_hundred, start, readNumeral, readUnit]
    · have := ha.zh_pos
      omega
  | @hT a b ha hb =>
    refine ⟨⟨none, zh a * 100, some 100, false, some (.numeral (zh b))⟩, ?_, .inl ⟨_, rfl⟩⟩
    simp [step_numeral U ha, step_numeral U hb, step_hundred, start, readNumeral, readUnit]
  | @hTs a b ha hb =>
    refine ⟨⟨none, zh a * 100 + zh b * 10, some 10, false, none⟩, ?_,
      .inr ⟨10, rfl, rfl, by simp, rfl, ?_, by simp⟩⟩
    · simp [step_numeral U ha, step_numeral U hb, step_hundred, step_ten, start, readNumeral, readUnit]
    · have := ha.zh_pos
      omega

namespace Reading

variable {U}

/-- More digits extend the number that is being read. -/
lemma foldlM_digits {v : Text} (hv : ∀ c ∈ v, U.isDigit c) (s : Reading) (N k : Nat) :
    ∃ N', v.foldlM (step U) { s with coefficient := some (.digits N k) } =
      some { s with coefficient := some (.digits N' (k + v.length)) } := by
  induction v generalizing N k with
  | nil => exact ⟨N, rfl⟩
  | cons c v ih =>
    obtain ⟨d, hd⟩ := Option.isSome_iff_exists.1 (hv c (by simp))
    obtain ⟨N', hN'⟩ := ih (fun c hc => hv c (by simp [hc])) (10 * N + d) (k + 1)
    refine ⟨N', ?_⟩
    rw [List.foldlM_cons, step_digit U hd]
    simp only [readDigit, Option.bind_eq_bind, Option.bind_some, hN', List.length_cons]
    congr 4
    omega

lemma AtUnit.ones_lt {s : Reading} {n w : Nat} (h : s.AtUnit n w) {N x : Nat} {single : Bool}
    (hx : s.ones N single = some x) : x < s.total + w := by
  simp only [ones, h.unit] at hx
  split at hx
  case isTrue =>
    split at hx
    case isTrue hlt =>
      obtain rfl := Option.some.inj hx
      omega
    case isFalse => contradiction
  case isFalse => contradiction

lemma AtUnit.readDigit {s : Reading} {n w : Nat} (h : s.AtUnit n w) (d : Nat) :
    s.readDigit d = some { s with coefficient := some (.digits d 1) } := by
  simp only [Reading.readDigit, h.coefficient]

lemma finish_digits (s : Reading) (N k : Nat) :
    finish { s with coefficient := some (.digits N k) } =
      (s.atEnd N (k == 1)).map (s.myriads.getD 0 * 10000 + ·) := rfl

/-- Digits behind a unit add less than the unit. -/
lemma AtUnit.digits_lt {s : Reading} {n w : Nat} (h : s.AtUnit n w) {c : Nat} {v : Text}
    (hc : U.isDigit c) (hv : ∀ c ∈ v, U.isDigit c) {x : Nat}
    (hx : ((c :: v).foldlM (step U) s).bind finish = some x) : x < n + w := by
  obtain ⟨d, hd⟩ := Option.isSome_iff_exists.1 hc
  have hlt := U.value_lt c d hd
  have hvalue := h.value
  rw [List.foldlM_cons, step_digit U hd, h.readDigit, Option.bind_eq_bind, Option.bind_some] at hx
  cases v with
  | nil =>
    have hlast : s.total + d * (w / 10) < s.total + w := by
      rcases h.cases with rfl | rfl | rfl | rfl <;> omega
    rw [List.foldlM_nil, Option.pure_def, Option.bind_some, finish_digits] at hx
    simp only [atEnd, h.unit, h.gap, beq_self_eq_true, Bool.not_false, Bool.and_self, if_true,
      Option.map_some, Option.some.injEq] at hx
    omega
  | cons c' v =>
    obtain ⟨N, hN⟩ := foldlM_digits hv s d 1
    have hmany : (1 + (c' :: v).length == 1) = false := by simp
    rw [hN, Option.bind_some, finish_digits, hmany] at hx
    obtain ⟨y, hy, rfl⟩ := Option.map_eq_some_iff.1 hx
    simp only [atEnd, h.unit, Bool.false_and, Bool.false_eq_true, if_false] at hy
    have := h.ones_lt hy
    omega

lemma AtUnit.readThousand {s : Reading} {n w : Nat} (h : s.AtUnit n w) (d : Nat) :
    readUnit { s with coefficient := some (.digits d 1) } 1000 =
      if w = 10000 then
        some { s with total := s.total + d * 1000, unit := some 1000, gap := false,
                      coefficient := none }
      else none := by
  have hall : s.unit.all (1000 < ·) = decide (w = 10000) := by
    rw [h.unit]
    rcases h.cases with rfl | rfl | rfl | rfl <;> rfl
  simp only [readUnit, hall, decide_eq_true_eq]

lemma AtUnit.foldlM_thousand {s : Reading} {n w : Nat} (h : s.AtUnit n w) {a d : Nat}
    (ha : U.value a = some d) (v : Text) :
    (a :: thousand :: v).foldlM (step U) s =
      if w = 10000 then
        v.foldlM (step U) { s with total := s.total + d * 1000, unit := some 1000, gap := false,
                                   coefficient := none }
      else none := by
  rw [List.foldlM_cons, step_digit U ha, h.readDigit, Option.bind_eq_bind, Option.bind_some,
    List.foldlM_cons, step_thousand, h.readThousand]
  split <;> rfl

/-- So does a form in digits, behind `万`; behind a smaller unit it says nothing. -/
lemma AtUnit.digitForm_lt {s : Reading} {n w : Nat} (h : s.AtUnit n w) {v : Text} {m : Nat}
    (hv : DigitForm U v m) {x : Nat} (hx : (v.foldlM (step U) s).bind finish = some x) :
    x < n + w := by
  have hvalue := h.value
  by_cases hw : w = 10000
  · cases hv with
    | k ha =>
      have := U.value_lt _ _ ha
      rw [h.foldlM_thousand ha, if_pos hw] at hx
      simp [finish, count] at hx
      omega
    | kH ha hb =>
      have := U.value_lt _ _ ha
      have := U.value_lt _ _ hb
      rw [h.foldlM_thousand ha, if_pos hw] at hx
      simp [step_digit U hb, finish, Reading.readDigit, atEnd] at hx
      omega
    | kHundred ha hb =>
      have := U.value_lt _ _ ha
      have := U.value_lt _ _ hb
      rw [h.foldlM_thousand ha, if_pos hw] at hx
      simp [step_digit U hb, step_hundred, finish, count, Reading.readDigit, readUnit] at hx
      omega
  · cases hv with
    | k ha | kH ha _ | kHundred ha _ =>
      rw [h.foldlM_thousand ha, if_neg hw] at hx
      contradiction

end Reading

/-- A form with digits behind it, or with a form in digits behind it, does not say ten times as
much as the form. -/
lemma ZhForm.runValue_append_lt {u : Text} {n : Nat} (h : ZhForm u n) {c : Nat} {v : Text}
    (hc : U.isDigit c) (hv : (∀ c ∈ v, U.isDigit c) ∨ ∃ m, DigitForm U (c :: v) m) {x : Nat}
    (hx : ZhMoney.runValue U (u ++ c :: v) = some x) : x < 10 * n := by
  obtain ⟨s, hs, hend⟩ := h.read U
  rw [ZhMoney.runValue, List.foldlM_append, hs, Option.bind_eq_bind, Option.bind_some] at hx
  rcases hend with ⟨d, hd⟩ | ⟨w, hw⟩
  · obtain ⟨e, he⟩ := Option.isSome_iff_exists.1 hc
    rw [List.foldlM_cons, Reading.step_digit U he] at hx
    simp [Reading.readDigit, hd] at hx
  · have hle := hw.le
    have hpos : 0 < w := by rcases hw.cases with rfl | rfl | rfl | rfl <;> decide
    have hlt : x < n + w := by
      rcases hv with hv | ⟨m, hv⟩
      · exact hw.digits_lt hc hv hx
      · exact hw.digitForm_lt hv hx
    omega

end RentCompass.ZhMoney
