import RentCompass.Listings.ZhMoneyRuns

/-!
# When Chinese amounts are read exactly

A run is rewritten to its value or left alone if and only if no match of either expression in it
has a digit or a numeral directly beside it.
-/

namespace RentCompass.ZhMoney

open JsonValue (decimal digitsValue)

variable {U : Digits}

/-! ### Characters -/

lemma isDigit_of_ascii {c : Nat} (h : JsonValue.isDigit c) : U.isDigit c := by
  simp only [JsonValue.isDigit, Bool.and_eq_true, decide_eq_true_eq] at h
  have hvalue := U.ascii (c - 48) (by omega)
  rw [Nat.add_sub_cancel' h.1] at hvalue
  exact Option.isSome_iff_exists.2 ⟨_, hvalue⟩

lemma isRun_of_isDigit {c : Nat} (h : U.isDigit c) : isRun U c := by
  simp [isRun, h]

lemma isRun_of_mem {c : Nat} (h : c ∈ Text.ofString "零一二两三四五六七八九十百千万") : isRun U c := by
  simp [isRun, h]

lemma IsNumeral.isRun {a : Nat} (h : IsNumeral a) : isRun U a := by
  have hsub : ∀ c ∈ Text.ofString "一二两三四五六七八九",
      c ∈ Text.ofString "零一二两三四五六七八九十百千万" := by decide
  exact isRun_of_mem (hsub a h)

lemma isDigit_eq_false {c : Nat} (h : c ∈ Text.ofString ".零一二两三四五六七八九十百千万几数多来余") :
    U.isDigit c = false := by
  rw [Digits.isDigit, U.not_numeral c h]
  rfl

/-- The characters of both expressions are digits and numerals. -/
lemma within_digitThousands : (_DIGIT_THOUSANDS U).Within (isRun U) := by
  have hdigit : ∀ c, U.isDigit c → isRun U c := fun _ => isRun_of_isDigit
  have his (d : Nat) (hd : d ∈ Text.ofString "零一二两三四五六七八九十百千万") :
      ∀ c, (c == d) = true → isRun U c := fun c hc => eq_of_beq hc ▸ isRun_of_mem hd
  simp only [_DIGIT_THOUSANDS, Pattern.concat, List.foldr_cons, List.foldr_nil, Pattern.opt, is,
    Pattern.Within, Regex.Within, true_and, and_true]
  exact ⟨hdigit, his _ (by decide), hdigit, his _ (by decide)⟩

lemma within_zhMoney : (_ZH_MONEY U).Within (isRun U) := by
  have his (d : Nat) (hd : d ∈ Text.ofString "零一二两三四五六七八九十百千万") :
      ∀ c, (c == d) = true → isRun U c := fun c hc => eq_of_beq hc ▸ isRun_of_mem hd
  have hone (s : String) (hs : ∀ c ∈ Text.ofString s, IsNumeral c) :
      ∀ c, decide (c ∈ Text.ofString s) = true → isRun U c :=
    fun c hc => (hs c (of_decide_eq_true hc)).isRun
  simp only [_ZH_MONEY, _ZH_NUMERAL_BEFORE, _ZH_NUMERAL_AFTER, zhWan, zhThousands, zhHundreds,
    oneOf, Pattern.concat, List.foldr_cons, List.foldr_nil, Pattern.opt, is, Pattern.Within,
    Regex.Within, true_and, and_true]
  refine ⟨⟨hone _ (by decide), his _ (by decide), hone _ (by decide)⟩,
    ⟨hone _ (by decide), his _ (by decide), ⟨his _ (by decide), hone _ (by decide), his _ (by decide)⟩,
      hone _ (by decide), his _ (by decide), hone _ (by decide), his _ (by decide)⟩,
    hone _ (by decide), his _ (by decide), hone _ (by decide), his _ (by decide)⟩

/-! ### Matches -/

lemma digitForm_of_matchAt {b : Option Nat} {t : Text} {m : Pattern.Found Nat Nat}
    (h : (_DIGIT_THOUSANDS U).matchAt (b, t) = some m) :
    DigitForm U m.text (thousandsValue U m.groups) ∧ (∀ x ∈ b, U.isDigit x = false) ∧
      ∀ x ∈ m.after, U.isDigit x = false := by
  obtain ⟨rest, ht, -, -, -, hafter, hmem⟩ := Pattern.exists_of_matchAt within_digitThousands h
  obtain ⟨u, hu, ht', hprev, hrest⟩ := digitForm_of_mem U hmem
  obtain rfl := List.append_cancel_right (ht.symm.trans ht')
  exact ⟨hu, hprev, hafter ▸ hrest⟩

lemma zhForm_of_matchAt {b : Option Nat} {t : Text} {m : Pattern.Found ZhGroup Nat}
    (h : (_ZH_MONEY U).matchAt (b, t) = some m) :
    ZhForm m.text (_zh_money_value m.groups) ∧ ∀ x ∈ b, isRun U x = false := by
  obtain ⟨rest, ht, -, -, -, -, hmem⟩ := Pattern.exists_of_matchAt within_zhMoney h
  obtain ⟨u, hu, ht', hprev⟩ := zhForm_of_mem U hmem
  obtain rfl := List.append_cancel_right (ht.symm.trans ht')
  exact ⟨hu, hprev⟩

/-! ### Units -/

/-- `百`, `千` and `万`. -/
def isUnit (c : Nat) : Bool := c == hundred || c == thousand || c == myriad

/-- How many units a text has. -/
def units (t : Text) : Nat := t.countP isUnit

@[simp] lemma units_append (s t : Text) : units (s ++ t) = units s + units t :=
  List.countP_append

lemma units_cons_le (c : Nat) (t : Text) : units t ≤ units (c :: t) :=
  (List.sublist_cons_self c t).countP_le

lemma ascii_decimal (n : Nat) : ∀ c ∈ decimal n, JsonValue.isDigit c := by
  rcases JsonValue.decimal_isInt n with h | ⟨-, -, h⟩
  · rw [h]
    decide
  · exact h

lemma decimal_ne_nil (n : Nat) : decimal n ≠ [] := by
  rcases JsonValue.decimal_isInt n with h | ⟨-, h, -⟩
  · simp [h]
  · exact h

lemma isUnit_of_ascii {c : Nat} (h : JsonValue.isDigit c) : isUnit c = false := by
  simp only [JsonValue.isDigit, Bool.and_eq_true, decide_eq_true_eq] at h
  simp only [isUnit, hundred, thousand, myriad, Bool.or_eq_false_iff, beq_eq_false_iff_ne]
  omega

lemma units_of_ascii {t : Text} (h : ∀ c ∈ t, JsonValue.isDigit c) : units t = 0 := by
  rw [units, List.countP_eq_zero]
  intro c hc
  simp [isUnit_of_ascii (h c hc)]

lemma DigitForm.units_pos {u : Text} {n : Nat} (h : DigitForm U u n) : 0 < units u := by
  rw [units, List.countP_pos_iff]
  exact ⟨thousand, by cases h <;> simp, rfl⟩

lemma ZhForm.units_pos {u : Text} {n : Nat} (h : ZhForm u n) : 0 < units u := by
  rw [units, List.countP_pos_iff]
  cases h with
  | wan | wanK => exact ⟨myriad, by simp, rfl⟩
  | k | kTen | kH | kHundred | kT | kTs => exact ⟨thousand, by simp, rfl⟩
  | h | hT | hTs => exact ⟨hundred, by simp, rfl⟩

/-! ### One run -/

section

variable (U) (after : Text) (b : Option Nat)

/-- A run after the first substitution. -/
def thousandsIn (r : Text) : Text :=
  (_DIGIT_THOUSANDS U).subIn (fun m => decimal (thousandsValue U m.groups)) after b r

/-- A run after the second. -/
def moneyIn (r : Text) : Text :=
  (_ZH_MONEY U).subIn (fun m => decimal (_zh_money_value m.groups)) after b r

/-- What becomes of a run. -/
def runOut (r : Text) : Text := moneyIn U after b (thousandsIn U after b r)

end

lemma DigitForm.head {u : Text} {n : Nat} (h : DigitForm U u n) :
    ∃ a v, u = a :: v ∧ U.isDigit a := by
  cases h with
  | k ha | kH ha _ | kHundred ha _ => exact ⟨_, _, rfl, Option.isSome_iff_exists.2 ⟨_, ha⟩⟩

lemma ZhForm.head {u : Text} {n : Nat} (h : ZhForm u n) : ∃ a v, u = a :: v ∧ IsNumeral a := by
  cases h with
  | wan ha | wanK ha _ | k ha | kTen ha _ | kH ha _ | kHundred ha _ | kT ha _ _ | kTs ha _ _
  | h ha | hT ha _ | hTs ha _ => exact ⟨_, _, rfl, ha⟩

lemma IsNumeral.not_digit {a : Nat} (h : IsNumeral a) : U.isDigit a = false := by
  have hsub : ∀ c ∈ Text.ofString "一二两三四五六七八九",
      c ∈ Text.ofString ".零一二两三四五六七八九十百千万几数多来余" := by decide
  exact isDigit_eq_false (hsub a h)

lemma ZhForm.not_ascii {u : Text} {n : Nat} (h : ZhForm u n) :
    ∀ c ∈ u, JsonValue.isDigit c = false := by
  have hnumeral {a : Nat} (ha : IsNumeral a) : JsonValue.isDigit a = false := by
    have : ∀ c ∈ Text.ofString "一二两三四五六七八九", JsonValue.isDigit c = false := by decide
    exact this a ha
  have hsign : JsonValue.isDigit myriad = false ∧ JsonValue.isDigit thousand = false ∧
      JsonValue.isDigit hundred = false ∧ JsonValue.isDigit ten = false ∧
      JsonValue.isDigit zero = false := by decide
  obtain ⟨hmyriad, hthousand, hhundred, hten, hzero⟩ := hsign
  cases h <;> simp_all

/-- Behind a character of a run `_ZH_MONEY` does not match. -/
lemma moneyIn_behind {after : Text} {x : Nat} (hx : isRun U x) {r : Text} (hr : ∀ c ∈ r, isRun U c) :
    (_ZH_MONEY U).finds after (some x) r = [] := by
  induction r generalizing x with
  | nil => rfl
  | cons c r ih =>
    have hnone : (_ZH_MONEY U).matchAt (some x, c :: r ++ after) = none := by
      cases h : (_ZH_MONEY U).matchAt (some x, c :: r ++ after) with
      | none => rfl
      | some m =>
        have := (zhForm_of_matchAt h).2 x rfl
        rw [hx] at this
        contradiction
    rw [Pattern.finds_plain hnone]
    exact ih (hr c (by simp)) fun d hd => hr d (by simp [hd])

section

variable {after : Text} (hafter : ∀ x ∈ after.head?, isRun U x = false) {b : Option Nat}
include hafter

/-- Every match takes a unit away. -/
lemma finds_eq_nil_or_units_lt {γ : Type} {p : Pattern γ Nat} (hp : p.Within (isRun U))
    {f : Pattern.Found γ Nat → Text} (hf : ∀ m, units (f m) = 0)
    (hm : ∀ b t m, p.matchAt (b, t) = some m → 0 < units m.text) (r : Text) :
    p.finds after b r = [] ∨ units (p.subIn f after b r) < units r := by
  induction b, r using Pattern.scan_induction hp hafter with
  | nil b => exact .inl rfl
  | plain b x t hnone ih =>
    rw [Pattern.finds_plain hnone, Pattern.subIn_plain hnone]
    refine ih.imp_right fun hlt => ?_
    rw [← List.singleton_append, ← List.singleton_append (l := t), units_append, units_append]
    exact Nat.add_lt_add_left hlt _
  | found b m t hmatch hne ih =>
    right
    have hle : units (p.subIn f after (m.text.getLast?.or b) t) ≤ units t := by
      rcases ih with hnil | hlt
      · rw [Pattern.subIn_of_finds_nil hp hafter hnil]
      · exact hlt.le
    have hpos := hm _ _ _ hmatch
    rw [Pattern.subIn_found hne hmatch, units_append, units_append, hf]
    omega

lemma thousandsIn_units (r : Text) :
    (_DIGIT_THOUSANDS U).finds after b r = [] ∨ units (thousandsIn U after b r) < units r :=
  finds_eq_nil_or_units_lt hafter within_digitThousands
    (fun _ => units_of_ascii (ascii_decimal _)) (fun _ _ _ h => (digitForm_of_matchAt h).1.units_pos)
    r

lemma moneyIn_units (r : Text) :
    (_ZH_MONEY U).finds after b r = [] ∨ units (moneyIn U after b r) < units r :=
  finds_eq_nil_or_units_lt hafter within_zhMoney
    (fun _ => units_of_ascii (ascii_decimal _)) (fun _ _ _ h => (zhForm_of_matchAt h).1.units_pos) r

lemma thousandsIn_of_finds_nil {r : Text} (h : (_DIGIT_THOUSANDS U).finds after b r = []) :
    thousandsIn U after b r = r := Pattern.subIn_of_finds_nil within_digitThousands hafter h

lemma moneyIn_of_finds_nil {r : Text} (h : (_ZH_MONEY U).finds after b r = []) :
    moneyIn U after b r = r := Pattern.subIn_of_finds_nil within_zhMoney hafter h

/-- A run that comes out as it was has no match. -/
lemma finds_nil_of_runOut_eq {r : Text} (h : runOut U after b r = r) :
    (_DIGIT_THOUSANDS U).finds after b r = [] ∧ (_ZH_MONEY U).finds after b r = [] := by
  have hmoney := moneyIn_units (U := U) hafter (b := b) (thousandsIn U after b r)
  have hle : units (moneyIn U after b (thousandsIn U after b r)) ≤
      units (thousandsIn U after b r) := by
    rcases hmoney with hnil | hlt
    · rw [moneyIn_of_finds_nil hafter hnil]
    · exact hlt.le
  rcases thousandsIn_units (U := U) hafter (b := b) r with hnil | hlt
  · refine ⟨hnil, ?_⟩
    rw [runOut, thousandsIn_of_finds_nil hafter hnil] at h
    rcases moneyIn_units (U := U) hafter (b := b) r with hnil' | hlt
    · exact hnil'
    · rw [h] at hlt
      exact absurd hlt (lt_irrefl _)
  · rw [runOut] at h
    rw [h] at hle
    omega

/-- Without a unit nothing happens. -/
lemma finds_nil_of_units {r : Text} (h : units r = 0) :
    (_DIGIT_THOUSANDS U).finds after b r = [] ∧ (_ZH_MONEY U).finds after b r = [] := by
  constructor
  · exact (thousandsIn_units hafter r).resolve_right (by omega)
  · exact (moneyIn_units hafter r).resolve_right (by omega)

lemma runOut_of_finds_nil {r : Text} (h : (_DIGIT_THOUSANDS U).finds after b r = [])
    (h' : (_ZH_MONEY U).finds after b r = []) : runOut U after b r = r := by
  rw [runOut, thousandsIn_of_finds_nil hafter h, moneyIn_of_finds_nil hafter h']

/-! ### Where the expressions match -/

/-- `_ZH_MONEY` matches at the start of a run or not at all. -/
lemma moneyIn_cases {r : Text} (hr : ∀ c ∈ r, isRun U c) :
    (_ZH_MONEY U).finds after b r = [] ∨
      ∃ m rest, r = m.text ++ rest ∧ (_ZH_MONEY U).matchAt (b, r ++ after) = some m ∧
        (_ZH_MONEY U).finds after b r = [m] ∧
        moneyIn U after b r = decimal (_zh_money_value m.groups) ++ rest := by
  cases r with
  | nil => exact .inl rfl
  | cons c r =>
    cases h : (_ZH_MONEY U).matchAt (b, c :: r ++ after) with
    | none =>
      left
      rw [Pattern.finds_plain h]
      exact moneyIn_behind (hr c (by simp)) fun d hd => hr d (by simp [hd])
    | some m =>
      right
      obtain ⟨rest, hrest, hne, -⟩ := Pattern.exists_rest within_zhMoney hafter h
      rw [hrest] at h hr
      obtain ⟨x, hx⟩ : ∃ x, m.text.getLast? = some x := ⟨_, List.getLast?_eq_some_getLast hne⟩
      have hrun : isRun U x := hr x (List.mem_append_left _ (List.mem_of_getLast? hx))
      have hnil : (_ZH_MONEY U).finds after (m.text.getLast?.or b) rest = [] := by
        rw [hx]
        exact moneyIn_behind hrun fun d hd => hr d (List.mem_append_right _ hd)
      refine ⟨m, rest, hrest, rfl, ?_, ?_⟩
      · rw [hrest, Pattern.finds_found hne h, hnil]
      · rw [hrest, moneyIn, Pattern.subIn_found hne h,
          Pattern.subIn_of_finds_nil within_zhMoney hafter hnil]

lemma thousandsIn_behind_match {m : Pattern.Found Nat Nat} {t : Text}
    (hm : (_DIGIT_THOUSANDS U).matchAt (b, m.text ++ t ++ after) = some m)
    (h : ∀ c ∈ thousandsIn U after (m.text.getLast?.or b) t, JsonValue.isDigit c) : t = [] := by
  cases t with
  | nil => rfl
  | cons d t =>
    obtain ⟨rest, hrest, -, -, hafterm, -⟩ := Pattern.exists_rest within_digitThousands hafter hm
    obtain rfl := List.append_cancel_left hrest
    have hnot : U.isDigit d = false := (digitForm_of_matchAt hm).2.2 d hafterm
    have hnone : (_DIGIT_THOUSANDS U).matchAt (m.text.getLast?.or b, d :: t ++ after) = none := by
      cases h' : (_DIGIT_THOUSANDS U).matchAt (m.text.getLast?.or b, d :: t ++ after) with
      | none => rfl
      | some m' =>
        obtain ⟨a, v, hv, ha⟩ := (digitForm_of_matchAt h').1.head
        obtain ⟨rest', ht, -⟩ := Pattern.exists_of_matchAt within_digitThousands h'
        rw [hv, List.cons_append, List.cons_append, List.cons.injEq] at ht
        rw [← ht.1, hnot] at ha
        contradiction
    rw [thousandsIn, Pattern.subIn_plain hnone] at h
    have := isDigit_of_ascii (U := U) (h d (by simp))
    rw [hnot] at this
    contradiction

/-- Where the first substitution leaves only digits, there were only digits, or one match. -/
lemma thousandsIn_ascii {r : Text}
    (h : ∀ c ∈ thousandsIn U after b r, JsonValue.isDigit c) :
    (∀ c ∈ r, JsonValue.isDigit c) ∨
      ∃ m, (_DIGIT_THOUSANDS U).matchAt (b, r ++ after) = some m ∧ m.text = r := by
  induction b, r using Pattern.scan_induction within_digitThousands hafter with
  | nil b => exact .inl (by simp)
  | plain b x t hnone ih =>
    rw [thousandsIn, Pattern.subIn_plain hnone] at h
    have hx := h x (by simp)
    rcases ih fun c hc => h c (List.mem_cons_of_mem x hc) with hall | ⟨m, hm, -⟩
    · left
      intro c hc
      rcases List.mem_cons.1 hc with rfl | hc
      · exact hx
      · exact hall c hc
    · have := (digitForm_of_matchAt hm).2.1 x rfl
      rw [isDigit_of_ascii hx] at this
      contradiction
  | found b m t hm hne ih =>
    rw [thousandsIn, Pattern.subIn_found hne hm] at h
    obtain rfl := thousandsIn_behind_match hafter hm fun c hc => h c (List.mem_append_right _ hc)
    exact .inr ⟨m, hm, (List.append_nil _).symm⟩

/-- What the first substitution leaves of characters that are no digits was there before. -/
lemma thousandsIn_append {w v r : Text}
    (hw : ∀ c ∈ w, JsonValue.isDigit c = false) (h : thousandsIn U after b r = w ++ v) :
    ∃ s, r = w ++ s ∧ thousandsIn U after (w.getLast?.or b) s = v := by
  induction w generalizing b r with
  | nil => exact ⟨r, rfl, h⟩
  | cons d w ih =>
    cases r with
    | nil => contradiction
    | cons c r =>
      cases hm : (_DIGIT_THOUSANDS U).matchAt (b, c :: r ++ after) with
      | none =>
        rw [thousandsIn, Pattern.subIn_plain hm, List.cons_append, List.cons.injEq] at h
        obtain ⟨rfl, h⟩ := h
        obtain ⟨s, rfl, hs⟩ := ih (fun c hc => hw c (by simp [hc])) h
        exact ⟨s, rfl, by rwa [Pattern.getLast?_cons_or]⟩
      | some m =>
        obtain ⟨rest, hrest, hne, -⟩ := Pattern.exists_rest within_digitThousands hafter hm
        rw [hrest] at hm h
        rw [thousandsIn, Pattern.subIn_found hne hm] at h
        obtain ⟨e, es, hes⟩ := List.exists_cons_of_ne_nil (decimal_ne_nil (thousandsValue U m.groups))
        rw [hes, List.cons_append, List.cons_append, List.cons.injEq] at h
        have hascii := ascii_decimal (thousandsValue U m.groups) e (by simp [hes])
        have := hw d (by simp)
        rw [← h.1, hascii] at this
        contradiction

lemma thousandsIn_ne_nil {r : Text} (hr : r ≠ []) : thousandsIn U after b r ≠ [] := by
  induction b, r using Pattern.scan_induction within_digitThousands hafter with
  | nil b => contradiction
  | plain b x t hnone ih =>
    rw [thousandsIn, Pattern.subIn_plain hnone]
    simp
  | found b m t hm hne ih =>
    rw [thousandsIn, Pattern.subIn_found hne hm]
    simp [decimal_ne_nil]

lemma thousandsIn_isRun {r : Text} (hr : ∀ c ∈ r, isRun U c) :
    ∀ c ∈ thousandsIn U after b r, isRun U c := by
  induction b, r using Pattern.scan_induction within_digitThousands hafter with
  | nil b => exact hr
  | plain b x t hnone ih =>
    rw [thousandsIn, Pattern.subIn_plain hnone]
    intro c hc
    rcases List.mem_cons.1 hc with rfl | hc
    · exact hr c (by simp)
    · exact ih (fun d hd => hr d (by simp [hd])) c hc
  | found b m t hm hne ih =>
    rw [thousandsIn, Pattern.subIn_found hne hm]
    intro c hc
    rcases List.mem_append.1 hc with hc | hc
    · exact isRun_of_isDigit (isDigit_of_ascii (ascii_decimal _ c hc))
    · exact ih (fun d hd => hr d (by simp [hd])) c hc

lemma runOut_isRun {r : Text} (hr : ∀ c ∈ r, isRun U c) :
    ∀ c ∈ runOut U after b r, isRun U c := by
  have hmid := thousandsIn_isRun hafter (b := b) hr
  rcases moneyIn_cases hafter (b := b) hmid with hnil | ⟨m, rest, hrest, -, -, hout⟩
  · rwa [runOut, moneyIn_of_finds_nil hafter hnil]
  · rw [runOut, hout]
    intro c hc
    rcases List.mem_append.1 hc with hc | hc
    · exact isRun_of_isDigit (isDigit_of_ascii (ascii_decimal _ c hc))
    · exact hmid c (hrest ▸ List.mem_append_right _ hc)

end

/-! ### Which runs are read exactly -/

/-- No character of a run stands directly beside the match. -/
def Alone (U : Digits) {γ : Type} (m : Pattern.Found γ Nat) : Prop :=
  (∀ x ∈ m.before, isRun U x = false) ∧ ∀ x ∈ m.after, isRun U x = false

/-- A run that has a unit becomes its value or stays; another run stays. -/
def ReadOrKept (U : Digits) (r r' : Text) : Prop :=
  r' = r ∨ 0 < units r ∧ ∃ n, runValue U r = some n ∧ r' = decimal n

lemma ReadOrKept.all_run {r r' : Text} (h : ReadOrKept U r r') (hr : ∀ c ∈ r, isRun U c) :
    ∀ c ∈ r', isRun U c := by
  rcases h with rfl | ⟨-, n, -, rfl⟩
  · exact hr
  · exact fun c hc => isRun_of_isDigit (isDigit_of_ascii (ascii_decimal n c hc))

lemma le_digitsValue_append (s : Text) {t : Text} (ht : t ≠ []) :
    10 * digitsValue s ≤ digitsValue (s ++ t) := by
  have hlen : 0 < t.length := List.length_pos_of_ne_nil ht
  have hpow : 10 ≤ 10 ^ t.length := Nat.le_self_pow hlen.ne' 10
  rw [digitsValue, digitsValue, List.map_append, List.reverse_append, Nat.ofDigits_append,
    List.length_reverse, List.length_map]
  exact (Nat.mul_le_mul_right _ hpow).trans (Nat.le_add_left _ _)

/-- An amount with digits after it is not the number that the run says. -/
lemma ZhForm.append_ne {u s t : Text} {n x : Nat} (h : ZhForm u n) {c : Nat} (hc : U.isDigit c)
    (hs : (∀ c ∈ s, U.isDigit c) ∨ ∃ m, DigitForm U (c :: s) m)
    (hx : ZhMoney.runValue U (u ++ c :: s) = some x) (ht : t ≠ []) : decimal n ++ t ≠ decimal x := by
  intro heq
  have hlt := h.runValue_append_lt U hc hs hx
  have hle := le_digitsValue_append (decimal n) ht
  rw [heq, JsonValue.digitsValue_decimal, JsonValue.digitsValue_decimal] at hle
  omega

section

variable {after : Text} (hafter : ∀ x ∈ after.head?, isRun U x = false) {b : Option Nat}
include hafter

lemma whole_of_alone {γ : Type} {p : Pattern γ Nat} (hp : p.Within (isRun U)) {r : Text}
    (hr : ∀ c ∈ r, isRun U c) {m : Pattern.Found γ Nat} (h : m ∈ p.finds after b r)
    (halone : Alone U m) : r = m.text ∧ p.matchAt (b, r ++ after) = some m := by
  obtain ⟨u, v, rfl, hbefore, hafterm, hm⟩ := Pattern.exists_of_mem_finds hp hafter h
  obtain rfl : u = [] := by
    by_contra hne
    have hlast := List.getLast?_eq_some_getLast hne
    rw [hlast] at hbefore
    have := halone.1 _ hbefore
    rw [hr _ (by simp)] at this
    contradiction
  obtain rfl : v = [] := by
    cases v with
    | nil => rfl
    | cons c v =>
      have := halone.2 c hafterm
      rw [hr c (by simp)] at this
      contradiction
  have hprev : m.before = b := hbefore
  rw [hprev] at hm
  exact ⟨by simp, by simpa using hm⟩

variable (hprev : ∀ x ∈ b, isRun U x = false) {r : Text} (hr : ∀ c ∈ r, isRun U c)
include hr

/-- Where every match stands alone, the run is read or kept. -/
lemma readOrKept_of_alone (hD : ∀ m ∈ (_DIGIT_THOUSANDS U).finds after b r, Alone U m)
    (hZ : ∀ m ∈ (_ZH_MONEY U).finds after b r, Alone U m) :
    ReadOrKept U r (runOut U after b r) := by
  cases hfinds : (_DIGIT_THOUSANDS U).finds after b r with
  | nil =>
    rcases moneyIn_cases hafter (b := b) hr with hnil | ⟨m, rest, hrest, hm, hmoney, hout⟩
    · exact .inl (runOut_of_finds_nil hafter hfinds hnil)
    · have hmem : m ∈ (_ZH_MONEY U).finds after b r := by simp [hmoney]
      obtain ⟨hwhole, -⟩ := whole_of_alone hafter within_zhMoney hr hmem (hZ m hmem)
      obtain rfl : rest = [] := by
        rw [hwhole] at hrest
        simpa using hrest
      have hform := (zhForm_of_matchAt hm).1
      rw [← hwhole] at hform
      refine .inr ⟨hform.units_pos, _, hform.runValue U, ?_⟩
      rw [runOut, thousandsIn_of_finds_nil hafter hfinds, hout, List.append_nil]
  | cons m ms =>
    have hmem : m ∈ (_DIGIT_THOUSANDS U).finds after b r := by simp [hfinds]
    obtain ⟨hwhole, hm⟩ := whole_of_alone hafter within_digitThousands hr hmem (hD m hmem)
    have hform := (digitForm_of_matchAt hm).1
    have hne : m.text ≠ [] := by
      obtain ⟨a, v, hv, -⟩ := hform.head
      simp [hv]
    have hout : thousandsIn U after b r = decimal (thousandsValue U m.groups) := by
      rw [hwhole, ← List.append_nil m.text] at hm ⊢
      rw [thousandsIn, Pattern.subIn_found hne hm, Pattern.subIn_nil, List.append_nil]
    rw [← hwhole] at hform
    refine .inr ⟨hform.units_pos, _, hform.runValue U, ?_⟩
    have hnil := (finds_nil_of_units (U := U) hafter (b := b)
      (units_of_ascii (ascii_decimal (thousandsValue U m.groups)))).2
    rw [runOut, hout, moneyIn_of_finds_nil hafter hnil]

include hprev

/-- A run that one match of `_DIGIT_THOUSANDS` covers has no other match. -/
lemma alone_of_digitThousands {m : Pattern.Found Nat Nat}
    (hm : (_DIGIT_THOUSANDS U).matchAt (b, r ++ after) = some m) (hwhole : m.text = r) :
    (∀ m ∈ (_DIGIT_THOUSANDS U).finds after b r, Alone U m) ∧
      ∀ m ∈ (_ZH_MONEY U).finds after b r, Alone U m := by
  obtain ⟨rest, hrest, hne, hbefore, hafterm, -⟩ :=
    Pattern.exists_rest within_digitThousands hafter hm
  obtain rfl : rest = [] := by
    rw [hwhole] at hrest
    simpa using hrest
  have hfinds : (_DIGIT_THOUSANDS U).finds after b r = [m] := by
    rw [hrest] at hm ⊢
    rw [Pattern.finds_found hne hm, Pattern.finds_nil]
  constructor
  · rw [hfinds]
    rintro _ (_ | _)
    · exact ⟨hbefore ▸ hprev, hafterm ▸ hafter⟩
    · contradiction
  · rcases moneyIn_cases hafter (b := b) hr with hnil | ⟨m', rest', hrest', hm', -, -⟩
    · simp [hnil]
    · obtain ⟨a, v, hv, ha⟩ := (digitForm_of_matchAt hm).1.head
      obtain ⟨e, w, hw, he⟩ := (zhForm_of_matchAt hm').1.head
      rw [← hwhole, hv, hw, List.cons_append, List.cons.injEq] at hrest'
      rw [hrest'.1, he.not_digit] at ha
      contradiction

/-- Where the run is read or kept, every match stands alone. -/
lemma alone_of_readOrKept (h : ReadOrKept U r (runOut U after b r)) :
    (∀ m ∈ (_DIGIT_THOUSANDS U).finds after b r, Alone U m) ∧
      ∀ m ∈ (_ZH_MONEY U).finds after b r, Alone U m := by
  have hnone (hnil : (_DIGIT_THOUSANDS U).finds after b r = [] ∧
      (_ZH_MONEY U).finds after b r = []) :
      (∀ m ∈ (_DIGIT_THOUSANDS U).finds after b r, Alone U m) ∧
        ∀ m ∈ (_ZH_MONEY U).finds after b r, Alone U m := by
    rw [hnil.1, hnil.2]
    simp
  rcases h with hkept | ⟨-, x, hx, hout⟩
  · exact hnone (finds_nil_of_runOut_eq hafter hkept)
  have hascii : ∀ c ∈ runOut U after b r, JsonValue.isDigit c := hout ▸ ascii_decimal x
  have hmid := thousandsIn_isRun hafter (b := b) hr
  rcases moneyIn_cases hafter (b := b) hmid with hnil | ⟨m, rest, hrest, hm, hfinds, hmoney⟩
  · -- the first substitution alone made the run digits
    rw [runOut, moneyIn_of_finds_nil hafter hnil] at hascii
    rcases thousandsIn_ascii hafter hascii with hdigits | ⟨m, hm, hwhole⟩
    · exact hnone (finds_nil_of_units hafter (units_of_ascii hdigits))
    · exact alone_of_digitThousands hafter hprev hr hm hwhole
  · -- an amount came first, so digits behind it would belong to another number
    rw [runOut, hmoney] at hascii hout
    obtain ⟨s, hs, hsrest⟩ := thousandsIn_append hafter (zhForm_of_matchAt hm).1.not_ascii hrest
    have hform := (zhForm_of_matchAt hm).1
    rcases thousandsIn_ascii hafter (r := s) (b := m.text.getLast?.or b)
      (hsrest ▸ fun c hc => hascii c (List.mem_append_right _ hc)) with hdigits | ⟨m', hm', hwhole⟩
    · have hnil := (finds_nil_of_units (U := U) hafter (b := m.text.getLast?.or b)
        (units_of_ascii hdigits)).1
      rw [thousandsIn_of_finds_nil hafter hnil] at hsrest
      subst hsrest
      cases s with
      | nil =>
        have hsame : thousandsIn U after b r = r := hrest.trans hs.symm
        have hD := (thousandsIn_units (U := U) hafter (b := b) r).resolve_right (by
          rw [hsame]
          exact lt_irrefl _)
        rw [hsame] at hfinds hm
        obtain ⟨rest', hrest', -, hbefore, hafterm, -⟩ :=
          Pattern.exists_rest within_zhMoney hafter hm
        obtain rfl : rest' = [] := by
          rw [List.append_nil] at hs
          rw [hs] at hrest'
          simpa using hrest'
        rw [hD, hfinds]
        refine ⟨by simp, ?_⟩
        rintro _ (_ | _)
        · exact ⟨hbefore ▸ hprev, hafterm ▸ hafter⟩
        · contradiction
      | cons c s =>
        have hdigit : ∀ d ∈ c :: s, U.isDigit d := fun d hd => isDigit_of_ascii (hdigits d hd)
        rw [hs] at hx
        exact absurd hout (hform.append_ne (hdigit c (by simp))
          (.inl fun d hd => hdigit d (by simp [hd])) hx (by simp))
    · have hdigitForm := (digitForm_of_matchAt hm').1
      rw [hwhole] at hdigitForm
      obtain ⟨c, s, rfl, hc⟩ := hdigitForm.head
      rw [hs] at hx
      have hne : rest ≠ [] := by
        rw [← hsrest]
        exact thousandsIn_ne_nil hafter (by simp)
      exact absurd hout (hform.append_ne hc (.inr ⟨_, hdigitForm⟩) hx hne)

end

/-! ### Texts -/

/-- The two substitutions in a text that `b` stands before. -/
def moneyFrom (U : Digits) (b : Option Nat) (t : Text) : Text :=
  (_ZH_MONEY U).subIn (fun m => decimal (_zh_money_value m.groups)) [] b
    ((_DIGIT_THOUSANDS U).subIn (fun m => decimal (thousandsValue U m.groups)) [] b t)

lemma moneyFrom_last (b : Option Nat) (r : Text) : moneyFrom U b r = runOut U [] b r := rfl

lemma moneyFrom_next (b : Option Nat) (r : Text) {x : Nat} (hx : isRun U x = false) (s : Text) :
    moneyFrom U b (r ++ x :: s) = runOut U [x] b r ++ x :: moneyFrom U (some x) s := by
  rw [moneyFrom, Pattern.subIn_append_cons within_digitThousands r hx,
    Pattern.subIn_append_cons within_zhMoney _ hx]
  rfl

lemma head_single {x : Nat} (hx : isRun U x = false) : ∀ y ∈ [x].head?, isRun U y = false := by
  intro y hy
  obtain rfl := Option.some.inj hy
  exact hx

lemma moneyFrom_of_units {t : Text} (h : units t = 0) (b : Option Nat) :
    moneyFrom U b t = t := by
  induction t using run_induction (isRun U) generalizing b with
  | last r hr =>
    have hafter : ∀ x ∈ ([] : Text).head?, isRun U x = false := by simp
    have hnil := finds_nil_of_units hafter (b := b) h
    exact runOut_of_finds_nil hafter hnil.1 hnil.2
  | next r x s hr hx ih =>
    rw [units_append] at h
    have hs := units_cons_le x s
    have hnil := finds_nil_of_units (U := U) (head_single hx) (b := b) (r := r) (by omega)
    rw [moneyFrom_next b r hx, ih (by omega), runOut_of_finds_nil (head_single hx) hnil.1 hnil.2]

lemma zh_money_digits_eq (t : Text) : zh_money_digits U t = moneyFrom U none t := by
  unfold zh_money_digits
  split
  case isTrue => rfl
  case isFalse h =>
    refine (moneyFrom_of_units ?_ none).symm
    rw [units, List.countP_eq_zero]
    intro c hc hunit
    exact h (List.any_eq_true.2 ⟨c, hc, hunit⟩)

/-- Every match of a text that `b` stands before stands alone. -/
def AllAlone (U : Digits) (b : Option Nat) (t : Text) : Prop :=
  (∀ m ∈ (_DIGIT_THOUSANDS U).finds [] b t, Alone U m) ∧
    ∀ m ∈ (_ZH_MONEY U).finds [] b t, Alone U m

/-- Every run is read or kept where, and only where, every match stands alone. -/
lemma eachRun_iff {b : Option Nat} (hprev : ∀ x ∈ b, isRun U x = false) (t : Text) :
    EachRun (isRun U) (ReadOrKept U) t (moneyFrom U b t) ↔ AllAlone U b t := by
  induction t using run_induction (isRun U) generalizing b with
  | last r hr =>
    rw [eachRun_last hr, moneyFrom_last]
    constructor
    · exact alone_of_readOrKept (by simp) hprev hr
    · rintro ⟨hD, hZ⟩
      exact readOrKept_of_alone (by simp) hr hD hZ
  | next r x s hr hx ih =>
    have hafter := head_single hx
    have hout := runOut_isRun hafter (b := b) hr
    have hs := ih (b := some x) (by simpa using hx)
    rw [eachRun_next hr hx, moneyFrom_next b r hx]
    simp only [AllAlone, Pattern.finds_append_cons within_digitThousands r hx,
      Pattern.finds_append_cons within_zhMoney r hx, List.mem_append, or_imp, forall_and]
    constructor
    · rintro ⟨r', s', heq, hr', hs'⟩
      obtain ⟨rfl, -, rfl⟩ := append_cons_inj hout (hr'.all_run hr) hx hx heq
      obtain ⟨hD, hZ⟩ := alone_of_readOrKept hafter hprev hr hr'
      obtain ⟨hD', hZ'⟩ := hs.1 hs'
      exact ⟨⟨hD, hD'⟩, hZ, hZ'⟩
    · rintro ⟨⟨hD, hD'⟩, hZ, hZ'⟩
      exact ⟨_, _, rfl, readOrKept_of_alone hafter hr hD hZ, hs.2 ⟨hD', hZ'⟩⟩

/-- A run that was read or kept is kept. -/
lemma ReadOrKept.runOut_eq {after : Text} (hafter : ∀ x ∈ after.head?, isRun U x = false)
    {b : Option Nat} {r : Text} (h : ReadOrKept U r (runOut U after b r)) :
    runOut U after b (runOut U after b r) = runOut U after b r := by
  rcases h with hkept | ⟨-, n, -, hout⟩
  · rw [hkept, hkept]
  · rw [hout]
    have hnil := finds_nil_of_units (U := U) hafter (b := b)
      (units_of_ascii (ascii_decimal n))
    exact runOut_of_finds_nil hafter hnil.1 hnil.2

lemma moneyFrom_moneyFrom {b : Option Nat} (hprev : ∀ x ∈ b, isRun U x = false) {t : Text}
    (h : AllAlone U b t) : moneyFrom U b (moneyFrom U b t) = moneyFrom U b t := by
  induction t using run_induction (isRun U) generalizing b with
  | last r hr =>
    exact (readOrKept_of_alone (by simp) hr h.1 h.2).runOut_eq (by simp)
  | next r x s hr hx ih =>
    have hafter := head_single hx
    simp only [AllAlone, Pattern.finds_append_cons within_digitThousands r hx,
      Pattern.finds_append_cons within_zhMoney r hx, List.mem_append, or_imp, forall_and] at h
    obtain ⟨⟨hD, hD'⟩, hZ, hZ'⟩ := h
    rw [moneyFrom_next b r hx, moneyFrom_next b _ hx,
      (readOrKept_of_alone hafter hr hD hZ).runOut_eq hafter,
      ih (b := some x) (by simpa using hx) ⟨hD', hZ'⟩]

/-- **When amounts are read exactly.** Each run becomes its value or stays, all else stays, and a
second pass changes nothing, if and only if no match of either expression has a digit or a numeral
directly beside it. -/
theorem zh_money_exact_iff (U : Digits) (t : Text) :
    (EachRun (isRun U) (ReadOrKept U) t (zh_money_digits U t) ∧
        zh_money_digits U (zh_money_digits U t) = zh_money_digits U t) ↔
      (∀ m ∈ (_DIGIT_THOUSANDS U).finditer t, Alone U m) ∧
        ∀ m ∈ (_ZH_MONEY U).finditer t, Alone U m := by
  simp only [zh_money_digits_eq]
  have hiff := eachRun_iff (U := U) (b := none) (by simp) t
  constructor
  · rintro ⟨hrun, -⟩
    exact hiff.1 hrun
  · intro h
    exact ⟨hiff.2 h, moneyFrom_moneyFrom (by simp) h⟩

/-- `3千二百` says 3200 and becomes `3000二百`. -/
theorem zh_money_three_thousand_two_hundred :
    ¬ EachRun (isRun .ofAscii) (ReadOrKept .ofAscii) "3千二百"
      (zh_money_digits .ofAscii "3千二百") := by
  rw [eachRun_last (by decide)]
  rintro (hkept | ⟨-, n, hn, hout⟩)
  · exact absurd hkept (by decide +kernel)
  · have hvalue : runValue .ofAscii "3千二百" = some 3200 := by decide +kernel
    obtain rfl := Option.some.inj (hn.symm.trans hvalue)
    exact absurd hout (by decide +kernel)

end RentCompass.ZhMoney
