import RentCompass.Text
import Mathlib.Algebra.Group.Nat.Defs
import Mathlib.Data.List.Lex
import Mathlib.Data.Nat.Find

/-!
# UTC dates and times

The proleptic Gregorian calendar of Python's `datetime`, for values whose zone is UTC. A value is
identified with the microseconds since the day before 0001-01-01; addition goes through that
count. `isoformat` has fields of fixed width and a fraction that is written only when it is not
zero, and the main result says that the order of the texts is the order of time all the same.
-/

namespace Calendar

/-! ### Days -/

def isLeap (y : Nat) : Prop := y % 4 = 0 ∧ (y % 100 ≠ 0 ∨ y % 400 = 0)

instance (y : Nat) : Decidable (isLeap y) := inferInstanceAs (Decidable (_ ∧ _))

/-- The days of a month, which is counted from one. -/
def daysInMonth (y m : Nat) : Nat :=
  if m = 2 then if isLeap y then 29 else 28
  else if m = 4 ∨ m = 6 ∨ m = 9 ∨ m = 11 then 30
  else 31

/-- The days of the first `m` months of a year. -/
def daysThrough (y : Nat) : Nat → Nat
  | 0 => 0
  | m + 1 => daysThrough y m + daysInMonth y (m + 1)

/-- The days before January 1st of a year. -/
def daysBeforeYear (y : Nat) : Nat := 365 * (y - 1) + (y - 1) / 4 - (y - 1) / 100 + (y - 1) / 400

lemma daysInMonth_pos (y m : Nat) : 0 < daysInMonth y m := by
  unfold daysInMonth
  repeat' split
  all_goals decide

lemma daysInMonth_le (y m : Nat) : daysInMonth y m ≤ 31 := by
  unfold daysInMonth
  repeat' split
  all_goals decide

lemma daysThrough_le {y m n : Nat} (h : m ≤ n) : daysThrough y m ≤ daysThrough y n := by
  induction n, h using Nat.le_induction with
  | base => rfl
  | succ n _ ih => exact ih.trans (Nat.le_add_right _ _)

lemma daysThrough_year (y : Nat) : daysThrough y 12 = if isLeap y then 366 else 365 := by
  by_cases h : isLeap y <;> simp [daysThrough, daysInMonth, h]

lemma daysBeforeYear_succ {y : Nat} (hy : 1 ≤ y) :
    daysBeforeYear (y + 1) = daysBeforeYear y + daysThrough y 12 := by
  obtain ⟨z, rfl⟩ : ∃ z, y = z + 1 := ⟨y - 1, by omega⟩
  rw [daysThrough_year]
  simp only [daysBeforeYear, isLeap, Nat.add_sub_cancel, Nat.succ_div, Nat.dvd_iff_mod_eq_zero]
  have hle : z / 100 ≤ z / 4 := by omega
  by_cases h4 : (z + 1) % 4 = 0
  · by_cases h100 : (z + 1) % 100 = 0
    · by_cases h400 : (z + 1) % 400 = 0
      · simp only [h4, h100, h400, if_true, true_and, or_true]
        omega
      · simp only [h4, h100, h400, if_true, if_false, not_true, ne_eq, or_self, and_false]
        omega
    · have h400 : (z + 1) % 400 ≠ 0 := by omega
      simp only [h4, h100, h400, if_true, if_false, ne_eq, not_false_eq_true, true_or, and_self]
      omega
  · have h100 : (z + 1) % 100 ≠ 0 := by omega
    have h400 : (z + 1) % 400 ≠ 0 := by omega
    simp only [h4, h100, h400, if_false, false_and]
    omega

lemma daysBeforeYear_le {y z : Nat} (hy : 1 ≤ y) (h : y ≤ z) :
    daysBeforeYear y ≤ daysBeforeYear z := by
  induction z, h using Nat.le_induction with
  | base => rfl
  | succ z hz ih =>
    rw [daysBeforeYear_succ (hy.trans hz)]
    exact ih.trans (Nat.le_add_right _ _)

/-- A day of the years one to 9999. -/
structure Date where
  year : Nat
  month : Nat
  day : Nat
  year_pos : 1 ≤ year
  year_le : year ≤ 9999
  month_pos : 1 ≤ month
  month_le : month ≤ 12
  day_pos : 1 ≤ day
  day_le : day ≤ daysInMonth year month
deriving DecidableEq

namespace Date

/-- `date.toordinal`: January 1st of year one is day one. -/
def toordinal (d : Date) : Nat := daysBeforeYear d.year + daysThrough d.year (d.month - 1) + d.day

/-- The day lies within its month, and the month within its year. -/
lemma day_le_daysThrough (d : Date) :
    daysThrough d.year (d.month - 1) + d.day ≤ daysThrough d.year d.month := by
  have hmonth : d.month = d.month - 1 + 1 := by have := d.month_pos; omega
  have hstep : daysThrough d.year d.month =
      daysThrough d.year (d.month - 1) + daysInMonth d.year d.month := by
    rw [hmonth]
    rfl
  have := d.day_le
  omega

lemma toordinal_le (d : Date) : d.toordinal ≤ daysBeforeYear (d.year + 1) := by
  rw [daysBeforeYear_succ d.year_pos, toordinal]
  have hday := d.day_le_daysThrough
  have hmonth := daysThrough_le (y := d.year) d.month_le
  omega

lemma toordinal_pos (d : Date) : 0 < d.toordinal := by
  have := d.day_pos
  unfold toordinal
  omega

/-- Earlier by year, then by month, then by day. -/
def Before (d e : Date) : Prop :=
  d.year < e.year ∨ d.year = e.year ∧ (d.month < e.month ∨ d.month = e.month ∧ d.day < e.day)

lemma Before.toordinal_lt {d e : Date} (h : d.Before e) : d.toordinal < e.toordinal := by
  rcases h with hyear | ⟨hyear, hmonth | ⟨hmonth, hday⟩⟩
  · have hend := d.toordinal_le
    have hbefore := daysBeforeYear_le (y := d.year + 1) (by omega) hyear
    have := e.day_pos
    unfold toordinal at hend ⊢
    omega
  · have hend := d.day_le_daysThrough
    have hbefore : daysThrough e.year d.month ≤ daysThrough e.year (e.month - 1) :=
      daysThrough_le (by omega)
    have := e.day_pos
    rw [hyear] at hend
    simp only [toordinal, hyear]
    omega
  · simp only [toordinal, hyear, hmonth]
    omega

lemma before_trichotomy (d e : Date) : d.Before e ∨ d = e ∨ e.Before d := by
  have heq : d.year = e.year → d.month = e.month → d.day = e.day → d = e := by
    intro hy hm hd
    cases d
    cases e
    simp_all
  unfold Before
  rcases Nat.lt_trichotomy d.year e.year with hy | hy | hy
  · exact .inl (.inl hy)
  · rcases Nat.lt_trichotomy d.month e.month with hm | hm | hm
    · exact .inl (.inr ⟨hy, .inl hm⟩)
    · rcases Nat.lt_trichotomy d.day e.day with hd | hd | hd
      · exact .inl (.inr ⟨hy, .inr ⟨hm, hd⟩⟩)
      · exact .inr (.inl (heq hy hm hd))
      · exact .inr (.inr (.inr ⟨hy.symm, .inr ⟨hm.symm, hd⟩⟩))
    · exact .inr (.inr (.inr ⟨hy.symm, .inl hm⟩))
  · exact .inr (.inr (.inl hy))

lemma toordinal_lt_iff {d e : Date} : d.toordinal < e.toordinal ↔ d.Before e := by
  constructor
  · intro h
    rcases before_trichotomy d e with hlt | rfl | hgt
    · exact hlt
    · exact absurd h (lt_irrefl _)
    · exact absurd h hgt.toordinal_lt.le.not_gt
  · exact Before.toordinal_lt

lemma toordinal_inj {d e : Date} : d.toordinal = e.toordinal ↔ d = e := by
  constructor
  · intro h
    rcases before_trichotomy d e with hlt | heq | hgt
    · exact absurd h hlt.toordinal_lt.ne
    · exact heq
    · exact absurd h hgt.toordinal_lt.ne'
  · rintro rfl
    rfl

/-! ### The day of an ordinal -/

/-- The year of an ordinal, less one: the last year whose preceding days are fewer. -/
def yearIndex (n : Nat) : Nat :=
  Nat.findGreatest (fun k => daysBeforeYear (k + 1) < n) ((n - 1) / 365)

lemma daysBeforeYear_yearIndex {n : Nat} (hn : 1 ≤ n) :
    daysBeforeYear (yearIndex n + 1) < n := by
  refine Nat.findGreatest_spec (P := fun k => daysBeforeYear (k + 1) < n) (Nat.zero_le _) ?_
  show 0 < n
  omega

lemma le_daysBeforeYear_yearIndex (n : Nat) : n ≤ daysBeforeYear (yearIndex n + 2) := by
  rcases (Nat.findGreatest_le (P := fun k => daysBeforeYear (k + 1) < n) ((n - 1) / 365)).lt_or_eq
    with hlt | heq
  · exact not_lt.1 (Nat.findGreatest_is_greatest
      (P := fun k => daysBeforeYear (k + 1) < n) (Nat.lt_succ_self _) hlt)
  · rw [yearIndex, heq, daysBeforeYear]
    omega

/-- The months of a year that are over by the day of the given index. -/
def monthIndex (y r : Nat) : Nat := Nat.findGreatest (fun m => daysThrough y m ≤ r) 11

lemma daysThrough_monthIndex (y r : Nat) : daysThrough y (monthIndex y r) ≤ r :=
  Nat.findGreatest_spec (P := fun m => daysThrough y m ≤ r) (Nat.zero_le 11) (Nat.zero_le r)

lemma lt_daysThrough_monthIndex {y r : Nat} (h : r < daysThrough y 12) :
    r < daysThrough y (monthIndex y r + 1) := by
  rcases (Nat.findGreatest_le (P := fun m => daysThrough y m ≤ r) 11).lt_or_eq with hlt | heq
  · exact not_le.1 (Nat.findGreatest_is_greatest
      (P := fun m => daysThrough y m ≤ r) (Nat.lt_succ_self _) hlt)
  · rwa [monthIndex, heq]

/-- The day of a year with an index that counts from zero. -/
def ofYearDay (y r : Nat) (hpos : 1 ≤ y) (hle : y ≤ 9999) (hr : r < daysThrough y 12) : Date where
  year := y
  month := monthIndex y r + 1
  day := r - daysThrough y (monthIndex y r) + 1
  year_pos := hpos
  year_le := hle
  month_pos := Nat.succ_pos _
  month_le := Nat.succ_le_succ (Nat.findGreatest_le 11)
  day_pos := Nat.succ_pos _
  day_le := by
    have h : r < daysThrough y (monthIndex y r) + daysInMonth y (monthIndex y r + 1) :=
      lt_daysThrough_monthIndex hr
    have := daysThrough_monthIndex y r
    omega

lemma lt_daysThrough_year {n : Nat} (hn : 1 ≤ n) :
    n - 1 - daysBeforeYear (yearIndex n + 1) < daysThrough (yearIndex n + 1) 12 := by
  have hlow := daysBeforeYear_yearIndex hn
  have hhigh := le_daysBeforeYear_yearIndex n
  have hyear : daysBeforeYear (yearIndex n + 2) =
      daysBeforeYear (yearIndex n + 1) + daysThrough (yearIndex n + 1) 12 :=
    daysBeforeYear_succ (by omega)
  omega

/-- `date.fromordinal`. -/
def fromordinal (n : Nat) : Option Date :=
  if h : 1 ≤ n ∧ yearIndex n + 1 ≤ 9999 then
    some (ofYearDay (yearIndex n + 1) (n - 1 - daysBeforeYear (yearIndex n + 1)) (by omega) h.2
      (lt_daysThrough_year h.1))
  else none

lemma toordinal_of_fromordinal {n : Nat} {d : Date} (h : fromordinal n = some d) :
    d.toordinal = n := by
  unfold fromordinal at h
  split at h
  case isTrue hn =>
    obtain rfl := Option.some.inj h
    have hlow := daysBeforeYear_yearIndex hn.1
    have hmonth := daysThrough_monthIndex (yearIndex n + 1)
      (n - 1 - daysBeforeYear (yearIndex n + 1))
    simp only [toordinal, ofYearDay, Nat.add_sub_cancel]
    omega
  case isFalse => exact absurd h (by simp)

/-- Every ordinal up to that of a date is the ordinal of a date. -/
lemma exists_fromordinal {n : Nat} (hn : 1 ≤ n) {d : Date} (hd : n ≤ d.toordinal) :
    ∃ e, fromordinal n = some e := by
  have hyear : yearIndex n + 1 ≤ 9999 := by
    by_contra hgt
    have hlow := daysBeforeYear_yearIndex hn
    have hend := d.toordinal_le
    have := daysBeforeYear_le (y := d.year + 1) (z := yearIndex n + 1) (by omega)
      (by have := d.year_le; omega)
    omega
  exact ⟨_, dif_pos ⟨hn, hyear⟩⟩

lemma fromordinal_toordinal (d : Date) : fromordinal d.toordinal = some d := by
  obtain ⟨e, he⟩ := exists_fromordinal d.toordinal_pos le_rfl
  rw [he, toordinal_inj.1 (toordinal_of_fromordinal he)]

end Date

/-! ### Times of day -/

/-- The microseconds of a day. -/
def microsecondsOfDay : Nat := 86400000000

structure TimeOfDay where
  hour : Nat
  minute : Nat
  second : Nat
  microsecond : Nat
  hour_lt : hour < 24
  minute_lt : minute < 60
  second_lt : second < 60
  microsecond_lt : microsecond < 1000000
deriving DecidableEq

namespace TimeOfDay

/-- The microseconds since midnight. -/
def microseconds (t : TimeOfDay) : Nat :=
  ((t.hour * 60 + t.minute) * 60 + t.second) * 1000000 + t.microsecond

lemma microseconds_lt (t : TimeOfDay) : t.microseconds < microsecondsOfDay := by
  have := t.hour_lt
  have := t.minute_lt
  have := t.second_lt
  have := t.microsecond_lt
  unfold microseconds microsecondsOfDay
  omega

lemma microseconds_inj {t u : TimeOfDay} : t.microseconds = u.microseconds ↔ t = u := by
  constructor
  · intro h
    obtain ⟨h₁, m₁, s₁, u₁, _, _, _, _⟩ := t
    obtain ⟨h₂, m₂, s₂, u₂, _, _, _, _⟩ := u
    simp only [microseconds] at h
    simp only [mk.injEq]
    omega
  · rintro rfl
    rfl

/-- The time that lies a number of microseconds after midnight. -/
def ofMicroseconds (n : Nat) (hn : n < microsecondsOfDay) : TimeOfDay where
  hour := n / 3600000000
  minute := n / 60000000 % 60
  second := n / 1000000 % 60
  microsecond := n % 1000000
  hour_lt := by unfold microsecondsOfDay at hn; omega
  minute_lt := Nat.mod_lt _ (by decide)
  second_lt := Nat.mod_lt _ (by decide)
  microsecond_lt := Nat.mod_lt _ (by decide)

@[simp] lemma microseconds_ofMicroseconds {n : Nat} (hn : n < microsecondsOfDay) :
    (ofMicroseconds n hn).microseconds = n := by
  simp only [microseconds, ofMicroseconds]
  omega

end TimeOfDay

/-! ### Instants -/

/-- An aware `datetime` in UTC. -/
structure Datetime where
  date : Date
  time : TimeOfDay
deriving DecidableEq

namespace Datetime

/-- The microseconds since the midnight that begins the day before 0001-01-01. -/
def instant (d : Datetime) : Nat := d.date.toordinal * microsecondsOfDay + d.time.microseconds

lemma instant_lt_iff {d e : Datetime} : d.instant < e.instant ↔
    d.date.Before e.date ∨ d.date = e.date ∧ d.time.microseconds < e.time.microseconds := by
  have hd := d.time.microseconds_lt
  have he := e.time.microseconds_lt
  rw [← Date.toordinal_lt_iff, ← Date.toordinal_inj]
  simp only [instant, microsecondsOfDay] at *
  omega

lemma instant_inj {d e : Datetime} : d.instant = e.instant ↔ d = e := by
  constructor
  · intro h
    have hd := d.time.microseconds_lt
    have he := e.time.microseconds_lt
    have hdate : d.date.toordinal = e.date.toordinal := by
      simp only [instant, microsecondsOfDay] at *
      omega
    have htime : d.time.microseconds = e.time.microseconds := by
      simpa only [instant, hdate, Nat.add_left_cancel_iff] using h
    rw [Date.toordinal_inj] at hdate
    rw [TimeOfDay.microseconds_inj] at htime
    cases d
    cases e
    simp_all
  · rintro rfl
    rfl

/-- The value an instant belongs to, when its year is not out of range. -/
def ofInstant (n : Nat) : Option Datetime :=
  (Date.fromordinal (n / microsecondsOfDay)).map fun d =>
    ⟨d, .ofMicroseconds (n % microsecondsOfDay) (Nat.mod_lt n (by decide))⟩

lemma ofInstant_eq_some {n : Nat} {d : Datetime} : ofInstant n = some d ↔ d.instant = n := by
  constructor
  · intro h
    obtain ⟨day, hday, rfl⟩ := Option.map_eq_some_iff.1 h
    simp only [instant, Date.toordinal_of_fromordinal hday,
      TimeOfDay.microseconds_ofMicroseconds]
    exact Nat.div_add_mod' n microsecondsOfDay
  · rintro rfl
    have hd := d.time.microseconds_lt
    have hdiv : d.instant / microsecondsOfDay = d.date.toordinal := by
      simp only [instant, microsecondsOfDay] at *
      omega
    have hmod : d.instant % microsecondsOfDay = d.time.microseconds := by
      simp only [instant, microsecondsOfDay] at *
      omega
    have htime : TimeOfDay.ofMicroseconds (d.instant % microsecondsOfDay)
        (Nat.mod_lt _ (by decide)) = d.time := by
      rw [← TimeOfDay.microseconds_inj, TimeOfDay.microseconds_ofMicroseconds, hmod]
    simp only [ofInstant, hdiv, Date.fromordinal_toordinal, Option.map_some, htime]

@[simp] lemma ofInstant_instant (d : Datetime) : ofInstant d.instant = some d :=
  ofInstant_eq_some.2 rfl

/-- Between two values there is a value at every instant. -/
lemma exists_ofInstant {n : Nat} (hn : microsecondsOfDay ≤ n) {d : Datetime} (hd : n ≤ d.instant) :
    ∃ e, ofInstant n = some e := by
  have hpos : 1 ≤ n / microsecondsOfDay := (Nat.one_le_div_iff (by decide)).2 hn
  have hle : n / microsecondsOfDay ≤ d.date.toordinal := by
    have := d.time.microseconds_lt
    simp only [instant, microsecondsOfDay] at *
    omega
  obtain ⟨e, he⟩ := Date.exists_fromordinal hpos hle
  rw [ofInstant, he]
  exact ⟨_, rfl⟩

/-- `d + timedelta(microseconds=n)`; `none` is the `OverflowError`. -/
def add (d : Datetime) (n : Nat) : Option Datetime := ofInstant (d.instant + n)

/-- `d - timedelta(microseconds=n)`; `none` is the `OverflowError`. -/
def sub (d : Datetime) (n : Nat) : Option Datetime :=
  if n ≤ d.instant then ofInstant (d.instant - n) else none

lemma instant_add {d e : Datetime} {n : Nat} (h : d.add n = some e) :
    e.instant = d.instant + n := ofInstant_eq_some.1 h

lemma exists_sub {d : Datetime} {n : Nat} (h : microsecondsOfDay + n ≤ d.instant) :
    ∃ e, d.sub n = some e := by
  rw [sub, if_pos (by omega)]
  exact exists_ofInstant (d := d) (by omega) (by omega)

lemma instant_sub {d e : Datetime} {n : Nat} (h : d.sub n = some e) :
    e.instant + n = d.instant := by
  unfold sub at h
  split at h
  case isTrue hn =>
    rw [ofInstant_eq_some.1 h]
    omega
  case isFalse => exact absurd h (by simp)

/-- `datetime.min`. -/
def min : Datetime where
  date := ⟨1, 1, 1, by decide, by decide, by decide, by decide, by decide, by decide⟩
  time := ⟨0, 0, 0, 0, by decide, by decide, by decide, by decide⟩

end Datetime

/-! ### Texts -/

lemma append_lt_append_iff {u v s t : Text} (h : u.length = v.length) :
    u ++ s < v ++ t ↔ u < v ∨ u = v ∧ s < t := by
  induction u generalizing v with
  | nil =>
    obtain rfl := List.eq_nil_of_length_eq_zero h.symm
    simp
  | cons c u ih =>
    match v, h with
    | d :: v, h =>
      rw [List.cons_append, List.cons_append, List.cons_lt_cons_iff, List.cons_lt_cons_iff,
        ih (Nat.succ.inj h), List.cons.injEq]
      tauto

/-- The last `w` decimal digits of a number: `%0wd` of a number that has no more. -/
def pad : Nat → Nat → Text
  | 0, _ => []
  | w + 1, n => pad w (n / 10) ++ [48 + n % 10]

@[simp] lemma length_pad (w n : Nat) : (pad w n).length = w := by
  induction w generalizing n with
  | zero => rfl
  | succ w ih => simp [pad, ih]

lemma pad_inj {w m n : Nat} (hm : m < 10 ^ w) (hn : n < 10 ^ w) (h : pad w m = pad w n) :
    m = n := by
  induction w generalizing m n with
  | zero => simp_all
  | succ w ih =>
    rw [Nat.pow_succ'] at hm hn
    obtain ⟨hhigh, hlow⟩ := List.append_inj' h rfl
    have hdiv := ih (Nat.div_lt_of_lt_mul hm) (Nat.div_lt_of_lt_mul hn) hhigh
    have hmod : m % 10 = n % 10 := by simpa using hlow
    omega

lemma pad_append_lt_iff {w m n : Nat} (hm : m < 10 ^ w) (hn : n < 10 ^ w) {s t : Text} :
    pad w m ++ s < pad w n ++ t ↔ m < n ∨ m = n ∧ s < t := by
  induction w generalizing m n s t with
  | zero => simp_all [pad]
  | succ w ih =>
    rw [Nat.pow_succ'] at hm hn
    rw [pad, pad, List.append_assoc, List.append_assoc,
      ih (Nat.div_lt_of_lt_mul hm) (Nat.div_lt_of_lt_mul hn), List.singleton_append,
      List.singleton_append, List.cons_lt_cons_iff]
    have hlow : 48 + m % 10 < 48 + n % 10 ↔ m % 10 < n % 10 := by omega
    have heq : 48 + m % 10 = 48 + n % 10 ↔ m % 10 = n % 10 := by omega
    rw [hlow, heq]
    constructor
    · rintro (hdiv | ⟨hdiv, hmod | ⟨hmod, hst⟩⟩)
      · left; omega
      · left; omega
      · exact .inr ⟨by omega, hst⟩
    · rintro (hmn | ⟨rfl, hst⟩)
      · rcases Nat.lt_or_ge (m / 10) (n / 10) with hdiv | hdiv
        · exact .inl hdiv
        · exact .inr ⟨by omega, .inl (by omega)⟩
      · exact .inr ⟨rfl, .inr ⟨rfl, hst⟩⟩

namespace Date

/-- `date.isoformat`. -/
def isoformat (d : Date) : Text := pad 4 d.year ++ 45 :: (pad 2 d.month ++ 45 :: pad 2 d.day)

@[simp] lemma length_isoformat (d : Date) : d.isoformat.length = 10 := by
  simp [isoformat]

lemma year_lt (d : Date) : d.year < 10 ^ 4 := Nat.lt_succ_of_le d.year_le

lemma month_lt (d : Date) : d.month < 10 ^ 2 := lt_of_le_of_lt d.month_le (by decide)

lemma day_lt (d : Date) : d.day < 10 ^ 2 :=
  lt_of_le_of_lt (d.day_le.trans (daysInMonth_le _ _)) (by decide)

lemma isoformat_append_lt_iff {d e : Date} {s t : Text} :
    d.isoformat ++ s < e.isoformat ++ t ↔ d.Before e ∨ d = e ∧ s < t := by
  have heq : d = e ↔ d.year = e.year ∧ d.month = e.month ∧ d.day = e.day := by
    cases d
    cases e
    simp
  rw [heq, Before]
  simp only [isoformat, List.append_assoc, List.cons_append,
    pad_append_lt_iff d.year_lt e.year_lt, pad_append_lt_iff d.month_lt e.month_lt,
    pad_append_lt_iff d.day_lt e.day_lt, List.cons_lt_cons_iff, lt_irrefl, false_or, true_and]
  tauto

end Date

/-- The offset that ends every text. -/
def utc : Text := "+00:00"

namespace TimeOfDay

/-- The fraction of a second, which `isoformat` leaves out when it is zero. -/
def fraction (n : Nat) : Text := if n = 0 then [] else 46 :: pad 6 n

/-- `time.isoformat`, without the offset. -/
def isoformat (t : TimeOfDay) : Text :=
  pad 2 t.hour ++ 58 :: (pad 2 t.minute ++ 58 :: (pad 2 t.second ++ fraction t.microsecond))

/-- Where one of two texts has no fraction, its `+` meets the other's `.`. -/
lemma fraction_lt_iff {m n : Nat} (hm : m < 1000000) (hn : n < 1000000) :
    fraction m ++ utc < fraction n ++ utc ↔ m < n := by
  unfold fraction
  by_cases hm0 : m = 0 <;> by_cases hn0 : n = 0
  · simp [hm0, hn0]
  · simp only [hm0, hn0, if_true, if_false]
    have hlt : [] ++ utc < (46 :: pad 6 n) ++ utc := List.Lex.rel (by decide)
    simpa [Nat.pos_of_ne_zero hn0] using hlt
  · simp only [hm0, hn0, if_true, if_false]
    have hlt : [] ++ utc < (46 :: pad 6 m) ++ utc := List.Lex.rel (by decide)
    simpa using hlt.le
  · simp only [hm0, hn0, if_false, List.cons_append, List.cons_lt_cons_iff,
      pad_append_lt_iff (w := 6) hm hn, lt_irrefl, false_or, true_and, and_false, or_false]

lemma isoformat_lt_iff {t u : TimeOfDay} :
    t.isoformat ++ utc < u.isoformat ++ utc ↔ t.microseconds < u.microseconds := by
  have hlt {m n k : Nat} (hm : m < k) (hn : n < k) (hk : k ≤ 10 ^ 2) {s v : Text} :
      pad 2 m ++ s < pad 2 n ++ v ↔ m < n ∨ m = n ∧ s < v :=
    pad_append_lt_iff (hm.trans_le hk) (hn.trans_le hk)
  simp only [isoformat, List.append_assoc, List.cons_append,
    hlt t.hour_lt u.hour_lt (by decide), hlt t.minute_lt u.minute_lt (by decide),
    hlt t.second_lt u.second_lt (by decide), List.cons_lt_cons_iff, lt_irrefl, false_or,
    true_and, fraction_lt_iff t.microsecond_lt u.microsecond_lt, microseconds]
  have := t.minute_lt
  have := t.second_lt
  have := t.microsecond_lt
  have := u.minute_lt
  have := u.second_lt
  have := u.microsecond_lt
  omega

end TimeOfDay

namespace Datetime

/-- `datetime.isoformat`. -/
def isoformat (d : Datetime) : Text := d.date.isoformat ++ 84 :: (d.time.isoformat ++ utc)

/-- **The order of the texts is the order of time.** -/
theorem isoformat_lt_iff {d e : Datetime} : d.isoformat < e.isoformat ↔ d.instant < e.instant := by
  rw [instant_lt_iff, isoformat, isoformat, Date.isoformat_append_lt_iff, List.cons_lt_cons_iff,
    TimeOfDay.isoformat_lt_iff]
  simp

lemma isoformat_le_iff {d e : Datetime} : d.isoformat ≤ e.isoformat ↔ d.instant ≤ e.instant := by
  rw [← not_lt, ← not_lt, isoformat_lt_iff]

lemma isoformat_inj {d e : Datetime} : d.isoformat = e.isoformat ↔ d = e := by
  rw [← instant_inj, le_antisymm_iff, le_antisymm_iff, isoformat_le_iff, isoformat_le_iff]

example : Datetime.min.isoformat = ("0001-01-01T00:00:00+00:00" : Text) := by decide

end Datetime

/-! ### Reading a text -/

/-- The number that the first `w` characters stand for, and what follows them. -/
def readDigits (w : Nat) (t : Text) : Option (Nat × Text) :=
  if (t.take w).length = w ∧ ∀ c ∈ t.take w, 48 ≤ c ∧ c ≤ 57 then
    some ((t.take w).foldl (fun n c => 10 * n + (c - 48)) 0, t.drop w)
  else none

def skip (c : Nat) : Text → Option Text
  | [] => none
  | d :: t => if d = c then some t else none

@[simp] lemma skip_cons (c : Nat) (t : Text) : skip c (c :: t) = some t := if_pos rfl

lemma pad_isDigit {w n c : Nat} (hc : c ∈ pad w n) : 48 ≤ c ∧ c ≤ 57 := by
  induction w generalizing n with
  | zero => simp [pad] at hc
  | succ w ih =>
    rcases List.mem_append.1 hc with hhigh | hlow
    · exact ih hhigh
    · obtain rfl := List.mem_singleton.1 hlow
      omega

lemma foldl_pad {w n : Nat} (hn : n < 10 ^ w) :
    (pad w n).foldl (fun n c => 10 * n + (c - 48)) 0 = n := by
  induction w generalizing n with
  | zero => simp_all [pad]
  | succ w ih =>
    rw [Nat.pow_succ'] at hn
    rw [pad, List.foldl_append, ih (Nat.div_lt_of_lt_mul hn)]
    simp only [List.foldl_cons, List.foldl_nil]
    omega

lemma readDigits_pad {w n : Nat} (hn : n < 10 ^ w) (t : Text) :
    readDigits w (pad w n ++ t) = some (n, t) := by
  have htake : (pad w n ++ t).take w = pad w n := by simp
  have hdrop : (pad w n ++ t).drop w = t := by simp
  rw [readDigits, htake, hdrop, if_pos ⟨length_pad w n, fun _ => pad_isDigit⟩, foldl_pad hn]

def readFraction : Text → Option (Nat × Text)
  | 46 :: t => readDigits 6 t
  | t => some (0, t)

lemma readFraction_fraction {n : Nat} (hn : n < 1000000) :
    readFraction (TimeOfDay.fraction n ++ utc) = some (n, utc) := by
  by_cases h : n = 0
  · subst h
    decide
  · rw [TimeOfDay.fraction, if_neg h]
    exact readDigits_pad (w := 6) hn utc

/-- The date with the given fields, when there is one. -/
def Date.ofFields (year month day : Nat) : Option Date :=
  if h : (1 ≤ year ∧ year ≤ 9999) ∧ (1 ≤ month ∧ month ≤ 12) ∧
      1 ≤ day ∧ day ≤ daysInMonth year month then
    some ⟨year, month, day, h.1.1, h.1.2, h.2.1.1, h.2.1.2, h.2.2.1, h.2.2.2⟩
  else none

/-- The time of day with the given fields, when there is one. -/
def TimeOfDay.ofFields (hour minute second microsecond : Nat) : Option TimeOfDay :=
  if h : hour < 24 ∧ minute < 60 ∧ second < 60 ∧ microsecond < 1000000 then
    some ⟨hour, minute, second, microsecond, h.1, h.2.1, h.2.2.1, h.2.2.2⟩
  else none

lemma Date.ofFields_eq (d : Date) : ofFields d.year d.month d.day = some d :=
  dif_pos ⟨⟨d.year_pos, d.year_le⟩, ⟨d.month_pos, d.month_le⟩, d.day_pos, d.day_le⟩

lemma TimeOfDay.ofFields_eq (t : TimeOfDay) :
    ofFields t.hour t.minute t.second t.microsecond = some t :=
  dif_pos ⟨t.hour_lt, t.minute_lt, t.second_lt, t.microsecond_lt⟩

/-- `datetime.fromisoformat`, for the texts of UTC values that `isoformat` writes. -/
def Datetime.fromisoformat (t : Text) : Option Datetime := do
  let (year, t) ← readDigits 4 t
  let t ← skip 45 t
  let (month, t) ← readDigits 2 t
  let t ← skip 45 t
  let (day, t) ← readDigits 2 t
  let t ← skip 84 t
  let (hour, t) ← readDigits 2 t
  let t ← skip 58 t
  let (minute, t) ← readDigits 2 t
  let t ← skip 58 t
  let (second, t) ← readDigits 2 t
  let (microsecond, t) ← readFraction t
  let date ← Date.ofFields year month day
  let time ← TimeOfDay.ofFields hour minute second microsecond
  if t = utc then some ⟨date, time⟩ else none

theorem Datetime.fromisoformat_isoformat (d : Datetime) :
    fromisoformat d.isoformat = some d := by
  have hread {n k : Nat} (hn : n < k) (hk : k ≤ 10 ^ 2) (t : Text) :
      readDigits 2 (pad 2 n ++ t) = some (n, t) := readDigits_pad (hn.trans_le hk) t
  have hyear := readDigits_pad d.date.year_lt
  have hmonth := readDigits_pad d.date.month_lt
  have hday := readDigits_pad d.date.day_lt
  have hhour := hread d.time.hour_lt (by decide)
  have hminute := hread d.time.minute_lt (by decide)
  have hsecond := hread d.time.second_lt (by decide)
  have hsome {α β : Type} (a : α) (f : α → Option β) : (some a >>= f) = f a := rfl
  rw [isoformat, Date.isoformat, TimeOfDay.isoformat]
  simp only [List.append_assoc, List.cons_append]
  rw [fromisoformat, hyear, hsome]
  dsimp only
  rw [skip_cons, hsome, hmonth, hsome]
  dsimp only
  rw [skip_cons, hsome, hday, hsome]
  dsimp only
  rw [skip_cons, hsome, hhour, hsome]
  dsimp only
  rw [skip_cons, hsome, hminute, hsome]
  dsimp only
  rw [skip_cons, hsome, hsecond, hsome]
  dsimp only
  rw [readFraction_fraction d.time.microsecond_lt, hsome]
  dsimp only
  rw [Date.ofFields_eq, hsome, TimeOfDay.ofFields_eq, hsome, if_pos rfl]

end Calendar
