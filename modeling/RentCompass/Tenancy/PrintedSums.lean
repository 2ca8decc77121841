import RentCompass.Tenancy.Reference
import Mathlib.Data.Rat.Floor
import Mathlib.Tactic.IntervalCases
import Mathlib.Tactic.Linarith
import Mathlib.Tactic.NormNum

/-!
# Where printed sums add up

Each figure is rounded to the penny by itself. A deposit that is printed as a product of the weekly
rent is one of the weekly rent before it is rounded.
-/

namespace RentCompass.Tenancy

open Listings

/-! ### Rounding to the penny -/

/-- The nearest whole number to a fraction whose denominator is odd. -/
def nearest (a : ℤ) (d : ℕ) : ℤ := (2 * a + d) / (2 * d)

lemma nearest_eq (a : ℤ) {d : ℕ} (hd : 0 < d) :
    nearest a d = if 2 * (a % d) < d then a / d else a / d + 1 := by
  have hdz : (0 : ℤ) < d := by exact_mod_cast hd
  have hr := Int.emod_nonneg a hdz.ne'
  have hlt := Int.emod_lt_of_pos a hdz
  have hdiv := Int.emod_add_mul_ediv a d
  have hsplit : 2 * a + d = (2 * (a % d) + d) + 2 * d * (a / d) := by linarith
  rw [nearest, hsplit, Int.add_mul_ediv_left _ _ (by linarith)]
  split_ifs with hsmall
  · rw [Int.ediv_eq_zero_of_lt (by linarith) (by linarith), zero_add]
  · have hone : (2 * (a % d) + d) / (2 * d) = 1 := by
      rw [Int.ediv_eq_iff_of_pos (by linarith)]
      constructor <;> linarith
    rw [hone, add_comm]

/-- A fraction of a penny whose denominator is odd is never half a penny. -/
lemma roundCents_div (a : ℤ) {d : ℕ} (hd : Odd d) :
    roundCents ((a : ℚ) / d / 100) = (nearest a d : ℚ) / 100 := by
  have hpos : 0 < d := hd.pos
  have hdq : (0 : ℚ) < d := by exact_mod_cast hpos
  have hfloor : ((a : ℚ) / d).floor = a / d := Rat.floor_intCast_div_natCast a d
  have hrest : (a : ℚ) / d - ((a / d : ℤ) : ℚ) = ((a % d : ℤ) : ℚ) / d := by
    have hdiv : (a : ℚ) = ((a % d : ℤ) : ℚ) + d * ((a / d : ℤ) : ℚ) := by
      exact_mod_cast (Int.emod_add_mul_ediv a d).symm
    rw [eq_div_iff hdq.ne', sub_mul, div_mul_cancel₀ _ hdq.ne']
    linarith
  have hcancel : (a : ℚ) / d / 100 * 100 = a / d := div_mul_cancel₀ _ (by norm_num)
  have hsmall : ((a % d : ℤ) : ℚ) / d < 1 / 2 ↔ 2 * (a % d) < (d : ℤ) := by
    rw [div_lt_div_iff₀ hdq (by norm_num)]
    constructor
    · intro h
      have hcast : ((2 * (a % d) : ℤ) : ℚ) < ((d : ℤ) : ℚ) := by
        push_cast
        linarith
      exact_mod_cast hcast
    · intro h
      have hcast : ((2 * (a % d) : ℤ) : ℚ) < ((d : ℤ) : ℚ) := by exact_mod_cast h
      push_cast at hcast ⊢
      linarith
  have htie : ¬ ((a % d : ℤ) : ℚ) / d = 1 / 2 := by
    intro h
    rw [div_eq_div_iff hdq.ne' (by norm_num)] at h
    have heven : a % d * 2 = 1 * (d : ℤ) := by exact_mod_cast h
    obtain ⟨k, hk⟩ := hd
    omega
  rw [roundCents, hcancel, hfloor, hrest, nearest_eq a hpos]
  simp only [htie, false_and, or_false, hsmall]
  split_ifs
  · rfl
  · push_cast
    rfl

/-- Whole pence are not rounded. -/
lemma roundCents_pence (a : ℤ) : roundCents ((a : ℚ) / 100) = (a : ℚ) / 100 := by
  have hwhole := roundCents_div a odd_one
  have hnearest : nearest a 1 = a := by
    rw [nearest]
    omega
  rw [hnearest] at hwhole
  simpa using hwhole

/-! ### Equations -/

def PrintedProduct.Exact (p : PrintedProduct) : Prop := p.factor * p.times = p.result

def PrintedSum.Exact (s : PrintedSum) : Prop := s.first + s.second = s.total

def PrintedBalance.Exact (b : PrintedBalance) : Prop := b.total - b.credit = b.balance

/-- Every equation of the two answers is exact, and the two totals are the same. -/
structure PrintedSumsExact (cap : DepositCap) (mi : MoveInCost) : Prop where
  deposit : cap.depositProduct.Exact
  annual : cap.annualProduct.Exact
  moveInDeposit : mi.depositLine.Exact
  moveInAnnual : mi.annualProduct.Exact
  total : mi.totalLine.Exact
  balance : ∀ held, mi.holdingDepositPaidGbp = some held → (mi.creditLine held).Exact
  sameTotal : cap.firstMonthPlusDepositGbp = mi.totalMoveInGbp

/-! ### Figures in pence -/

lemma depositCapWeeks_cases (annual : ℚ) : depositCapWeeks annual = 5 ∨ depositCapWeeks annual = 6 := by
  rw [depositCapWeeks]
  split_ifs
  · exact .inr rfl
  · exact .inl rfl

section Figures

variable (rent : ℤ)

/-- A rent of so many pence. -/
def inPence (period : RentPeriod) (rent : ℤ) : StatedRent := ⟨period, (rent : ℚ) / 100⟩

/-- The weeks of the cap for a rent of so many pence. -/
def weeksFor (period : RentPeriod) (rent : ℤ) : Nat := depositCapWeeks (annualFrom (inPence period rent))

/-- The figures of a cap in pence. -/
structure InPence (cap : DepositCap) (weekly monthly annual deposit firstMonthPlusDeposit : ℤ) : Prop where
  weekly : cap.weeklyRentGbp = weekly / 100
  monthly : cap.monthlyRentGbp = monthly / 100
  annual : cap.annualRentGbp = annual / 100
  deposit : cap.maxTenancyDepositGbp = deposit / 100
  firstMonthPlusDeposit : cap.firstMonthPlusDepositGbp = firstMonthPlusDeposit / 100

lemma monthly_inPence : InPence (depositCap (inPence .monthly rent)) (nearest (3 * rent) 13) rent
    (12 * rent) (nearest (3 * rent * weeksFor .monthly rent) 13)
    (nearest (13 * rent + 3 * rent * weeksFor .monthly rent) 13) := by
  have hodd : Odd 13 := by decide
  have hweekly : weeklyOf (inPence .monthly rent) = ((3 * rent : ℤ) : ℚ) / (13 : ℕ) / 100 := by
    simp only [weeklyOf, inPence, weeklyFromMonthly, monthsPerYear, weeksPerYear]
    push_cast
    ring
  have hmonthly : monthlyOf (inPence .monthly rent) = (rent : ℚ) / 100 := rfl
  have hannual : annualFrom (inPence .monthly rent) = ((12 * rent : ℤ) : ℚ) / 100 := by
    simp only [annualFrom, inPence, monthsPerYear]
    push_cast
    ring
  have hdeposit : weeklyOf (inPence .monthly rent) * (weeksFor .monthly rent : ℚ) =
      ((3 * rent * weeksFor .monthly rent : ℤ) : ℚ) / (13 : ℕ) / 100 := by
    rw [hweekly]
    push_cast
    ring
  have hfirst : monthlyOf (inPence .monthly rent) +
      weeklyOf (inPence .monthly rent) * (weeksFor .monthly rent : ℚ) =
      ((13 * rent + 3 * rent * weeksFor .monthly rent : ℤ) : ℚ) / (13 : ℕ) / 100 := by
    rw [hmonthly, hdeposit]
    push_cast
    ring
  refine ⟨?_, ?_, ?_, ?_, ?_⟩
  · exact (congrArg roundCents hweekly).trans (roundCents_div _ hodd)
  · exact (congrArg roundCents hmonthly).trans (roundCents_pence rent)
  · exact (congrArg roundCents hannual).trans (roundCents_pence _)
  · exact (congrArg roundCents hdeposit).trans (roundCents_div _ hodd)
  · exact (congrArg roundCents hfirst).trans (roundCents_div _ hodd)

lemma weekly_inPence : InPence (depositCap (inPence .weekly rent)) rent (nearest (13 * rent) 3)
    (52 * rent) (rent * weeksFor .weekly rent)
    (nearest (13 * rent + 3 * rent * weeksFor .weekly rent) 3) := by
  have hodd : Odd 3 := by decide
  have hweekly : weeklyOf (inPence .weekly rent) = (rent : ℚ) / 100 := rfl
  have hmonthly : monthlyOf (inPence .weekly rent) = ((13 * rent : ℤ) : ℚ) / (3 : ℕ) / 100 := by
    simp only [monthlyOf, inPence, monthlyFromWeekly]
    push_cast
    ring
  have hannual : annualFrom (inPence .weekly rent) = ((52 * rent : ℤ) : ℚ) / 100 := by
    simp only [annualFrom, inPence, weeksPerYear]
    push_cast
    ring
  have hdeposit : weeklyOf (inPence .weekly rent) * (weeksFor .weekly rent : ℚ) =
      ((rent * weeksFor .weekly rent : ℤ) : ℚ) / 100 := by
    rw [hweekly]
    push_cast
    ring
  have hfirst : monthlyOf (inPence .weekly rent) +
      weeklyOf (inPence .weekly rent) * (weeksFor .weekly rent : ℚ) =
      ((13 * rent + 3 * rent * weeksFor .weekly rent : ℤ) : ℚ) / (3 : ℕ) / 100 := by
    rw [hmonthly, hdeposit]
    push_cast
    ring
  refine ⟨?_, ?_, ?_, ?_, ?_⟩
  · exact (congrArg roundCents hweekly).trans (roundCents_pence rent)
  · exact (congrArg roundCents hmonthly).trans (roundCents_div _ hodd)
  · exact (congrArg roundCents hannual).trans (roundCents_pence _)
  · exact (congrArg roundCents hdeposit).trans (roundCents_pence _)
  · exact (congrArg roundCents hfirst).trans (roundCents_div _ hodd)

end Figures

/-! ### Which equations are exact -/

lemma hundredths_mul {a b : ℤ} {n : ℕ} : (a : ℚ) / 100 * n = (b : ℚ) / 100 ↔ a * n = b := by
  rw [div_mul_eq_mul_div, div_left_inj' (by norm_num)]
  exact_mod_cast Iff.rfl

lemma hundredths_add (a b : ℤ) : (a : ℚ) / 100 + (b : ℚ) / 100 = ((a + b : ℤ) : ℚ) / 100 := by
  push_cast
  ring

lemma hundredths_sub (a b : ℤ) : (a : ℚ) / 100 - (b : ℚ) / 100 = ((a - b : ℤ) : ℚ) / 100 := by
  push_cast
  ring

/-- The equations of the two answers, in pence. -/
lemma printedSumsExact_iff {rent : StatedRent} {weekly monthly annual deposit firstMonthPlusDeposit : ℤ}
    (h : InPence (depositCap rent) weekly monthly annual deposit firstMonthPlusDeposit)
    (held : Option ℤ) :
    PrintedSumsExact (depositCap rent) (moveInCost rent (held.map fun a : ℤ => (a : ℚ) / 100)) ↔
      weekly * (depositCap rent).depositCapWeeks = deposit ∧
      (match rent.period with
        | .monthly => monthly * 12 = annual
        | .weekly => weekly * 52 = annual) ∧
      firstMonthPlusDeposit = monthly + deposit := by
  have htotal : (moveInCost rent (held.map fun a : ℤ => (a : ℚ) / 100)).totalMoveInGbp =
      ((monthly + deposit : ℤ) : ℚ) / 100 := by
    show roundCents ((depositCap rent).monthlyRentGbp + (depositCap rent).maxTenancyDepositGbp) = _
    rw [h.monthly, h.deposit, hundredths_add, roundCents_pence]
  have hproduct : (depositCap rent).depositProduct.Exact ↔
      weekly * (depositCap rent).depositCapWeeks = deposit := by
    rw [PrintedProduct.Exact, DepositCap.depositProduct, h.weekly, h.deposit]
    exact hundredths_mul
  have hannual : (depositCap rent).annualProduct.Exact ↔
      match rent.period with
        | .monthly => monthly * 12 = annual
        | .weekly => weekly * 52 = annual := by
    have hperiod : (depositCap rent).statedRentPeriod = rent.period := rfl
    rw [PrintedProduct.Exact, DepositCap.annualProduct, hperiod]
    cases rent.period with
    | monthly =>
      show (depositCap rent).monthlyRentGbp * _ = (depositCap rent).annualRentGbp ↔ _
      rw [h.monthly, h.annual]
      exact hundredths_mul
    | weekly =>
      show (depositCap rent).weeklyRentGbp * _ = (depositCap rent).annualRentGbp ↔ _
      rw [h.weekly, h.annual]
      exact hundredths_mul
  have hsame : (depositCap rent).firstMonthPlusDepositGbp =
      (moveInCost rent (held.map fun a : ℤ => (a : ℚ) / 100)).totalMoveInGbp ↔
      firstMonthPlusDeposit = monthly + deposit := by
    rw [htotal, h.firstMonthPlusDeposit, div_left_inj' (by norm_num)]
    exact_mod_cast Iff.rfl
  constructor
  · intro hexact
    exact ⟨hproduct.1 hexact.deposit, hannual.1 hexact.annual, hsame.1 hexact.sameTotal⟩
  · rintro ⟨hdeposit, hyear, hfirst⟩
    refine ⟨hproduct.2 hdeposit, hannual.2 hyear, hproduct.2 hdeposit, hannual.2 hyear, ?_, ?_,
      hsame.2 hfirst⟩
    · rw [PrintedSum.Exact, MoveInCost.totalLine, htotal]
      show (depositCap rent).monthlyRentGbp + (depositCap rent).maxTenancyDepositGbp = _
      rw [h.monthly, h.deposit, hundredths_add]
    · intro paid hpaid
      obtain ⟨credit, rfl⟩ : ∃ credit, held = some credit := by
        cases held with
        | none => cases hpaid
        | some credit => exact ⟨credit, rfl⟩
      obtain rfl : roundCents ((credit : ℚ) / 100) = paid := Option.some.inj hpaid
      have htotal : (moveInCost rent (some ((credit : ℚ) / 100))).totalMoveInGbp =
          ((monthly + deposit : ℤ) : ℚ) / 100 := htotal
      have hbalance : (moveInCost rent (some ((credit : ℚ) / 100))).balanceDueAtMoveInGbp =
          roundCents ((moveInCost rent (some ((credit : ℚ) / 100))).totalMoveInGbp -
            roundCents ((credit : ℚ) / 100)) := rfl
      rw [htotal, roundCents_pence, hundredths_sub, roundCents_pence, ← hundredths_sub] at hbalance
      show (moveInCost rent (some ((credit : ℚ) / 100))).totalMoveInGbp -
        roundCents ((credit : ℚ) / 100) = _
      rw [htotal, roundCents_pence]
      exact hbalance.symm

/-- Every printed equation is exact just if the rent is stated by the week, or so many pence by the
month that the weekly rent is a whole number of pence or a thirteenth of a penny from one. -/
theorem printed_sums_exact_iff (period : RentPeriod) (rent : ℤ) (held : Option ℤ) :
    PrintedSumsExact (depositCap (inPence period rent))
        (moveInCost (inPence period rent) (held.map fun a : ℤ => (a : ℚ) / 100)) ↔
      period = .weekly ∨ rent % 13 = 0 ∨ rent % 13 = 4 ∨ rent % 13 = 9 := by
  have hweeks : (depositCap (inPence period rent)).depositCapWeeks = weeksFor period rent := rfl
  have hcases : weeksFor period rent = 5 ∨ weeksFor period rent = 6 := depositCapWeeks_cases _
  cases period with
  | weekly =>
    rw [printedSumsExact_iff (weekly_inPence rent), hweeks]
    refine iff_of_true ⟨rfl, mul_comm _ _, ?_⟩ (.inl rfl)
    rcases hcases with hweeks | hweeks
    all_goals
      rw [hweeks, nearest, nearest]
      push_cast
      omega
  | monthly =>
    rw [printedSumsExact_iff (monthly_inPence rent), hweeks]
    simp only [reduceCtorEq, false_or]
    -- the weekly rent is so many thirteenths of a penny off
    obtain ⟨q, r, hr, hlt, rfl⟩ : ∃ q r : ℤ, 0 ≤ r ∧ r < 13 ∧ rent = 13 * q + r :=
      ⟨rent / 13, rent % 13, by omega, by omega, by omega⟩
    rcases hcases with hweeks | hweeks
    all_goals
      rw [hweeks, nearest, nearest, nearest]
      push_cast
      constructor
      · rintro ⟨hdeposit, -, -⟩
        interval_cases r <;> omega
      · intro hrent
        refine ⟨?_, mul_comm _ _, by omega⟩
        interval_cases r <;> omega

/-- £4,500 a month: six weeks of £1,038.46 are £6,230.76, and £6,230.77 is printed. -/
theorem printed_deposit_off_by_a_penny :
    ¬ PrintedSumsExact (depositCap (inPence .monthly 450000))
        (moveInCost (inPence .monthly 450000) none) := by
  intro hexact
  have hdeposit := hexact.deposit
  revert hdeposit
  rw [PrintedProduct.Exact]
  decide +kernel

end RentCompass.Tenancy
