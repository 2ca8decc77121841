import RentCompass.Listings.Verdict
import RentCompass.Json.Dumps

/-!
# Statutory tenancy money

The figures of a deposit and of a move-in, from the one rent that was stated, and the answers that
show how they come about.
-/

namespace RentCompass.Tenancy

open Listings JsonValue

/-! ### Rules -/

def jurisdiction : Text := "England and Wales"
def statute : Text := "Tenant Fees Act 2019"

def depositCapThresholdAnnualGbp : ℚ := 50000
def depositCapWeeksBelowThreshold : Nat := 5
def depositCapWeeksAtOrAboveThreshold : Nat := 6
def holdingDepositCapWeeks : Nat := 1

def weeksPerYear : Nat := 52
def monthsPerYear : Nat := 12

/-- The period the user stated. -/
inductive RentPeriod where
  | weekly
  | monthly
  deriving DecidableEq

/-- Exactly one of `weekly_rent` and `monthly_rent`. -/
structure StatedRent where
  period : RentPeriod
  amount : ℚ

/-- `None` stands for the `ValueError`. -/
def statedRent (weeklyRent monthlyRent : Option ℚ) : Option StatedRent :=
  match weeklyRent, monthlyRent with
  | none, some monthly => some ⟨.monthly, monthly⟩
  | some weekly, none => some ⟨.weekly, weekly⟩
  | _, _ => none

/-- `weekly_from_monthly` -/
def weeklyFromMonthly (monthlyRent : ℚ) : ℚ := monthlyRent * monthsPerYear / weeksPerYear

/-- `annual_from` -/
def annualFrom (rent : StatedRent) : ℚ :=
  match rent.period with
  | .monthly => rent.amount * monthsPerYear
  | .weekly => rent.amount * weeksPerYear

/-- `deposit_cap_weeks` -/
def depositCapWeeks (annualRent : ℚ) : Nat :=
  if depositCapThresholdAnnualGbp ≤ roundCents annualRent then depositCapWeeksAtOrAboveThreshold
  else depositCapWeeksBelowThreshold

/-! ### Figures -/

structure DepositCap where
  statedRentPeriod : RentPeriod
  weeklyRentGbp : ℚ
  monthlyRentGbp : ℚ
  annualRentGbp : ℚ
  depositCapWeeks : Nat
  maxTenancyDepositGbp : ℚ
  maxHoldingDepositGbp : ℚ
  firstMonthPlusDepositGbp : ℚ

def weeklyOf (rent : StatedRent) : ℚ :=
  match rent.period with
  | .monthly => weeklyFromMonthly rent.amount
  | .weekly => rent.amount

def monthlyOf (rent : StatedRent) : ℚ :=
  match rent.period with
  | .monthly => rent.amount
  | .weekly => monthlyFromWeekly rent.amount

/-- `deposit_cap` -/
def depositCap (rent : StatedRent) : DepositCap :=
  let weekly := weeklyOf rent
  let monthly := monthlyOf rent
  let annual := annualFrom rent
  let weeks := depositCapWeeks annual
  let deposit := weekly * weeks
  { statedRentPeriod := rent.period
    weeklyRentGbp := roundCents weekly
    monthlyRentGbp := roundCents monthly
    annualRentGbp := roundCents annual
    depositCapWeeks := weeks
    maxTenancyDepositGbp := roundCents deposit
    maxHoldingDepositGbp := roundCents (weekly * holdingDepositCapWeeks)
    firstMonthPlusDepositGbp := roundCents (monthly + deposit) }

structure MoveInCost extends DepositCap where
  firstMonthRentGbp : ℚ
  tenancyDepositGbp : ℚ
  totalMoveInGbp : ℚ
  holdingDepositPaidGbp : Option ℚ
  holdingDepositOverCap : Bool
  balanceDueAtMoveInGbp : ℚ

/-- `move_in_cost` -/
def moveInCost (rent : StatedRent) (holdingDepositGbp : Option ℚ) : MoveInCost :=
  let cap := depositCap rent
  let firstMonth := cap.monthlyRentGbp
  let deposit := cap.maxTenancyDepositGbp
  let total := roundCents (firstMonth + deposit)
  let held := holdingDepositGbp.map roundCents
  let credit := held.getD 0
  { cap with
    firstMonthRentGbp := firstMonth
    tenancyDepositGbp := deposit
    totalMoveInGbp := total
    holdingDepositPaidGbp := held
    holdingDepositOverCap := held.any (cap.maxHoldingDepositGbp + 5 / 1000 < ·)
    balanceDueAtMoveInGbp := roundCents (total - credit) }

/-! ### Amounts in print -/

/-- The nearest number of pence, of two the even one. -/
def pence (v : ℚ) : ℤ := (roundCents v * 100).floor

def twoDigits (n : Nat) : Text := [48 + n / 10 % 10, 48 + n % 10]

def threeDigits (n : Nat) : Text := (48 + n / 100 % 10) :: twoDigits n

/-- `f"{n:,}"` -/
def grouped (n : Nat) : Text :=
  match (Nat.digits 1000 n).reverse with
  | [] => decimal 0
  | group :: groups => decimal group ++ groups.flatMap fun g => 44 :: threeDigits g

/-- `_money`: `f"£{v:,.2f}"` -/
def money (v : ℚ) : Text :=
  let amount := (pence v).natAbs
  Text.ofString "£" ++ (if v < 0 then Text.ofString "-" else []) ++ grouped (amount / 100) ++
    Text.ofString "." ++ twoDigits (amount % 100)

/-- A rent times a number of periods. -/
structure PrintedProduct where
  factor : ℚ
  times : Nat
  result : ℚ

def PrintedProduct.factors (p : PrintedProduct) (unit : Text) : Text :=
  money p.factor ++ Text.ofString " x " ++ decimal p.times ++ unit

/-- `£w x 5 = £d` -/
def PrintedProduct.text (p : PrintedProduct) (unit : Text) : Text :=
  p.factors unit ++ Text.ofString " = " ++ money p.result

structure PrintedSum where
  first : ℚ
  second : ℚ
  total : ℚ

/-- `£f + £d = £t` -/
def PrintedSum.text (s : PrintedSum) : Text :=
  money s.first ++ Text.ofString " + " ++ money s.second ++ Text.ofString " = " ++ money s.total

/-- What is left of a total once a credit is taken off. -/
structure PrintedBalance where
  total : ℚ
  credit : ℚ
  balance : ℚ

/-! ### Equations of the answers -/

def DepositCap.annualProduct (cap : DepositCap) : PrintedProduct :=
  match cap.statedRentPeriod with
  | .monthly => ⟨cap.monthlyRentGbp, monthsPerYear, cap.annualRentGbp⟩
  | .weekly => ⟨cap.weeklyRentGbp, weeksPerYear, cap.annualRentGbp⟩

def DepositCap.depositProduct (cap : DepositCap) : PrintedProduct :=
  ⟨cap.weeklyRentGbp, cap.depositCapWeeks, cap.maxTenancyDepositGbp⟩

def MoveInCost.depositLine (mi : MoveInCost) : PrintedProduct :=
  ⟨mi.weeklyRentGbp, mi.depositCapWeeks, mi.tenancyDepositGbp⟩

def MoveInCost.totalLine (mi : MoveInCost) : PrintedSum :=
  ⟨mi.firstMonthRentGbp, mi.tenancyDepositGbp, mi.totalMoveInGbp⟩

def MoveInCost.creditLine (mi : MoveInCost) (held : ℚ) : PrintedBalance :=
  ⟨mi.totalMoveInGbp, held, mi.balanceDueAtMoveInGbp⟩

/-! ### Answers -/

inductive Language where
  | en
  | zh
  deriving DecidableEq

/-- `_cap_sentence_en` -/
def capSentenceEn (cap : DepositCap) : Text :=
  let annual := cap.annualProduct
  Text.ofString "Annual rent is " ++ money annual.result ++ Text.ofString " (" ++ annual.factors [] ++
  Text.ofString ")" ++
  (if cap.depositCapWeeks = depositCapWeeksAtOrAboveThreshold then
    Text.ofString ", which is " ++ money depositCapThresholdAnnualGbp ++
      Text.ofString " or more, so the cap is " ++ decimal cap.depositCapWeeks ++
      Text.ofString " weeks' rent"
  else
    Text.ofString ", which is under " ++ money depositCapThresholdAnnualGbp ++
      Text.ofString ", so the cap is " ++ decimal cap.depositCapWeeks ++
      Text.ofString " weeks' rent") ++
  Text.ofString " (" ++ statute ++ Text.ofString ", Sch.1 para 2, " ++ jurisdiction ++
  Text.ofString ")."

/-- `_cap_sentence_zh` -/
def capSentenceZh (cap : DepositCap) : Text :=
  let annual := cap.annualProduct
  Text.ofString "年租金为 " ++ money annual.result ++ Text.ofString "（" ++ annual.factors [] ++
  Text.ofString "），" ++
  (if cap.depositCapWeeks = depositCapWeeksAtOrAboveThreshold then
    Text.ofString "达到或超过 " ++ money depositCapThresholdAnnualGbp
  else Text.ofString "低于 " ++ money depositCapThresholdAnnualGbp) ++
  Text.ofString "，因此押金上限为 " ++ decimal cap.depositCapWeeks ++ Text.ofString " 周租金（" ++
  statute ++ Text.ofString " Sch.1 para 2，" ++ jurisdiction ++ Text.ofString "）。"

/-- `"\n".join` -/
def joinLines (lines : List Text) : Text := [10].intercalate lines

/-- `deposit_answer` -/
def depositAnswer (cap : DepositCap) (language : Language) : Text :=
  let weekly := money cap.weeklyRentGbp
  let total := money cap.maxTenancyDepositGbp
  match language with
  | .zh => joinLines [
      Text.ofString "按你说的租金，房东最多可以收 " ++ total ++ Text.ofString " 的租赁押金。",
      [],
      Text.ofString "- " ++ capSentenceZh cap,
      Text.ofString "- 周租金：" ++ weekly ++
        (match cap.statedRentPeriod with
        | .monthly => Text.ofString "（" ++ money cap.monthlyRentGbp ++ Text.ofString " x 12 / 52）"
        | .weekly => Text.ofString "（你已说明）"),
      Text.ofString "- 押金上限：" ++ cap.depositProduct.text [],
      [],
      Text.ofString "这是法定上限，不是预测——房东可以少收。押金必须在 30 天内存入政府认可的押金保护计划。另外可能会有一笔最多 1 周租金（" ++
        money cap.maxHoldingDepositGbp ++
        Text.ofString "）的意向金（holding deposit），签约后会抵扣首月租金或押金，不是额外费用。苏格兰和北爱尔兰规则不同。"]
  | .en => joinLines [
      Text.ofString "For the rent you've given, the most the landlord can legally take as a tenancy deposit is " ++
        total ++ Text.ofString ".",
      [],
      Text.ofString "- " ++ capSentenceEn cap,
      Text.ofString "- Weekly rent: " ++ weekly ++
        (match cap.statedRentPeriod with
        | .monthly => Text.ofString " (" ++ money cap.monthlyRentGbp ++ Text.ofString " x 12 / 52)"
        | .weekly => Text.ofString " (as you stated)"),
      Text.ofString "- Deposit cap: " ++ cap.depositProduct.text [],
      [],
      Text.ofString "That is the statutory maximum, not a prediction — a landlord may ask for less. The deposit must be protected in a government-approved scheme within 30 days. A holding deposit, if one is asked for, is capped separately at one week's rent (" ++
        money cap.maxHoldingDepositGbp ++
        Text.ofString ") and is credited against your first rent payment or the deposit once the tenancy is granted, so it is not an extra cost. Scotland and Northern Ireland have separate rules."]

/-- The line about a holding deposit that is paid. -/
def creditText (credit : PrintedBalance) : Language → Text
  | .zh => Text.ofString "- 你已支付的意向金 " ++ money credit.credit ++
      Text.ofString " 会抵扣上述款项，不另计：入住时还需支付 " ++ money credit.balance ++ Text.ofString "。"
  | .en => Text.ofString "- The " ++ money credit.credit ++
      Text.ofString " holding deposit you've already paid comes off that total rather than being added to it, so " ++
      money credit.balance ++ Text.ofString " is left to pay at move-in."

/-- `move_in_answer` -/
def moveInAnswer (mi : MoveInCost) (language : Language) : Text :=
  let first := money mi.firstMonthRentGbp
  let total := money mi.totalMoveInGbp
  let credit := mi.holdingDepositPaidGbp.toList.map fun held => creditText (mi.creditLine held) language
  match language with
  | .zh => joinLines ([
      Text.ofString "入住前需要一次性支付的总额是 " ++ total ++ Text.ofString "，由两部分组成：",
      [],
      Text.ofString "- 首月租金：" ++ first,
      Text.ofString "- 租赁押金：" ++ mi.depositLine.text " 周",
      Text.ofString "- 合计：" ++ mi.totalLine.text,
      [],
      Text.ofString "- " ++ capSentenceZh mi.toDepositCap] ++ credit ++ [
      [],
      Text.ofString "这里只包含租金和法定押金。英格兰和威尔士自 2019 年起禁止收取中介费、手续费等费用。账单、市政税和押金保护计划的费用不在其中——如果你需要全包总额，请把账单和市政税的金额告诉我，我不会代你估算。"])
  | .en => joinLines ([
      Text.ofString "Your total move-in cost is " ++ total ++ Text.ofString ", made up of two things:",
      [],
      Text.ofString "- First month's rent: " ++ first,
      Text.ofString "- Tenancy deposit: " ++ mi.depositLine.text " weeks",
      Text.ofString "- Total: " ++ mi.totalLine.text,
      [],
      Text.ofString "- " ++ capSentenceEn mi.toDepositCap] ++ credit ++ [
      [],
      Text.ofString "That is rent and the statutory deposit only. Letting agents and landlords in England and Wales have not been allowed to charge admin, referencing or inventory fees since the Tenant Fees Act 2019, so there is nothing else to add. Bills and council tax are separate and are not included above — tell me those figures if you want an all-in monthly number; I won't estimate them for you."])

end RentCompass.Tenancy
