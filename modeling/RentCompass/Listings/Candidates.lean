import RentCompass.Text
import Mathlib.Algebra.Order.Ring.Rat
import Mathlib.Data.List.Infix

/-!
# Validating candidates

How a candidate listing is classified from its structured fields and from commute evidence. The
fields are those the classification reads; what it finds in a listing's own words is a matter of
patterns, which are taken as they come.
-/

namespace RentCompass.Listings

/-! ### Values -/

/-- A scalar of a row, of the criteria or of an evidence record; absent ones are `null`. -/
inductive Scalar where
  | null
  | bool (b : Bool)
  | int (n : Int)
  | float (q : ℚ)
  | text (t : Text)
  deriving DecidableEq

instance : Coe String Scalar := ⟨fun s => .text s⟩

namespace Scalar

/-- The truth value. -/
def truthy : Scalar → Bool
  | null => false
  | bool b => b
  | int n => n ≠ 0
  | float q => q ≠ 0
  | text t => t ≠ []

/-- `v or w` -/
def or (v w : Scalar) : Scalar := if v.truthy then v else w

/-- The value of a number. -/
def value? : Scalar → Option ℚ
  | int n => some n
  | float q => some q
  | _ => none

end Scalar

/-- A list, or one value in its place. -/
inductive OneOrMany where
  | one (v : Scalar)
  | many (vs : List Scalar)

/-! ### Rows and evidence -/

/-- The fields of a listing that validation reads and does not write. -/
structure Listing where
  url : Scalar := .null
  URL : Scalar := .null
  address : Scalar := .null
  Address : Scalar := .null
  providerAddress : Scalar := .null
  geoLocation : Option (ℚ × ℚ) := none
  price : Option Scalar := none
  Price : Option Scalar := none
  alternative : Scalar := .null
  matchType : Scalar := .null
  bedrooms : Option Scalar := none
  Bedrooms : Option Scalar := none
  propertyType : Scalar := .null
  /-- `Type` -/
  listingType : Scalar := .null
  roomType : Scalar := .null
  roomTypeCategory : Scalar := .null
  area : Scalar := .null
  Area : Scalar := .null
  verifiedFeatures : Option (List Scalar) := none
  features : Option (List Scalar) := none
  amenities : Option (List Scalar) := none
  unverifiedFeatures : Option (List Scalar) := none
  absentFeatures : Option (List Scalar) := none
  availableFrom : Scalar := .null
  /-- The descriptions `listing_text` puts together. -/
  prose : List Scalar := []

/-- What is said of the monthly cost of a commute. -/
structure Cost where
  error : Scalar := .null
  coverageVerified : Scalar := .null
  monthlyCostBasis : Scalar := .null
  monthlyCostIsUpperBound : Scalar := .null
  paygEstimateKind : Scalar := .null
  monthlyCost : Option Scalar := none
  officeDaysPerWeek : Scalar := .null
  deriving DecidableEq

/-- What a commute tool returns. -/
structure Route extends Cost where
  fromAddress : Scalar := .null
  toAddress : Scalar := .null
  success : Scalar := .null
  durationMinutes : Option Scalar := none
  basis : Scalar := .null
  routeSource : Scalar := .null
  source : Scalar := .null
  changesCount : Scalar := .null
  /-- Where there is one, it may be no record. -/
  transportCost : Option (Option Cost) := none
  deriving DecidableEq

/-- An entry of the commute evidence. -/
structure Entry extends Route where
  candidateKey : Scalar := .null
  evidenceStatus : Scalar := .null
  timedOut : Scalar := .null
  timeout : Scalar := .null
  denied : Scalar := .null
  abandoned : Scalar := .null
  outcomeUnknown : Scalar := .null
  tool : Scalar := .null
  /-- `raw_data`, where it is a record. -/
  rawData : Option Route := none
  deriving DecidableEq

/-- `raw_data`, or the entry itself. -/
def Entry.raw (e : Entry) : Route := e.rawData.getD e.toRoute

/-! ### Criteria -/

/-- The fields of the search criteria that constrain candidates. -/
structure Criteria where
  maxBudgetMonthly : Option Scalar := none
  maxBudget : Scalar := .null
  budgetPeriod : Scalar := .null
  maxCommuteTime : Option Scalar := none
  maxTravelTime : Scalar := .null
  monthlyTotalBudget : Scalar := .null
  officeDaysPerWeek : Scalar := .null
  maxChanges : Scalar := .null
  commuteDestination : Scalar := .null
  destination : Scalar := .null
  noCommute : Scalar := .null
  bedrooms : Scalar := .null
  bedroomsMinimum : Scalar := .null
  roomType : Scalar := .null
  areas : OneOrMany := .many []
  area : Scalar := .null
  moveInDate : Scalar := .null
  propertyFeatures : OneOrMany := .many []
  billsIncluded : Scalar := .null
  tenantStatus : Scalar := .null
  softPreferences : List Scalar := []
  /-- The words the preferences and the features come from. -/
  constraintSources : List Scalar := []

/-- `hard_constraints(criteria)` -/
structure Constraints where
  maxBudgetMonthly : Option ℚ
  monthlyTotalBudget : Option ℚ
  officeDaysPerWeek : Option ℚ
  maxCommuteMinutes : Option ℚ
  commuteDestination : Option Text
  noCommute : Bool
  maxChanges : Option Int
  bedrooms : Option ℚ
  bedroomsMinimum : Bool
  roomType : Option Text
  areas : List Text
  moveInDate : Scalar
  propertyFeatures : List Text
  billsIncluded : Bool
  tenantStatus : Option Text
  /-- A garden is needed, a private one. -/
  garden : Option Bool
  deriving DecidableEq

inductive ConditionStatus where
  | met
  | notMet
  | unknown
  deriving DecidableEq

/-- A condition found in a listing's own words. -/
structure Condition where
  status : ConditionStatus
  reason : Text
  deriving DecidableEq

/-- What the interpreter knows of characters and numbers, and what patterns find in texts. -/
structure TextRules where
  /-- `str.lower` -/
  lower : Text → Text
  lower_ascii : ∀ t, (∀ c ∈ t, c < 0x80 ∧ ¬ (65 ≤ c ∧ c ≤ 90)) → lower t = t
  /-- `\d`, with the digit's value. -/
  digit : Nat → Option Nat
  /-- `str` of a number. -/
  str : ℚ → Text
  /-- `_STUDIO_WORD` -/
  studio : Text → Bool
  /-- `_garden_requirement` -/
  garden : Criteria → Option Bool
  roomTypeParts : Text → List Text
  /-- A listing with this type is of the wanted one. -/
  fitsRoomType : Listing → Text → Text → Bool
  /-- `_is_in_london` -/
  isInLondon : Listing → Text → Bool
  /-- `check_listing_conditions`, the explanation of the row given. -/
  listingConditions : Listing → Option Text → Constraints → List Condition
  /-- The route notes of an explanation, withdrawn. -/
  withdrawRoutes : Text → Text
  /-- A display text that says itself that the time is not verified. -/
  tentative : Text → Bool

variable (rules : TextRules)

/-! ### Texts and numbers -/

/-- `needle in text` -/
def contains (needle text : Text) : Bool := needle <:+: text

/-- `str(value or "")` -/
def textOf : Scalar → Text
  | .text t => t
  | .bool true => "True"
  | .int n => if n = 0 then [] else rules.str n
  | .float q => if q = 0 then [] else rules.str q
  | _ => []

/-- `_norm` -/
def norm (v : Scalar) : Text :=
  Text.joinSpace (Text.split (rules.lower (Text.strip (textOf rules v))))

/-- The digits up to the fraction, and what is behind them. -/
def integerPart : ℚ → Text → ℚ × Text
  | n, [] => (n, [])
  | n, c :: t =>
    match rules.digit c with
    | some d => integerPart (10 * n + d) t
    | none => if c = 44 then integerPart n t else (n, c :: t)

/-- The digits of the fraction. -/
def fractionPart : ℚ → Text → ℚ
  | _, [] => 0
  | scale, c :: t =>
    match rules.digit c with
    | some d => d * scale + fractionPart (scale / 10) t
    | none => 0

/-- `_NUMBER`: the first number in a text. -/
def numberOfText (t : Text) : Option ℚ :=
  match t.dropWhile fun c => (rules.digit c).isNone with
  | [] => none
  | t =>
    let (n, rest) := integerPart rules 0 t
    match rest with
    | 46 :: fraction => some (n + fractionPart rules (1 / 10) fraction)
    | _ => some n

/-- `_number` -/
def number (v : Scalar) : Option ℚ :=
  match v with
  | .bool _ => none
  | .int n => some n
  | .float q => some q
  | v => numberOfText rules ((textOf rules v).filter (· ≠ 0xA3))

/-- `_GARDEN_WORD` -/
def isGardenWord (feature : Text) : Bool :=
  contains "garden" (rules.lower feature) || contains "花园" feature

/-- `_BILLS_FEATURES` -/
def billsFeatures : List Text := ["bills included", "bills-included", "bills inclusive"]

/-- `monthly_from_weekly` -/
def monthlyFromWeekly (weekly : ℚ) : ℚ := weekly * 52 / 12

/-- The list; an empty value stands for none. -/
def OneOrMany.toList : OneOrMany → List Scalar
  | .one v => if v.truthy then [v] else []
  | .many vs => vs

/-- `hard_constraints` -/
def hardConstraints (c : Criteria) : Constraints :=
  let budget := number rules (c.maxBudgetMonthly.getD c.maxBudget)
  let weekly := norm rules c.budgetPeriod ∈ (["week", "weekly", "pw"] : List Text)
  let budget := if weekly ∧ c.maxBudgetMonthly = none then budget.map monthlyFromWeekly else budget
  let areas := if c.areas.toList ≠ [] then c.areas.toList
    else if c.area.truthy then [c.area] else []
  let features := c.propertyFeatures.toList
  let features := if 43 ∈ textOf rules c.roomType then features.filter fun f =>
      norm rules f ∉ (["studio", "en-suite", "ensuite"] : List Text)
    else features
  { maxBudgetMonthly := budget.filter (0 < ·)
    monthlyTotalBudget := (number rules c.monthlyTotalBudget).filter (0 < ·)
    officeDaysPerWeek := (number rules c.officeDaysPerWeek).filter fun q => 0 ≤ q && q ≤ 7
    maxCommuteMinutes := (number rules (c.maxCommuteTime.getD c.maxTravelTime)).filter (0 < ·)
    commuteDestination := if (c.commuteDestination.or c.destination).truthy then
        some (Text.strip (textOf rules (c.commuteDestination.or c.destination)))
      else none
    noCommute := c.noCommute.truthy
    maxChanges := ((number rules c.maxChanges).filter fun q =>
      q.den = 1 && 0 ≤ q && q ≤ 30).map (·.num)
    bedrooms := number rules c.bedrooms
    bedroomsMinimum := c.bedroomsMinimum.truthy
    roomType := (some (norm rules c.roomType)).filter (· ≠ [])
    areas := (areas.map (norm rules)).filter (· ≠ [])
    moveInDate := c.moveInDate.or .null
    propertyFeatures := (features.map (norm rules)).filter (· ≠ [])
    billsIncluded := c.billsIncluded.truthy || features.any fun f => norm rules f ∈ billsFeatures
    tenantStatus := (some (norm rules c.tenantStatus)).filter (· ≠ [])
    garden := rules.garden c }

/-- `commute_constraint_required` -/
def Constraints.requiresCommute (k : Constraints) : Bool :=
  k.maxCommuteMinutes.any (· ≠ 0) && k.commuteDestination.any (· ≠ []) && !k.noCommute

end RentCompass.Listings
