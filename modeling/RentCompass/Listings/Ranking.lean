import RentCompass.Json.Value
import RentCompass.Listings.Verdict
import Mathlib.Data.Prod.Lex
import Mathlib.Data.Finset.Card

/-!
# Ranking a page of listings

The score of a listing from the utilities there is evidence for, and the order of the page, which
weighs the score of each listing against its likeness to those above it. Numbers are exact, and are
rounded where the code rounds them.
-/

namespace RentCompass.Ranking

open Listings (roundCents)

/-- The value of a field. -/
abbrev Value := JsonValue ℚ

/-- What the interpreter makes of texts and numbers. -/
structure Python where
  /-- `float(s)` -/
  floatOf : Text → Option ℚ
  /-- `str.lower` -/
  lower : Text → Text
  /-- `str(v)`, of a value that is neither a text nor `None` -/
  repr : Value → Text

/-! ### Values -/

namespace Value

def truthy : Value → Bool
  | .null => false
  | .bool b => b
  | .int n => n ≠ 0
  | .float q => q ≠ 0
  | .str s => s ≠ []
  | .arr items => !items.isEmpty
  | .obj d => !d.isEmpty

/-- `v or w` -/
def or (v w : Value) : Value := if v.truthy then v else w

/-- The value of a number; the booleans are numbers. -/
def number? : Value → Option ℚ
  | .bool b => some (if b then 1 else 0)
  | .int n => some n
  | .float q => some q
  | _ => none

/-- `v == w`, where one of them is no container. -/
def scalarEq (v w : Value) : Bool :=
  match v.number?, w.number? with
  | some p, some q => p = q
  | none, none =>
    match v, w with
    | .str s, .str t => s = t
    | .null, .null => true
    | _, _ => false
  | _, _ => false

mutual

/-- `v == w` -/
def eq : Value → Value → Bool
  | .arr vs, .arr ws => eqItems vs ws
  | .obj d, .obj e => d.length == e.length && eqFields d e
  | v, w => scalarEq v w

def eqItems : List Value → List Value → Bool
  | [], [] => true
  | v :: vs, w :: ws => eq v w && eqItems vs ws
  | _, _ => false

def eqFields : List (Text × Value) → Dict Value → Bool
  | [], _ => true
  | (key, v) :: d, e =>
    (match e.get? key with
    | some w => eq v w
    | none => false) && eqFields d e

end

end Value

/-- A listing: a row whose address, where it has one, is a text. -/
structure Listing where
  fields : Dict Value
  distinct : fields.keys.Nodup
  named : ∀ key ∈ ["Address", "address"], ∀ v, fields.get? key = some v →
    v = .null ∨ ∃ s, v = .str s

namespace Listing

/-- `listing.get(key)` -/
def get (l : Listing) (key : String) : Value := (l.fields.get? key).getD .null

end Listing

variable (py : Python)

/-- `str(v)` -/
def str : Value → Text
  | .str s => s
  | .null => "None"
  | v => py.repr v

/-- `str(listing.get(key, ""))` -/
def word (l : Listing) (key : String) : Text := ((l.fields.get? key).map (str py)).getD []

/-! ### Utilities -/

def DEFAULT_WEIGHTS : List (Text × ℚ) :=
  [("price", 30 / 100), ("commute", 28 / 100), ("semantic", 15 / 100), ("features", 10 / 100),
    ("availability", 10 / 100), ("freshness", 7 / 100)]

/-- `_clamp` -/
def clamp (value : ℚ) : ℚ := max 0 (min 1 value)

/-- `_as_float` -/
def asFloat (v : Value) : Option ℚ :=
  match v with
  | .str s => py.floatOf s
  | v => v.number?

/-- `_price_utility` -/
def priceUtility (price : Value) (budget : Option ℚ) : Option ℚ := do
  let p ← asFloat py price
  let budget ← budget
  if p < 0 ∨ budget ≤ 0 then none
  else if p / budget ≤ 1 then some (55 / 100 + 45 / 100 * (1 - p / budget))
  else some (clamp (55 / 100 * (1 - (p / budget - 1) / (15 / 100))))

/-- `_commute_utility` -/
def commuteUtility (minutes : Value) (max_commute : Option ℚ) : Option ℚ := do
  let t ← asFloat py minutes
  let max_commute ← max_commute
  if t < 0 ∨ max_commute ≤ 0 then none
  else some (clamp (15 / 100 + 85 / 100 * (1 - t / max_commute)))

/-- `_semantic_utility` -/
def semanticUtility (value : Value) : Option ℚ := do
  let score ← asFloat py value
  return clamp (if score < 0 then (score + 1) / 2 else score)

/-- `_feature_utility` -/
def featureUtility (l : Listing) (requested_features : Option (List Text)) : Option ℚ :=
  let wanted := ((requested_features.getD []).map Text.strip).filter (· ≠ [])
  let wanted := wanted.map py.lower
  let haystack := py.lower (Text.joinSpace
    (["Room_Type_Category", "Description", "Detailed_Amenities", "Type"].map (word py l)))
  if wanted = [] then none
  else some (wanted.countP (· <:+: haystack) / wanted.length)

/-- `_availability_utility` -/
def availabilityUtility (l : Listing) (move_in_date : Option Text) : Option ℚ :=
  match move_in_date with
  | none => none
  | some [] => none
  | some date =>
    let stated := (((l.get "_resolved_available_from").or (l.get "_available_from")).or
      (l.get "Available From")).or (.str [])
    let available := (str py stated).strip
    if available = [] then some (50 / 100)
    else if py.lower available = "available now" ∨ available ≤ date then some 1
    else some (20 / 100)

/-- `_freshness_utility` -/
def freshnessUtility (l : Listing) : ℚ := if (l.get "possibly_outdated").truthy then 45 / 100 else 1

/-! ### The score -/

/-- `_normalised_score` -/
def normalisedScore (components : List (Text × Option ℚ)) : ℚ × List (Text × ℚ) :=
  let usable := components.filterMap fun c => c.2.map fun value => (c.1, value)
  let weight (name : Text) : ℚ := (DEFAULT_WEIGHTS.lookup name).getD 0
  let total_weight := (usable.map fun c => weight c.1).sum
  if usable = [] ∨ total_weight ≤ 0 then (0, [])
  else
    let contributions :=
      usable.map fun c => (c.1, roundCents (100 * weight c.1 / total_weight * c.2))
    (roundCents (contributions.map Prod.snd).sum, contributions)

/-- `statistics.median` -/
def median (l : List ℚ) : Option ℚ :=
  let sorted := l.insertionSort (· ≤ ·)
  let n := sorted.length
  if n % 2 = 1 then sorted[n / 2]?
  else do
    let low ← sorted[n / 2 - 1]?
    let high ← sorted[n / 2]?
    return (low + high) / 2

def isTokenCharacter (c : Nat) : Bool := (48 ≤ c && c ≤ 57) || (97 ≤ c && c ≤ 122)

/-- `_token_set` -/
def tokenSet (l : Listing) : Finset Text :=
  let text := py.lower (Text.joinSpace
    (["Address", "address", "_search_area", "Room_Type_Category", "Type", "Description"].map
      (word py l)))
  let tokens := (text.splitOnP fun c => !isTokenCharacter c).filter (3 ≤ ·.length)
  (tokens.filter (· ∉ ["flat", "room", "rent"].map Text.ofString)).toFinset

/-- `_jaccard` -/
def jaccard (left right : Finset Text) : ℚ :=
  if left = ∅ ∨ right = ∅ then 0 else (left ∩ right).card / (left ∪ right).card

/-! ### The page -/

/-- What the caller asks for. -/
structure Request where
  max_budget : Option ℚ := none
  max_commute : Option ℚ := none
  requested_features : Option (List Text) := none
  move_in_date : Option Text := none
  diversity_lambda : ℚ := 88 / 100

/-- A copy of a row with its score: the row is known by its place in the input. -/
structure Prepared where
  index : Nat
  listing : Listing
  recommendation_score : ℚ
  score_breakdown : List (Text × ℚ)
  tokens : Finset Text

/-- The keys that are set on a copy. -/
def setKeys : List Text :=
  ["recommendation_score", "score_breakdown", "_diversity_tokens", "diversified_score"]

/-- The fields that a copy has from its row. -/
def Listing.own (l : Listing) : Dict Value := l.fields.filter (·.1 ∉ setKeys)

/-- `price_anchor` -/
def priceAnchor (rows : List Listing) (request : Request) : Option ℚ :=
  match request.max_budget with
  | some budget => some budget
  | none => median ((rows.filterMap fun row => asFloat py (row.get "price")).filter (0 < ·))

def prepare (request : Request) (anchor : Option ℚ) (index : Nat) (listing : Listing) : Prepared :=
  let scored := normalisedScore
    [("price", priceUtility py (listing.get "price") anchor),
      ("commute", commuteUtility py (listing.get "travel_time") request.max_commute),
      ("semantic", semanticUtility py (listing.get "similarity_score")),
      ("features", featureUtility py listing request.requested_features),
      ("availability", availabilityUtility py listing request.move_in_date),
      ("freshness", some (freshnessUtility listing))]
  { index, listing, recommendation_score := scored.1, score_breakdown := scored.2,
    tokens := tokenSet py listing }

namespace Prepared

/-- The likeness to the most alike of the chosen rows. -/
def similarity (chosen : List Prepared) (candidate : Prepared) : ℚ :=
  (chosen.map fun picked => jaccard candidate.tokens picked.tokens).foldl max 0

/-- The value of a candidate after the chosen rows. -/
def value (lam : ℚ) (chosen : List Prepared) (candidate : Prepared) : ℚ :=
  lam * candidate.recommendation_score - (1 - lam) * 100 * candidate.similarity chosen

/-- `str(candidate.get("Address", candidate.get("address", "")))` -/
def address (candidate : Prepared) : Text :=
  match candidate.listing.fields.get? "Address" with
  | some v => str py v
  | none => word py candidate.listing "address"

/-- `mmr` -/
def mmr (lam : ℚ) (chosen : List Prepared) (candidate : Prepared) : ℚ ×ₗ ℚ ×ₗ Text :=
  toLex (candidate.value lam chosen, toLex (candidate.recommendation_score, candidate.address py))

/-- `row == best`, once the best row has its diversified score. -/
def isEqual (best : Prepared) (diversified_score : ℚ) (row : Prepared) : Bool :=
  row.index = best.index ||
    (row.listing.own.length == best.listing.own.length &&
      Value.eqFields row.listing.own best.listing.own &&
      decide (row.recommendation_score = best.recommendation_score) &&
      decide (row.score_breakdown = best.score_breakdown) && decide (row.tokens = best.tokens) &&
      (match row.listing.fields.get? "diversified_score" with
      | some v => v.eq (.float diversified_score)
      | none => false))

end Prepared

/-- `max(best :: rows, key=key)`: the first of the greatest. -/
def pick {α β : Type} [LT β] [DecidableLT β] (key : α → β) (best : α) : List α → α
  | [] => best
  | row :: rows => if key best < key row then pick key row rows else pick key best rows

/-- The rows still to be placed, in so many turns of the loop, after those that are chosen, each
with its diversified score. -/
def diversify (lam : ℚ) : Nat → List (Prepared × ℚ) → List Prepared → List (Prepared × ℚ)
  | 0, chosen, _ | _, chosen, [] => chosen
  | n + 1, chosen, row :: rows =>
    let best := pick (Prepared.mmr py lam (chosen.map Prod.fst)) row rows
    let diversified_score := roundCents (best.value lam (chosen.map Prod.fst))
    diversify lam n (chosen ++ [(best, diversified_score)])
      ((row :: rows).eraseP (best.isEqual diversified_score))

/-- The copies of the rows, with their scores. -/
def prepareAll (rows : List Listing) (request : Request) : List Prepared :=
  rows.zipIdx.map fun row => prepare py request (priceAnchor py rows request) row.2 row.1

/-- `rank_and_diversify`: the rows in their order, each with its diversified score. -/
def rank_and_diversify (rows : List Listing) (request : Request) : List (Prepared × ℚ) :=
  diversify py (clamp request.diversity_lambda) (prepareAll py rows request).length []
    (prepareAll py rows request)

end RentCompass.Ranking
