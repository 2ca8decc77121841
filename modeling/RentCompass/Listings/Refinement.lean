import RentCompass.Listings.Ranking
import RentCompass.Narrowing

/-!
# Refining the listings on screen

A follow-up that narrows what is shown: the records are filtered, sorted and cut without a new
search. A record whose value cannot be read is kept by the filters and sinks in the order. What a
message asks for is a matter of patterns, which are taken as they come.
-/

namespace RentCompass.Refinement

open Ranking (Value str)

/-- What the interpreter makes of numbers and characters. -/
structure Python extends Ranking.Python where
  /-- The digit that `\d` matches, and its value. -/
  digit? : Nat → Option Nat
  /-- `float(n)` -/
  float : ℤ → ℚ

variable (py : Python)

/-! ### Records -/

/-- A record of the panel. -/
abbrev Record := Dict Value

namespace Record

/-- `rec.get(key)` -/
def get (rec : Record) (key : String) : Value := (Dict.get? rec key).getD .null

/-- `str(rec.get(key) or '')` -/
def text (rec : Record) (key : String) : Text :=
  str py.toPython (if (rec.get key).truthy then rec.get key else .str [])

end Record

/-- `int(x)` -/
def truncate (x : ℚ) : ℤ := if 0 ≤ x then x.floor else x.ceil

/-- The number of a run of digits. -/
def ofDigits (ds : List Nat) : ℤ := ds.foldl (fun n d => 10 * n + (d : ℤ)) 0

def isDigit (c : Nat) : Bool := (py.digit? c).isSome

def comma : Nat := 44

/-- `_NUM_RE`: the first run of digits and commas that starts with a digit. -/
def firstNumber (s : Text) : Option ℤ :=
  match s.dropWhile fun c => !isDigit py c with
  | [] => none
  | rest => some (ofDigits ((rest.takeWhile fun c => isDigit py c || c = comma).filterMap py.digit?))

/-- `\d+`: the first run of digits. -/
def firstDigits (s : Text) : Option ℤ :=
  match s.dropWhile fun c => !isDigit py c with
  | [] => none
  | rest => some (ofDigits ((rest.takeWhile (isDigit py)).filterMap py.digit?))

/-- `_MINUTES_RE`: up to three digits in front of "min". -/
def minutes : Text → Option ℤ
  | [] => none
  | c :: s =>
    let ds := (c :: s).takeWhile (isDigit py)
    let unit := ((c :: s).dropWhile (isDigit py)).dropWhile Text.isSpace
    if ds ≠ [] ∧ ds.length ≤ 3 ∧ Text.ofString "min" <+: unit then
      some (ofDigits (ds.filterMap py.digit?))
    else minutes s

/-- What a value reads as: a boolean as nothing, a number as its integer part, and the text of
anything else as what is found in it. -/
def readNumber (v : Value) (find : Option ℤ) : Option ℤ :=
  match v with
  | .bool _ => none
  | .int n => some n
  | .float x => some (truncate x)
  | _ => find

/-- `record_price` -/
def record_price (rec : Record) : Option ℤ :=
  readNumber (rec.get "price") (firstNumber py (rec.text py "price"))

/-- `record_commute_minutes` -/
def record_commute_minutes (rec : Record) : Option ℤ :=
  readNumber (rec.get "travel_time") (minutes py (py.lower (rec.text py "travel_time")))

def holds (needle : String) (s : Text) : Bool := Text.ofString needle <:+: s

/-- `record_bedrooms` -/
def record_bedrooms (rec : Record) : Option ℤ :=
  let s := py.lower (rec.text py "bedrooms").strip
  readNumber (rec.get "bedrooms")
    (if s = [] ∨ s = "n/a" then
      if holds "studio" (py.lower (rec.text py "property_type")) then some 0 else none
    else if holds "studio" s then some 0
    else firstDigits py s)

/-- `record_score` -/
def record_score (rec : Record) : ℚ :=
  if (rec.get "score").truthy then (Ranking.asFloat py.toPython (rec.get "score")).getD 0 else 0

/-- `_record_text` -/
def recordText (rec : Record) : Text :=
  py.lower (Text.joinSpace
    (["property_type", "address", "name", "description", "explanation"].map (rec.text py)))

/-- `_record_areas` -/
def recordAreas (rec : Record) : Text :=
  py.lower (Text.joinSpace [rec.text py "area", rec.text py "address"])

/-- `record_matches_room_type` -/
def record_matches_room_type (rec : Record) (room_type : Text) : Bool :=
  if room_type = "studio" then holds "studio" (recordText py rec)
  else if room_type = "ensuite" then
    ["en-suite", "ensuite", "en suite"].any fun n => holds n (recordText py rec)
  else if room_type = "shared" then
    ["shar", "flatshare", "flat share", "house share"].any fun n => holds n (recordText py rec)
  else true

/-! ### Specifications -/

inductive Filter where
  | max_price (value : ℤ)
  | min_price (value : ℤ)
  | room_type (value : Text)
  | not_room_type (value : Text)
  | min_bedrooms (value : ℤ)
  | bedrooms (value : ℤ)
  | area (value : Text)
  | not_area (value : Text)
  deriving DecidableEq

inductive SortKey where
  | price
  | commute
  | bedrooms
  | score
  deriving DecidableEq

structure Sorting where
  key : SortKey
  desc : Bool
  deriving DecidableEq

/-- A specification; a limit of zero is none. -/
structure Spec where
  filters : List Filter
  sort : Option Sorting
  limit : Option Nat
  unsupported_sort : Option Text
  deriving DecidableEq

/-- `_passes` -/
def passes (rec : Record) : Filter → Bool
  | .max_price value => (record_price py rec).all (· ≤ value)
  | .min_price value => (record_price py rec).all (value ≤ ·)
  | .room_type value => record_matches_room_type py rec value
  | .not_room_type value => !record_matches_room_type py rec value
  | .min_bedrooms value => (record_bedrooms py rec).all (value ≤ ·)
  | .bedrooms value => (record_bedrooms py rec).all (· = value)
  | .area value => py.lower value <:+: recordAreas py rec
  | .not_area value => !decide (py.lower value <:+: recordAreas py rec)

/-- `_SORT_READERS`, and `float` of what they read. -/
def SortKey.read (rec : Record) : SortKey → Option ℚ
  | .price => (record_price py rec).map py.float
  | .commute => (record_commute_minutes py rec).map py.float
  | .bedrooms => (record_bedrooms py rec).map py.float
  | .score => some (record_score py rec)

/-- `_key`: unknown sorts last in both directions. -/
def Sorting.place (sort : Sorting) (rec : Record) : ℕ ×ₗ ℚ :=
  match sort.key.read py rec with
  | none => toLex (1, 0)
  | some val => toLex (0, if sort.desc then -val else val)

/-- `apply_refinement` -/
def apply_refinement (previous : List Record) (spec : Spec) : List Record :=
  let out := spec.filters.foldl (fun out flt => out.filter fun r => passes py r flt) previous
  let out := match spec.sort with
    | none => out
    | some sort => out.insertionSort fun a b => sort.place py a ≤ sort.place py b
  match spec.limit with
  | none | some 0 => out
  | some limit => out.take limit

/-! ### Plans -/

/-- What is found in a message. -/
structure Patterns where
  /-- The message is not about what is shown: a question, a search, a wider budget. -/
  declines : Text → List Record → Bool
  /-- The filters by area; nothing, where the area means another search. -/
  areas : Text → List Record → Option (List Filter)
  /-- `_parse_price_bound` -/
  priceBound : Text → Option ℤ × Option ℤ
  /-- `_parse_room_type` -/
  roomType : Text → Option Text × Option Text
  minBedrooms : Text → Option ℤ
  exactBedrooms : Text → Option ℤ
  /-- `_ceiling_covers_shown_set` -/
  ceilingCovers : Text → List Record → Option ℤ → Bool
  /-- `_parse_sort` -/
  sort : Text → Option Sorting × Option Text
  /-- `_parse_limit` -/
  limit : Text → Option Nat

variable (patterns : Patterns)

/-- The filters that a message asks for besides those by area. -/
def parsedFilters (text : Text) : List Filter :=
  ((patterns.priceBound text).1.map Filter.max_price).toList ++
    ((patterns.priceBound text).2.map Filter.min_price).toList ++
    ((patterns.roomType text).1.map Filter.room_type).toList ++
    ((patterns.roomType text).2.map Filter.not_room_type).toList ++
    ((patterns.minBedrooms text).map Filter.min_bedrooms).toList ++
    ((patterns.exactBedrooms text).map Filter.bedrooms).toList

/-- `parse_refinement` -/
def parse_refinement (message : Text) (previous : List Record) : Option Spec :=
  let text := message.strip
  if text = [] ∨ previous = [] ∨ patterns.declines text previous then none
  else (patterns.areas text previous).bind fun areas =>
    if patterns.ceilingCovers text previous (patterns.priceBound text).1 then none
    else
      let filters := areas ++ parsedFilters patterns text
      let limit := (patterns.limit text).filter (· < previous.length)
      if filters = [] ∧ (patterns.sort text).1 = none ∧ limit = none then none
      else some { filters, sort := (patterns.sort text).1, limit,
                  unsupported_sort := (patterns.sort text).2 }

/-- `plan_refinement` -/
def plan_refinement (message : Text) (previous : List Record) : Option (Spec × List Record) :=
  if previous = [] then none
  else (parse_refinement patterns message previous).bind fun spec =>
    let refined := apply_refinement py previous spec
    if refined = [] then none
    else if refined.length = previous.length ∧ spec.sort = none ∧ spec.limit.getD 0 = 0 then none
    else some (spec, refined)

end RentCompass.Refinement
