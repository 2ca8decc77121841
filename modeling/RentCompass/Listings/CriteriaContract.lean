import RentCompass.Listings.Candidates
import RentCompass.Listings.Ranking

/-!
# The criteria of a search and who owns them

A conversation keeps one set of criteria. A slot that the user has set, or has cleared, is noted in
`constraint_sources`; what a search was run with fills only the others. `area` and `areas`,
`destination` and `commute_destination`, and the two names of the monthly rent then follow one
another.
-/

namespace RentCompass.CriteriaContract

open Listings (monthlyFromWeekly)
open Ranking (Value str)

/-- What the interpreter makes of texts, and what a message says about the rent. -/
structure Python extends Ranking.Python where
  /-- `_extract_budget` -/
  extract_budget : Value → Option ℚ × Option Text

variable (py : Python)

/-- `criteria.get(field)` -/
def get (criteria : Dict Value) (field : Text) : Value := (criteria.get? field).getD .null

/-- Criteria: `area` is a text, `areas` a list of texts and `constraint_sources` a `dict`, where
they are there. -/
structure Criteria where
  fields : Dict Value
  distinct : fields.keys.Nodup
  area : get fields "area" = .null ∨ ∃ name, get fields "area" = .str name
  areas : get fields "areas" = .null ∨
    ∃ names : List Text, get fields "areas" = .arr (names.map .str)
  constraint_sources : get fields "constraint_sources" = .null ∨
    ∃ sources, get fields "constraint_sources" = .obj sources

/-- `criteria.get('constraint_sources') or {}` -/
def sources (criteria : Dict Value) : Dict Value :=
  match get criteria "constraint_sources" with
  | .obj sources => sources
  | _ => []

/-- `field in sources`: the user has set the slot, or cleared it. -/
def Owned (criteria : Dict Value) (field : Text) : Prop := field ∈ (sources criteria).keys

instance (criteria : Dict Value) (field : Text) : Decidable (Owned criteria field) :=
  inferInstanceAs (Decidable (_ ∈ _))

/-- `value is None or value == '' or value == []` -/
def isMissing : Value → Bool
  | .null => true
  | .str s => s.isEmpty
  | .arr items => items.isEmpty
  | _ => false

/-- The items of a list. -/
def items : Value → List Value
  | .arr vs => vs
  | _ => []

/-! ### The two names of the monthly rent -/

/-- `owns`: the source was noted with this very value. -/
def owns (source value : Value) : Bool :=
  match source with
  | .obj entry => (Dict.get? entry "value").any fun v => Value.eq v value
  | _ => false

/-- `source.get(key)` -/
def entryOf (source : Value) (key : Text) : Value :=
  match source with
  | .obj entry => get entry key
  | _ => .null

/-- `source.get('source') in names` -/
def comesFrom (source : Value) (names : List Text) : Bool :=
  match entryOf source "source" with
  | .str name => name ∈ names
  | _ => false

/-- `str(criteria.get('budget_period') or '').lower()` -/
def periodOf (period : Value) : Text := py.lower (str py.toPython (Value.or period (.str [])))

/-- What a message states as the rent, by the month. -/
def amountOf (text : Value) : Option ℚ :=
  match py.extract_budget text with
  | (some amount, some declared_period) =>
    if declared_period = "week" then some (monthlyFromWeekly amount) else some amount
  | (amount, _) => amount

/-- `confirmed`: the rent is known to be meant by the month. -/
def confirmed (value source period : Value) : Bool :=
  match value with
  | .null => owns source value
  | .int _ | .float _ =>
    let form_default := owns source value && comesFrom source ["form", "user_form", "manual"] &&
      periodOf py period = []
    if value.number?.any (· < 0) then false
    else if periodOf py period ∉ (["month", "monthly", "pcm"] : List Text) && !form_default then
      false
    else if owns source value && comesFrom source ["user_message"] &&
        (entryOf source "text").truthy then
      amountOf py (entryOf source "text") = value.number?
    else owns source value &&
      comesFrom source ["form", "user_form", "manual", "saved_preference", "criteria_recovery"]
  | _ => false

/-- The rent by the month is there and is to be replaced by the other. -/
def replaced (criteria : Dict Value) (period : Value) : Bool :=
  match criteria.get? "max_budget", criteria.get? "max_budget_monthly" with
  | some value, some monthly =>
    confirmed py value (get (sources criteria) "max_budget") period && !Value.eq monthly value
  | _, _ => false

/-- `synchronize_monthly_budget_alias` -/
def synchronize_monthly_budget_alias (criteria : Dict Value) : Dict Value :=
  if replaced py criteria (get criteria "budget_period") then
    criteria.insert "max_budget_monthly" (get criteria "max_budget")
  else criteria

/-! ### The search's view -/

/-- The slots, and what the tool calls them. -/
def aliases : Dict (List Text) :=
  [("area", ["area"]), ("areas", ["areas"]), ("commute_destination", ["commute_destination"]),
    ("max_budget", ["max_budget_monthly", "max_budget"]),
    ("max_travel_time", ["max_commute_time", "max_travel_time"]), ("bedrooms", ["bedrooms"]),
    ("bedrooms_minimum", ["bedrooms_minimum"]), ("room_type", ["room_type"]),
    ("move_in_date", ["move_in_date"]), ("monthly_total_budget", ["monthly_total_budget"]),
    ("office_days_per_week", ["office_days_per_week"]), ("max_changes", ["max_changes"]),
    ("property_features", ["property_features"]), ("soft_preferences", ["soft_preferences"]),
    ("budget_period", ["budget_period"]), ("no_commute", ["no_commute"])]

/-- The search gives the slot a value; that there is a commute is only the tool's default. -/
def gives (field : Text) (value : Value) : Bool :=
  !(decide (field = "no_commute") && !value.truthy) && !isMissing value

/-- The value that the search gives the slot. -/
def given (searched : Dict Value) (field : Text) (keys : List Text) : Option Value :=
  (keys.map (get searched)).find? (gives field)

/-- One turn of the loop over the slots. -/
def fill (accumulated searched result : Dict Value) (slot : Text × List Text) : Dict Value :=
  if Owned accumulated slot.1 then result
  else if !isMissing (get result slot.1) then result
  else match given searched slot.1 slot.2 with
    | some value => result.insert slot.1 value
    | none => result

/-- The old name of the destination counts, where the new one was never set. -/
def normalize (accumulated : Dict Value) : Dict Value :=
  match get accumulated "commute_destination" with
  | .null =>
    if (get accumulated "destination").truthy ∧ ¬ Owned accumulated "commute_destination" then
      accumulated.insert "commute_destination" (get accumulated "destination")
    else accumulated
  | _ => accumulated

/-- `area`, `areas` and `destination` follow one another. -/
def align (result : Dict Value) : Dict Value :=
  let areas := if items (get result "areas") ≠ [] then items (get result "areas")
    else if (get result "area").truthy then [get result "area"] else []
  let result := result.insert "areas" (.arr areas)
  let result := result.insert "area" (areas.head?.getD .null)
  result.insert "destination" (get result "commute_destination")

/-- `reconcile_search_criteria` -/
def reconcile_search_criteria (accumulated searched : Dict Value) : Dict Value :=
  synchronize_monthly_budget_alias py
    (align (aliases.foldl (fill accumulated searched) (normalize accumulated)))

/-! ### The form -/

/-- The source of a slot of the form. -/
def formSource (value : Value) : Value :=
  .obj [(Text.ofString "source", .str "form"), (Text.ofString "value", value)]

/-- The rent by the month follows the form's. -/
def followBudget (form result : Dict Value) : Dict Value :=
  match form.get? "max_budget" with
  | none => result
  | some .null => result.insert "max_budget_monthly" .null
  | some value =>
    if periodOf py (get result "budget_period") ∈ (["week", "weekly", "pw"] : List Text) then
      result.erase "max_budget_monthly"
    else result.insert "max_budget_monthly" value

/-- The old name of the commute limit follows the form's. -/
def followCommuteTime (form result : Dict Value) : Dict Value :=
  match form.get? "max_travel_time" with
  | none => result
  | some value => result.insert "max_commute_time" value

/-- `apply_form_criteria` -/
def apply_form_criteria (accumulated form : Dict Value) : Dict Value :=
  let result := accumulated.update form
  let sources := (sources result).update (form.map fun p => (p.1, formSource p.2))
  let result := result.insert "constraint_sources" (.obj sources)
  let result := result.insert "destination" (get result "commute_destination")
  followCommuteTime form (followBudget py form result)

end RentCompass.CriteriaContract
