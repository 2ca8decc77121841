import Mathlib.Data.Rat.Floor
import RentCompass.Json.Value
import RentCompass.Fallible

/-!
# Telemetry values

The values of a telemetry record as the interpreter compares, hashes and converts them, and the
time window a report selects its records by.
-/

namespace RentCompass.Canary

/-! ### Doubles -/

/-- A double, by its exact value where it has one. -/
inductive Double where
  | nan
  | inf (negative : Bool)
  | real (q : ℚ)
  deriving DecidableEq

namespace Double

/-- `x < y` -/
def lt : Double → Double → Bool
  | nan, _ | _, nan => false
  | real p, real q => p < q
  | inf s, inf t => s && !t
  | inf s, real _ => s
  | real _, inf t => !t

/-- `x <= y` -/
def le : Double → Double → Bool
  | nan, _ | _, nan => false
  | x, y => !y.lt x

/-- `x == y` -/
def eq (x y : Double) : Bool := x.le y && y.le x

lemma le_trans {x y z : Double} (hxy : x.le y) (hyz : y.le z) : x.le z := by
  cases x <;> cases y <;> cases z <;> simp_all [le, lt]
  case inf.inf.inf s t u => grind
  case real.real.real p q r => exact hxy.trans hyz

end Double

/-- A moment in microseconds since the epoch. -/
abbrev Time := Int

/-- What a value of the wrong kind raises. -/
inductive Raised where
  | typeError
  | valueError
  | overflowError
  deriving DecidableEq

/-- The value of a field. -/
abbrev Value := JsonValue Double

/-- What the interpreter knows of doubles, of characters and of texts. -/
structure Python where
  /-- The double nearest to a number. -/
  round : ℚ → Double
  round_mono : ∀ p q, p ≤ q → (round p).le (round q)
  /-- `str.lower` -/
  lower : Text → Text
  /-- `float(s)` -/
  floatOf : Text → Option Double
  /-- `int(s)` -/
  intOf : Text → Option Int
  /-- `datetime.fromisoformat(s)`, in UTC, a naive time being one. -/
  fromisoformat : Text → Option Time
  repr : Value → Text

variable (py : Python)

namespace Double

/-- `x - y` -/
def sub : Double → Double → Double
  | nan, _ | _, nan => nan
  | real p, real q => py.round (p - q)
  | inf s, inf t => if s = t then nan else inf s
  | inf s, real _ => inf s
  | real _, inf t => inf !t

/-- `x * q`, with a literal that is positive. -/
def scale (q : ℚ) : Double → Double
  | real p => py.round (p * q)
  | x => x

end Double

/-! ### Values -/

namespace Value

/-- The value of a number; the booleans are numbers. -/
def number? : Value → Option Double
  | .bool b => some (.real (if b then 1 else 0))
  | .int n => some (.real n)
  | .float x => some x
  | _ => none

/-- `v == w`, where one of them is no container. -/
def scalarEq (v w : Value) : Bool :=
  match number? v, number? w with
  | some x, some y => x.eq y
  | none, none =>
    match v, w with
    | .str s, .str t => s = t
    | .null, .null => true
    | _, _ => false
  | _, _ => false

mutual

/-- `v == w` -/
def eq : Value → Value → Bool
  | .arr vs, .arr ws => eqItems vs ws
  | .obj d, .obj e => d.length == e.length && eqFields d e
  | v, w => scalarEq v w

def eqItems : List Value → List Value → Bool
  | [], [] => true
  | v :: vs, w :: ws => eq v w && eqItems vs ws
  | _, _ => false

def eqFields : List (Text × Value) → Dict Value → Bool
  | [], _ => true
  | (key, v) :: d, e =>
    (match e.get? key with
    | some w => eq v w
    | none => false) && eqFields d e

end

/-- `v in (w, ...)` -/
def isIn (v : Value) (ws : List Value) : Bool := ws.any (eq v)

/-- `v in ("...", ...)` -/
def oneOf (v : Value) (ws : List String) : Bool := isIn v (ws.map fun s => .str s)

/-- `v == "..."` -/
def reads (v : Value) (s : String) : Bool := eq v (.str s)

def isNull : Value → Bool
  | .null => true
  | _ => false

/-- `v is True` -/
def isTrue : Value → Bool
  | .bool b => b
  | _ => false

/-- `v is False` -/
def isFalse : Value → Bool
  | .bool b => !b
  | _ => false

def isBool : Value → Bool
  | .bool _ => true
  | _ => false

/-- `isinstance(v, int) and not isinstance(v, bool)` -/
def int? : Value → Option Int
  | .int n => some n
  | _ => none

def obj? : Value → Option (Dict Value)
  | .obj d => some d
  | _ => none

def arr? : Value → Option (List Value)
  | .arr items => some items
  | _ => none

/-- The truth value. -/
def truthy : Value → Bool
  | .null => false
  | .bool b => b
  | .int n => n ≠ 0
  | .float x => !x.eq (.real 0)
  | .str s => s ≠ []
  | .arr items => !items.isEmpty
  | .obj d => !d.isEmpty

/-- `v or w` -/
def or (v w : Value) : Value := if v.truthy then v else w

/-- `str(v)` -/
def text : Value → Text
  | .str s => s
  | v => py.repr v

/-- What `hash(v)` raises. -/
def hash : Value → Except Raised Unit
  | .arr _ | .obj _ => .error .typeError
  | _ => .ok ()

/-- `_truthy` -/
def _truthy (v : Value) : Bool :=
  match v with
  | .str s =>
    py.lower s.strip ∈ ["1", "true", "t", "yes", "y"].map Text.ofString
  | v => v.truthy

/-- `int(v)`, and nothing where that raises a `TypeError` or a `ValueError`. -/
def toInt? : Value → Except Raised (Option Int)
  | .bool b => .ok (some (if b then 1 else 0))
  | .int n => .ok (some n)
  | .float (.real q) => .ok (some (if 0 ≤ q then ⌊q⌋ else ⌈q⌉))
  | .float (.inf _) => .error .overflowError
  | .str s => .ok (py.intOf s)
  | _ => .ok none

/-- `_to_int` -/
def _to_int (v : Value) : Except Raised Int := do
  if v.isNull then return 0
  return (← v.toInt? py).getD (if v._truthy py then 1 else 0)

/-- `float(v)`, and nothing where that raises a `TypeError` or a `ValueError`. -/
def toFloat? : Value → Except Raised (Option Double)
  | .int n =>
    match py.round n with
    | .inf _ => .error .overflowError
    | x => .ok (some x)
  | .float x => .ok (some x)
  | .str s => .ok (py.floatOf s)
  | _ => .ok none

end Value

/-! ### Sets and counters -/

/-- Count the elements, in the order in which they first occur. -/
def tally {α : Type} (eq : α → α → Bool) (l : List α) : List (α × Nat) :=
  l.foldl (fun counts a =>
    if counts.any (eq a ·.1) then counts.map fun p => if eq a p.1 then (p.1, p.2 + 1) else p
    else counts ++ [(a, 1)]) []

/-- A set of hashable values, each once. -/
def distinct (l : List Value) : Except Raised (List Value) := do
  l.forM Value.hash
  return (tally Value.eq l).map (·.1)

/-! ### Records -/

/-- A record of the log: the object of its line, and the time the line starts with. -/
structure Record where
  fields : Dict Value
  _line_ts : Option Time := none

namespace Record

/-- `rec.get(key)` -/
def get (r : Record) (key : String) : Value := (r.fields.get? key).getD .null

/-- `key in rec` -/
def has (r : Record) (key : String) : Bool := (r.fields.get? key).isSome

end Record

/-- `record_arch` -/
def record_arch (r : Record) : Text :=
  py.lower (Text.strip ((((r.get "agent_arch").or (r.get "arch")).or (.str [])).text py))

/-- `record_endpoint` -/
def record_endpoint (r : Record) : Text :=
  if (r.get "endpoint").isNull then [] else py.lower (Text.strip ((r.get "endpoint").text py))

/-! ### Times -/

/-- `timestamp()` -/
def timestamp (t : Time) : Double := py.round (t / 10 ^ 6)

/-- The moments a `datetime` can be: those of the years 1 to 9999. -/
def inRange (t : Time) : Bool := -62135596800000000 ≤ t && t < 253402300800000000

/-- The nearest integer, of two the even one. -/
def roundHalfEven (q : ℚ) : Int :=
  if q - ⌊q⌋ < 1 / 2 then ⌊q⌋ else if 1 / 2 < q - ⌊q⌋ then ⌊q⌋ + 1
  else if ⌊q⌋ % 2 = 0 then ⌊q⌋ else ⌊q⌋ + 1

/-- `datetime.fromtimestamp(secs, tz=timezone.utc)` -/
def fromtimestamp : Double → Option Time
  | .real q => if inRange (roundHalfEven (q * 10 ^ 6)) then some (roundHalfEven (q * 10 ^ 6)) else none
  | _ => none

/-- `parse_ts` of a number: from 10¹² on it counts milliseconds. -/
def ofEpoch (secs : Double) : Option Time :=
  match secs with
  | .real q => fromtimestamp (if 10 ^ 12 < q then py.round (q / 1000) else .real q)
  | x => fromtimestamp x

/-- The spelling of a time that `fromisoformat` is given. -/
def isoSpelling (s : Text) : Text :=
  let s := match s.idxOf? 32 with
    | some i => s.set i 84
    | none => s
  let s := s.map fun c => if c = 44 then 46 else c
  if s.getLast? = some 90 then s.dropLast ++ Text.ofString "+00:00" else s

/-- `parse_ts` -/
def parse_ts (v : Value) : Except Raised (Option Time) :=
  match v with
  | .int n =>
    match py.round n with
    | .inf _ => .error .overflowError
    | secs => .ok (ofEpoch py secs)
  | .float secs => .ok (ofEpoch py secs)
  | .str s =>
    if s.strip = [] then .ok none
    else match py.floatOf s.strip with
      | some secs => .ok (ofEpoch py secs)
      | none =>
        match py.fromisoformat (isoSpelling s.strip) with
        | some t => if inRange t then .ok (some t) else .error .overflowError
        | none => .ok none
  | _ => .ok none

/-- `record_ts`: the record's own time, else that of its line. -/
def record_ts (r : Record) : Except Raised (Option Time) := do
  match ← parse_ts py (r.get "ts") with
  | some t => return some t
  | none => return r._line_ts

/-! ### Windows -/

/-- The records with their times. -/
def stamped (records : List Record) : Except Raised (List (Record × Option Time)) :=
  records.mapM fun r => do return (r, ← record_ts py r)

/-- `reference_now`: the latest time of a record, and the clock where none has one. -/
def reference_now (stamps : List (Record × Option Time)) (override : Option Time) (clock : Time) :
    Time :=
  override.getD ((stamps.filterMap (·.2)).max?.getD clock)

/-- `window_bounds`: the later of the bounds that are given. -/
def window_bounds (window_hours : Option Double) (since : Option Time) (now : Time) :
    Except Raised (Option Time) :=
  match window_hours with
  | none => .ok since
  | some hours => do
    let wcut ← Except.ofOption
      (fromtimestamp ((timestamp py now).sub py (hours.scale py 3600))) .valueError
    return some ((since.elim wcut fun since => if wcut < since then since else wcut))

/-- The time is at or after the cutoff, up to a microsecond. -/
def keeps (cutoff : Time) (t : Time) : Bool :=
  ((timestamp py cutoff).sub py (py.round (1 / 10 ^ 6))).le (timestamp py t)

/-- `filter_window`, of records with a time. -/
def filter_window (dated : List (Record × Time)) (cutoff : Option Time) : List Record :=
  match cutoff with
  | none => dated.map (·.1)
  | some cutoff => (dated.filter fun p => keeps py cutoff p.2).map (·.1)

lemma timestamp_mono {s t : Time} (h : s ≤ t) : (timestamp py s).le (timestamp py t) := by
  refine py.round_mono _ _ ?_
  gcongr

lemma keeps_mono {cutoff s t : Time} (h : s ≤ t) (hs : keeps py cutoff s) : keeps py cutoff t :=
  Double.le_trans hs (timestamp_mono py h)

end RentCompass.Canary
