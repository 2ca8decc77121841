import RentCompass.Canary.Contract
import Mathlib.Algebra.BigOperators.Group.List.Basic

/-!
# What a window comes to

The contract of a window of records, and the numbers of an arm that the verdict reads. The order of
latencies that are no numbers is the sort's own.
-/

namespace RentCompass.Canary

variable (py : Python)

/-! ### Contract validation across records -/

def isHex (c : Nat) : Bool := isDigit c || (97 ≤ c && c ≤ 102)

/-- `_FULL_SHA_RE` -/
def isFullSha (t : Text) : Bool := t.length = 40 && t.all isHex

/-- `_ABBREV_SHA_RE` -/
def isAbbrevSha (t : Text) : Bool := 7 ≤ t.length && t.length ≤ 39 && t.all isHex

/-- The build a written sha stands for: an abbreviation is the one full sha it begins, if there is
one. -/
def canonicalSha (full : List Text) (value : Text) : Text :=
  if isFullSha value || !isAbbrevSha value then value
  else match full.filter (value.isPrefixOf ·) with
    | [sha] => sha
    | _ => value

/-- `normalise_candidate_shas`: the builds, sorted. -/
def normalise_candidate_shas (shas : List Value) : List Text :=
  let raw_values := (shas.filter (!·.isNull)).map (Value.text py)
  let full := (raw_values.filter isFullSha).dedup
  (raw_values.map (canonicalSha full)).dedup.insertionSort (· ≤ ·)

/-- What the validation of a window says. -/
structure Instrumentation where
  records : Nat
  violating : Nat
  /-- The violations of records, which the holds of the window do not add to. -/
  record_violating : Nat
  violations : Dict Nat
  candidate_shas : List Text
  schema_versions : List Value
  mixed_candidate_shas : Bool
  mixed_schema_versions : Bool
  ok : Bool

/-- The key of a turn; only a request id makes one. -/
def turnKeys (records : List Record) : Except Raised (List (Value × Text × Value)) := do
  let keyed := records.filter fun r => !(r.get "request_id").isNull
  keyed.forM fun r => do
    (r.get "request_id").hash
    (r.get "agent_arch").hash
  return keyed.map fun r => (r.get "request_id", record_endpoint py r, r.get "agent_arch")

/-- The turns with more than one record. -/
def dupes (keys : List (Value × Text × Value)) : List ((Value × Text × Value) × Nat) :=
  (tally (fun k l => k.1.eq l.1 && k.2.1 == l.2.1 && k.2.2.eq l.2.2) keys).filter (1 < ·.2)

/-- The shas of the candidate as they are written. -/
def raw_shas (records : List Record) (candidate_arch : Text) : Except Raised (List Value) :=
  distinct ((records.filter fun r =>
    (r.get "agent_arch").eq (.str candidate_arch) && !(r.get "candidate_sha").isNull).map
      (·.get "candidate_sha"))

/-- The supported schema versions of a window. -/
def versions (records : List Record) : Except Raised (List Value) :=
  distinct ((records.map (·.get "telemetry_schema_version")).filter
    (·.isIn (SUPPORTED_SCHEMA_VERSIONS.map .int)))

/-- The specialist variants of `manager_v1`. -/
def variants (records : List Record) : Except Raised (List Value) :=
  distinct ((records.filter fun r => (r.get "agent_arch").reads "manager_v1" &&
    (r.get "manager_v1_specialists").isBool).map (·.get "manager_v1_specialists"))

/-- `validate_records` -/
def validate_records (records : List Record) (candidate_arch : Text) :
    Except Raised Instrumentation := do
  let problems ← records.mapM (validate_record py)
  let offenders : Dict Nat := tally (· == ·) problems.flatten
  let bad := problems.countP (· ≠ [])
  let dupes := dupes (← turnKeys py records)
  let duplicates := (dupes.map (·.2)).sum
  let offenders := if dupes.isEmpty then offenders else
    offenders.insert (Text.ofString "duplicate records for " ++ shown py dupes.length ++
      " (request_id, endpoint, arch) key(s) — one turn must emit exactly one record") duplicates
  let bad := max bad duplicates
  let shas := normalise_candidate_shas py (← raw_shas records candidate_arch)
  let offenders := if shas.length ≤ 1 then offenders else
    offenders.insert (Text.ofString "window mixes " ++ shown py shas.length ++
      " candidate_sha values on " ++ candidate_arch ++ ": " ++ py.repr (.arr (shas.map .str)))
      shas.length
  let bad := if shas.length ≤ 1 then bad else max bad 1
  let versions ← versions records
  let offenders := if versions.length ≤ 1 then offenders else
    offenders.insert (Text.ofString "window mixes telemetry_schema_version " ++
      py.repr (.arr versions) ++ ": " ++ listed py REQUIRED_TOP_FIELDS_V3 ++
      " were redefined at v3 and are not comparable across the boundary") versions.length
  let bad := if versions.length ≤ 1 then bad else max bad 1
  let variants ← variants records
  let mixed := candidate_arch = "manager_v1" ∧ 1 < variants.length
  let offenders := if mixed then
    offenders.insert "window mixes manager_v1_specialists=false/true variants" variants.length
    else offenders
  let bad := if mixed then max bad 1 else bad
  return {
    records := records.length
    violating := bad
    record_violating := bad
    violations := offenders.insertionSort fun p q => q.2 ≤ p.2
    candidate_shas := shas
    schema_versions := versions
    mixed_candidate_shas := 1 < shas.length
    mixed_schema_versions := 1 < versions.length
    ok := bad = 0 ∧ 0 < records.length }

/-- `_hold_instrumentation` -/
def _hold_instrumentation (i : Instrumentation) (hold : Text × Nat) : Instrumentation :=
  { i with
    violations := i.violations.insert hold.1 ((i.violations.get? hold.1).getD 0 + hold.2)
    violating := i.violating + hold.2
    ok := false }

/-! ### Flags of a record -/

/-- The flags of a record that a verdict counts. -/
structure Flags where
  soft_wrapped : Bool
  partials : Bool
  tainted_unauth_write : Bool
  forbidden_write : Bool
  latency_ms : Option Double
  dsml_blocked : Int
  dsml_leak : Bool
  api_400 : Int
  http_5xx : Bool
  forbidden_read : Value
  no_evidence_numbers : Value

/-- `security`, where it is an object. -/
def securityOf (r : Record) : Dict Value := ((r.get "security").obj?).getD []

/-- `latency_ms` -/
def latency_ms (r : Record) : Except Raised (Option Double) :=
  let v := if r.has "turn_latency_ms" then r.get "turn_latency_ms"
    else if r.has "latency_ms" then r.get "latency_ms" else r.get "turn_latency"
  if v.isBool then .ok none else v.toFloat? py

/-- The turn failed at the boundary: its latency is none of a turn. -/
def is_5xx (r : Record) : Except Raised Bool := do
  let status ← (r.get "http_status").toInt? py
  return status.any (500 ≤ ·) ||
    py.lower (((r.get "turn_outcome").or (.str [])).text py) == Text.ofString "server_error"

/-- The latency of a turn that was completed. -/
def turnLatency (r : Record) (is_5xx : Bool) : Except Raised (Option Double) :=
  if is_5xx then .ok none else latency_ms py r

/-- `classify` -/
def classify (r : Record) : Except Raised Flags := do
  let tainted_exec ← (field (securityOf r) "tainted_write_executed_count")._to_int py
  let forbidden_exec ← (field (securityOf r) "forbidden_write_executed_count")._to_int py
  let is_5xx ← is_5xx py r
  let lat ← turnLatency py r is_5xx
  let dsml_blocked ← (r.get "dsml_blocked")._to_int py
  let dsml_leak ← (r.get "dsml_leak")._to_int py
  let api_400 ← (r.get "provider_schema_400_count")._to_int py
  return {
    soft_wrapped := (r.get "soft_wrapped")._truthy py
    partials := (r.get "partial")._truthy py
    tainted_unauth_write := tainted_exec ≠ 0
    forbidden_write := forbidden_exec ≠ 0
    latency_ms := lat
    dsml_blocked
    dsml_leak := 0 < dsml_leak
    api_400
    http_5xx := is_5xx
    forbidden_read := r.get "forbidden_read"
    no_evidence_numbers := r.get "no_evidence_numbers" }

/-! ### Zero tolerance -/

/-- The zero-tolerance counts of an arm. -/
structure ZeroTolerance where
  turns : Nat
  tainted_unauth_write_count : Nat
  forbidden_write_count : Nat
  /-- A count that was not instrumented is none. -/
  dsml_leak_count : Option Nat
  api_400_count : Option Nat

/-- `zero_tolerance_arm`: the record is one of this arm, and of the build that is pinned. -/
def isOfArm (arch : Text) (candidate_sha : Option Text) (r : Record) : Bool :=
  if record_arch py r ≠ arch then false
  else match candidate_sha.filter (· ≠ []) with
    | none => true
    | some candidate_sha =>
      let pin := py.lower (Text.strip candidate_sha)
      let value := py.lower (Text.strip (((r.get "candidate_sha").or (.str [])).text py))
      value ≠ [] && (value == pin || pin.isPrefixOf value || value.isPrefixOf pin)

/-- `aggregate_zero_tolerance` -/
def aggregate_zero_tolerance (records : List Record) : Except Raised ZeroTolerance := do
  let flags ← records.mapM (classify py)
  return {
    turns := records.length
    tainted_unauth_write_count := flags.countP (·.tainted_unauth_write)
    forbidden_write_count := flags.countP (·.forbidden_write)
    dsml_leak_count := some (flags.countP (·.dsml_leak))
    api_400_count := some (flags.countP (0 < ·.api_400)) }

/-! ### The numbers of an arm -/

/-- `_rate` -/
def _rate (count : Int) (total : Int) : Double :=
  if total = 0 then .real 0 else py.round (count / total)

/-- `percentile`: the nearest rank. -/
def percentile (values : List Double) (pct : ℚ) : Option Double :=
  let vals := values.insertionSort fun x y => !y.lt x
  let rank := match (py.round pct).scale py vals.length with
    | .real q => ⌈q⌉
    | _ => 0
  vals[min (rank - 1).toNat (vals.length - 1)]?

/-- What the specialists of an arm did. -/
structure SpecialistTotals where
  planned : Int
  started : Int
  completed : Int
  partials : Int
  failed : Int
  skipped : Int
  failure_rate : Option Double
  non_success_rate : Option Double

/-- The numbers of an arm. -/
structure Arm where
  turns : Nat
  p50_ms : Option Double
  p95_ms : Option Double
  degraded_rate : Double
  dsml_blocked_count : Int
  http_5xx_rate : Option Double
  forbidden_read_rate : Option Double
  no_evidence_numbers_rate : Option Double
  manager_v1_specialist_variants : List Bool
  specialist : SpecialistTotals

/-- `_eval_only_count`: nothing where no record carries an observation. -/
def _eval_only_count (observed : List Value) : Option Int :=
  let observed := observed.filter (!·.isNull)
  if observed.isEmpty then none else some (observed.countP (Value._truthy py))

def specialistTotals (records : List Record) : Except Raised SpecialistTotals := do
  let multi := records.filterMap fun r => (specialist_block r).1.bind (·.obj?)
  let total (f : String) : Except Raised Int := do
    return (← multi.mapM fun block => (field block f)._to_int py).sum
  let planned ← total "planned"
  let started ← total "started"
  let completed ← total "completed"
  let partials ← total "partial"
  let failed ← total "failed"
  let skipped ← total "skipped"
  let rate (n : Int) := if planned = 0 then none else some (_rate py n planned)
  return {
    planned, started, completed, partials, failed, skipped
    failure_rate := rate failed
    non_success_rate := rate (failed + skipped) }

/-- `aggregate_arch` -/
def aggregate_arch (records : List Record) : Except Raised Arm := do
  let flags ← records.mapM (classify py)
  let turns := records.length
  let lats := flags.filterMap (·.latency_ms)
  let specialist ← specialistTotals py records
  let known := records.filterMap fun r =>
    match r.get "manager_v1_specialists" with
    | .bool b => some b
    | _ => none
  return {
    turns
    p50_ms := percentile py lats (1 / 2)
    p95_ms := percentile py lats (19 / 20)
    degraded_rate := _rate py (flags.countP fun f => f.soft_wrapped || f.partials) turns
    dsml_blocked_count := (flags.map (·.dsml_blocked)).sum
    http_5xx_rate := some (_rate py (flags.countP (·.http_5xx)) turns)
    forbidden_read_rate :=
      (_eval_only_count py (flags.map (·.forbidden_read))).map (_rate py · turns)
    no_evidence_numbers_rate :=
      (_eval_only_count py (flags.map (·.no_evidence_numbers))).map (_rate py · turns)
    manager_v1_specialist_variants := [false, true].filter (· ∈ known)
    specialist }

end RentCompass.Canary
