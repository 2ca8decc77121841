import RentCompass.Canary.Aggregate

/-!
# The verdict

From the records of a stream to the exit code of the report. An invalid measurement outranks a
zero-tolerance breach, which outranks an instrumentation hold, which outranks a pause.
-/

namespace RentCompass.Canary

variable (py : Python)

/-! ### Stages and expectations -/

inductive Stage where
  | internal
  | c1
  | c2
  | c3
  | flip
  deriving DecidableEq

/-- `STAGES`: the least number of candidate turns, and of hours. -/
def STAGES : Stage → Nat × ℚ
  | .internal => (50, 24)
  | .c1 => (200, 24)
  | .c2 => (500, 48)
  | .c3 => (1000, 72)
  | .flip => (2000, 168)

/-- `evaluate_stage`: both minima hold. -/
def evaluate_stage (fc : Arm) (stage : Stage) (since : Option Time) (now : Time) : Bool :=
  (STAGES stage).1 ≤ fc.turns &&
    since.any fun since =>
      match py.round ((now - since : Int) / 10 ^ 6) with
      | .real secs => (Double.real (STAGES stage).2).le (py.round (secs / 3600))
      | _ => false

/-- What a count of turns from outside is reconciled with. -/
structure Expected where
  expected : Int
  observed : Nat
  unique_request_ids : Nat
  matched : Bool

/-- The records that conform. -/
def conforming (records : List Record) : Except Raised (List Record) := do
  let checked ← records.mapM fun r => do return (r, ← validate_record py r)
  return (checked.filter (·.2 = [])).map (·.1)

/-- The request ids of records, each with its count. -/
def requestIds (records : List Record) : Except Raised (List (Value × Nat)) := do
  records.forM fun r => (r.get "request_id").hash
  return tally Value.eq (records.map (·.get "request_id"))

/-- `evaluate_expected_turns` -/
def evaluate_expected_turns (windowed : List Record) (expected : Int) (candidate_arch : Text) :
    Except Raised Expected := do
  let eligible ← conforming py (windowed.filter fun r =>
    record_arch py r = candidate_arch && record_endpoint py r ∈ GATE_ENDPOINTS)
  let counts ← requestIds eligible
  let shas := (eligible.map fun r => (r.get "candidate_sha").text py).dedup
  return {
    expected
    observed := eligible.length
    unique_request_ids := counts.length
    matched := (eligible.length : Int) = expected ∧ (counts.length : Int) = expected ∧
      (∀ p ∈ counts, p.2 ≤ 1) ∧ shas.length ≤ 1 }

/-- `evaluate_expected_rollout_turns` -/
def evaluate_expected_rollout_turns (records : List Record) (expected : Int) :
    Except Raised Expected := do
  let eligible ← conforming py (records.filter fun r => record_endpoint py r ∈ GATE_ENDPOINTS)
  let counts ← requestIds eligible
  return {
    expected
    observed := eligible.length
    unique_request_ids := counts.length
    matched := (eligible.length : Int) = expected ∧ (counts.length : Int) = expected ∧
      ∀ p ∈ counts, p.2 ≤ 1 }

/-! ### Measurement validity -/

/-- Why a window is no measurement. -/
inductive Invalidity where
  | mixedSchemaVersions
  | mixedCandidateShas
  | noRecords
  | violationRate
  deriving DecidableEq

/-- `evaluate_measurement_validity`: the reasons, none if the measurement is valid. -/
def evaluate_measurement_validity (instrumentation : Instrumentation) : List Invalidity :=
  (if instrumentation.mixed_schema_versions then [.mixedSchemaVersions] else []) ++
  (if instrumentation.mixed_candidate_shas then [.mixedCandidateShas] else []) ++
  (if instrumentation.records = 0 then [.noRecords]
    else if (py.round (1 / 20)).lt
        (py.round (instrumentation.record_violating / instrumentation.records)) then
      [.violationRate]
    else [])

/-! ### The rules of the verdict -/

/-- A zero-tolerance breach, with its count. -/
inductive Breach where
  | taintedWrite (count : Nat)
  | forbiddenWrite (count : Nat)
  | dsmlLeak (count : Nat)
  | api400 (count : Nat)

def zt_reasons (zt : ZeroTolerance) : List Breach :=
  (if 0 < zt.tainted_unauth_write_count then [.taintedWrite zt.tainted_unauth_write_count] else []) ++
  (if 0 < zt.forbidden_write_count then [.forbiddenWrite zt.forbidden_write_count] else []) ++
  (match zt.dsml_leak_count with
  | some n => if 0 < n then [.dsmlLeak n] else []
  | none => []) ++
  (match zt.api_400_count with
  | some n => if 0 < n then [.api400 n] else []
  | none => [])

/-- A limit that is exceeded. -/
inductive Pause where
  | p50
  | p95
  | degraded
  | forbiddenRead
  | noEvidenceNumbers
  | http5xx
  | specialistFailure
  | specialistNonDelivery

/-- The candidate's rate exceeds the control's by more than a percentage point. -/
def exceedsByPoint (fc legacy : Option Double) : Bool :=
  match fc, legacy with
  | some x, some y => (Double.real 1).lt ((x.sub py y).scale py 100)
  | _, _ => false

def sp_reasons (fc legacy : Arm) : List Pause :=
  (if fc.p50_ms.any (Double.lt (.real 6000)) then [.p50] else []) ++
  (if fc.p95_ms.any (Double.lt (.real 30000)) then [.p95] else []) ++
  (if (py.round (1 / 10)).lt fc.degraded_rate then [.degraded] else []) ++
  (if exceedsByPoint py fc.forbidden_read_rate legacy.forbidden_read_rate then [.forbiddenRead]
    else []) ++
  (if exceedsByPoint py fc.no_evidence_numbers_rate legacy.no_evidence_numbers_rate then
    [.noEvidenceNumbers] else []) ++
  (if exceedsByPoint py fc.http_5xx_rate legacy.http_5xx_rate then [.http5xx] else []) ++
  (if fc.specialist.failure_rate.any (py.round (1 / 20)).lt then [.specialistFailure] else []) ++
  (if fc.specialist.non_success_rate.any (py.round (1 / 20)).lt then [.specialistNonDelivery]
    else [])

/-- Why what was to be shown is not. -/
inductive Unproven where
  | invalid (reason : Invalidity)
  | dsmlLeakNotInstrumented
  | api400NotInstrumented
  | http5xxNotInstrumented
  | noSpecialistPlanned
  | noSpecialistStarted
  | noSpecialistDelivered
  | contract (violating : Nat)
  | expectedTurns
  | expectedRolloutTurns

/-- Specialists were required: some were planned, some started and some delivered. -/
def specialistReasons (s : SpecialistTotals) : List Unproven :=
  if s.planned = 0 then [.noSpecialistPlanned]
  else if s.started = 0 then [.noSpecialistStarted]
  else if s.completed + s.partials = 0 then [.noSpecialistDelivered]
  else []

def instr_reasons (fc legacy : Arm) (zt : ZeroTolerance) (instrumentation : Instrumentation)
    (expected_turns expected_rollout_turns : Option Expected) (require_specialists : Bool) :
    List Unproven :=
  (evaluate_measurement_validity py instrumentation).map .invalid ++
  (if zt.dsml_leak_count.isNone then [.dsmlLeakNotInstrumented] else []) ++
  (if zt.api_400_count.isNone then [.api400NotInstrumented] else []) ++
  (if fc.http_5xx_rate.isNone || legacy.http_5xx_rate.isNone then [.http5xxNotInstrumented]
    else []) ++
  (if require_specialists then specialistReasons fc.specialist else []) ++
  (if instrumentation.ok then [] else [.contract instrumentation.violating]) ++
  (if expected_turns.any (!·.matched) then [.expectedTurns] else []) ++
  (if expected_rollout_turns.any (!·.matched) then [.expectedRolloutTurns] else [])

inductive Decision where
  | instrumentationHold
  | canaryBlock
  | stagePause
  | hold
  | stageProgressOk
  | proceed
  deriving DecidableEq

/-- The exit code of a decision. -/
def Decision.exit_code : Decision → Nat
  | .instrumentationHold | .stagePause | .hold => 2
  | .canaryBlock => 3
  | .stageProgressOk | .proceed => 0

/-- `build_verdict`, with the reasons it gives. -/
structure Verdict where
  decision : Decision
  measurement : List Invalidity
  zero_tolerance : List Breach
  instrumentation : List Unproven
  stage_pause : List Pause
  stage_progress : Option Bool

/-- What the reasons come to, in their order of precedence. -/
def Decision.ofReasons (measurement : List Invalidity) (zt : List Breach) (instr : List Unproven)
    (sp : List Pause) (stage_eval : Option Bool) : Decision :=
  if !measurement.isEmpty then .instrumentationHold
  else if !zt.isEmpty then .canaryBlock
  else if !instr.isEmpty then .instrumentationHold
  else if !sp.isEmpty then .stagePause
  else match stage_eval with
    | some false => .hold
    | some true => .stageProgressOk
    | none => .proceed

/-- `build_verdict` -/
def build_verdict (fc legacy : Arm) (stage_eval : Option Bool) (instrumentation : Instrumentation)
    (global_zt : ZeroTolerance) (expected_turns expected_rollout_turns : Option Expected)
    (require_specialists : Bool) : Verdict :=
  let measurement := evaluate_measurement_validity py instrumentation
  let zt := zt_reasons global_zt
  let instr := instr_reasons py fc legacy global_zt instrumentation expected_turns
    expected_rollout_turns require_specialists
  let sp := sp_reasons py fc legacy
  { decision := .ofReasons measurement zt instr sp stage_eval
    measurement
    zero_tolerance := zt
    instrumentation := instr
    stage_pause := sp
    stage_progress := stage_eval }

/-! ### The report -/

/-- The arguments of a report. -/
structure Options where
  window_hours : Option Double := none
  now_override : Option Time := none
  stage : Option Stage := none
  since : Option Time := none
  expect_turns : Option Int := none
  candidate_arch : Text := "fc_loop"
  candidate_sha : Option Text := none
  control_arch : Text := "legacy"
  require_specialists : Bool := false
  rollout_id : Option Text := none
  rollout_stage : Option Text := none
  configured_weight : Option Int := none
  expect_rollout_turns : Option Int := none

/-- What was read of the log: its records in order, and how many lines did not parse. -/
structure Stream where
  records : List Record
  skipped : Nat

/-- Arguments that contradict each other are refused. -/
def Options.check (o : Options) : Except Raised Unit := do
  let arches := VALID_ARCHES.map Text.ofString
  Except.ensure (o.candidate_arch ∈ arches ∧ o.control_arch ∈ arches) .valueError
  Except.ensure (o.candidate_arch ≠ o.control_arch) .valueError
  Except.ensure (o.require_specialists → o.candidate_arch = Text.ofString "manager_v1") .valueError
  Except.ensure (o.rollout_id ≠ none → o.expect_rollout_turns ≠ none) .valueError
  Except.ensure (∀ w ∈ o.configured_weight, w ∈ VALID_CANARY_WEIGHTS) .valueError

/-- A record of the rollout that is named; every record where none is. -/
def Options.selects (o : Options) (r : Record) : Bool :=
  match o.rollout_id with
  | none => true
  | some rollout_id =>
    (r.get "traffic_source").reads "edge" && (r.get "rollout_id").eq (.str rollout_id)

/-- The records a report is about. -/
structure Population where
  now : Time
  windowed : List Record
  undated : List Record

/-- The records of the window, and those that could not be placed. -/
def population (clock : Time) (o : Options) (records : List Record) :
    Except Raised Population := do
  let stamps ← stamped py records
  let now := reference_now stamps o.now_override clock
  let cutoff ← window_bounds py o.window_hours o.since now
  let dated := stamps.filterMap fun p => p.2.map (p.1, ·)
  return {
    now
    windowed := (filter_window py dated cutoff).filter o.selects
    undated := ((stamps.filter (·.2.isNone)).map (·.1)).filter o.selects }

/-- What the records of a rollout are held for. -/
def rolloutHolds (o : Options) (windowed : List Record) : Except Raised (List (Text × Nat)) := do
  match o.rollout_id with
  | none => return []
  | some rollout_id =>
    let named := Text.ofString "rollout_id=" ++ py.repr (.str rollout_id)
    let stages ← distinct (windowed.map (·.get "rollout_stage"))
    let weights ← distinct (windowed.map (·.get "configured_candidate_percent"))
    let recordHolds := windowed.flatMap fun r =>
      (if (r.get "variant_id").isNull then
        [(Text.ofString "edge rollout record is missing variant_id", 1)] else []) ++
      (if o.rollout_stage.any fun stage => !(r.get "rollout_stage").eq (.str stage) then
        [(named ++ " mixes/unexpected rollout_stage", 1)] else []) ++
      (if o.configured_weight.any fun weight =>
          !(r.get "configured_candidate_percent").eq (.int weight) then
        [(named ++ " mixes/unexpected configured weight", 1)] else [])
    return (if windowed.isEmpty then [(named ++ " has zero dated edge telemetry records", 1)]
        else []) ++
      (if 1 < stages.length then
        [(named ++ " mixes rollout_stage values " ++ py.repr (.arr stages), 1)] else []) ++
      (if 1 < weights.length then
        [(named ++ " mixes configured weight values " ++ py.repr (.arr weights), 1)] else []) ++
      recordHolds

/-- What the window is held for beyond its records' contracts. -/
def windowHolds (o : Options) (windowed undated : List Record) (skipped : Nat)
    (candidate_zt_records candidate_records control_records : List Record) (fc : Arm) :
    List (Text × Nat) :=
  let unattributable := windowed.filter (record_endpoint py · ∉ KNOWN_ENDPOINTS)
  (if unattributable.isEmpty then [] else
    [(Text.ofString "endpoint missing/unknown (not one of ['alex', 'search_direct'])",
      unattributable.length)]) ++
  (if undated.isEmpty then [] else
    [(Text.ofString "ts missing or unparseable (record cannot be placed in a window, so windowing would silently drop it)",
      undated.length)]) ++
  (if skipped = 0 then [] else
    [(Text.ofString "unparseable log line (the lost record may have carried a violation)",
      skipped)]) ++
  (match o.candidate_sha with
  | some sha => if candidate_zt_records.isEmpty then
      [(Text.ofString "--candidate-sha " ++ py.repr (.str sha) ++ " selects zero " ++
        o.candidate_arch ++ " records in this window", 1)] else []
  | none => []) ++
  (if candidate_records.isEmpty then
    [(Text.ofString "candidate arm " ++ py.repr (.str o.candidate_arch) ++
      " has zero gate-endpoint turns", 1)] else []) ++
  (if control_records.isEmpty then
    [(Text.ofString "control arm " ++ py.repr (.str o.control_arch) ++
      " has zero gate-endpoint turns", 1)] else []) ++
  (if o.require_specialists ∧ fc.manager_v1_specialist_variants ≠ [true] then
    [(Text.ofString "manager_v1 specialist rollout requires a single enabled manager_v1_specialists=true variant", 1)]
    else [])

/-- The records of an arm on the endpoint that decides. -/
def gateRecords (windowed : List Record) (arch : Text) : List Record :=
  windowed.filter fun r => record_endpoint py r ∈ GATE_ENDPOINTS && record_arch py r = arch

/-- `build_report`, as far as its verdict goes. -/
def build_report (clock : Time) (o : Options) (stream : Stream) : Except Raised Verdict := do
  o.check
  let p ← population py clock o stream.records
  let instrumentation ← validate_records py p.windowed o.candidate_arch
  let rollout ← rolloutHolds py o p.windowed
  let candidate_zt_records := p.windowed.filter (isOfArm py o.candidate_arch o.candidate_sha)
  let global_zt ← aggregate_zero_tolerance py candidate_zt_records
  let candidate_records := gateRecords py p.windowed o.candidate_arch
  let control_records := gateRecords py p.windowed o.control_arch
  let fc ← aggregate_arch py candidate_records
  let legacy ← aggregate_arch py control_records
  let holds := rollout ++ windowHolds py o p.windowed p.undated stream.skipped
    candidate_zt_records candidate_records control_records fc
  let expected_turns ← o.expect_turns.mapM fun expected =>
    evaluate_expected_turns py p.windowed expected o.candidate_arch
  let expected_rollout ← o.expect_rollout_turns.mapM fun expected =>
    evaluate_expected_rollout_turns py p.windowed expected
  return build_verdict py fc legacy
    (o.stage.map fun stage => evaluate_stage py fc stage o.since p.now)
    (holds.foldl _hold_instrumentation instrumentation) global_zt expected_turns expected_rollout
    o.require_specialists

/-- The exit code of the report: what it raises leaves by 1. -/
def exit_code (clock : Time) (o : Options) (stream : Stream) : Nat :=
  match build_report py clock o stream with
  | .ok verdict => verdict.decision.exit_code
  | .error _ => 1

end RentCompass.Canary
