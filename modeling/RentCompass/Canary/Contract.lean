import RentCompass.Canary.Lifecycle

/-!
# The record contract

What a telemetry record must state. A record is judged by the rules of its own schema version, and
null states nothing: it is a violation as absence is.
-/

namespace RentCompass.Canary

variable (py : Python)

/-! ### The closed sets -/

def SUPPORTED_SCHEMA_VERSIONS : List Int := [2, 3]

def MIN_SCHEMA_VERSION : Int := 2

def GATE_ENDPOINTS : List Text := ["alex"]

def KNOWN_ENDPOINTS : List Text := ["alex", "search_direct"]

def REQUIRED_TOP_FIELDS : List String :=
  ["telemetry_schema_version", "ts", "endpoint", "agent_arch", "candidate_sha", "request_id",
    "conversation_id", "http_status", "turn_outcome", "turn_latency_ms", "soft_wrapped", "partial",
    "tool_budget_timeout", "dsml_blocked", "dsml_leak", "provider_schema_400_count", "security",
    "user_id_hash_status", "strict", "llm_usage_status"]

def REQUIRED_TOP_FIELDS_V3 : List String := ["llm_calls", "tool_batches"]

def REQUIRED_SECURITY_FIELDS : List String :=
  ["denied_write_count", "tainted_write_executed_count", "forbidden_write_executed_count"]

def UNOBSERVABLE_OUTCOMES : List String := ["crash", "server_error"]

def VALID_TOOL_LEDGER_STATUSES : List String := ["complete", "unavailable"]

def VALID_USAGE_STATUSES : List String := ["complete", "partial", "no_llm_calls", "not_instrumented"]

def USAGE_STATUS_HOLD : List String := ["partial", "not_instrumented"]

def USAGE_STATUS_UNOBSERVABLE_OK : List String := ["partial"]

def EVAL_ONLY_KNOWN : List String := ["forbidden_read", "no_evidence_numbers"]

def VALID_OUTCOMES : List String := ["ok", "agent_error", "crash", "server_error"]

def FC_RUNTIME_ARCHES : List String := ["fc_loop", "manager_v1"]

def VALID_ARCHES : List String := ["fc_loop", "manager_v1", "legacy"]

def VALID_HASH_STATUSES : List String := ["keyed", "no_user", "unkeyed_no_stable_secret"]

def VALID_CANARY_WEIGHTS : List Int := [0, 5, 20, 50, 100]

def VALID_TRAFFIC_SOURCES : List String := ["direct", "edge"]

def VALID_ASSIGNED_POOLS : List String := ["direct", "legacy", "candidate"]

/-- `repr` of a list of texts, as the messages show the closed sets. -/
def listed (names : List String) : Text := py.repr (.arr (names.map fun s => .str s))

/-! ### Schema and ledger -/

/-- The schema version, where it is a supported one. -/
def version? (r : Record) : Option Int :=
  (r.get "telemetry_schema_version").int?.filter (· ∈ SUPPORTED_SCHEMA_VERSIONS)

def schemaProblem (r : Record) : Text :=
  let ver := r.get "telemetry_schema_version"
  let supported := py.repr (.arr (SUPPORTED_SCHEMA_VERSIONS.map .int))
  if ver.int?.any (MIN_SCHEMA_VERSION < ·) then
    Text.ofString "telemetry_schema_version=" ++ py.repr ver ++
      " is newer than this consumer knows (supported: " ++ supported ++
      ") — update canary_report.py"
  else
    Text.ofString "telemetry_schema_version=" ++ py.repr ver ++ " not in supported " ++ supported

/-- `set(rec.get("eval_only") or ())` -/
def declared_eval_only (r : Record) : Except Raised (List Value) :=
  match (r.get "eval_only").or .null with
  | .null => .ok []
  | .str s => .ok (s.map fun c => .str [c])
  | .arr items => do
    items.forM Value.hash
    return items
  | .obj d => .ok ((Dict.keys d).map .str)
  | _ => .error .typeError

def crashed (r : Record) : Bool := (r.get "turn_outcome").oneOf UNOBSERVABLE_OUTCOMES

def ledgerProblems (r : Record) (ver : Int) : List Text :=
  let ledger_status := r.get "tool_ledger_status"
  if ledger_status.isNull then []
  else if !ledger_status.oneOf VALID_TOOL_LEDGER_STATUSES then
    [Text.ofString "tool_ledger_status=" ++ py.repr ledger_status ++ " not in " ++
      listed py VALID_TOOL_LEDGER_STATUSES]
  else if ledger_status.reads "unavailable" then
    (if crashed r then []
      else [Text.ofString "tool_ledger_status='unavailable' on turn_outcome=" ++
        py.repr (r.get "turn_outcome") ++ ": only " ++ listed py UNOBSERVABLE_OUTCOMES ++
        " may have no tool ledger"]) ++
    (if (r.get "tool_batches").isNull then []
      else [Text.ofString "tool_ledger_status='unavailable' but tool_batches carries a count: the marker and the value contradict each other"])
  else if 3 ≤ ver ∧ (r.get "tool_batches").isNull then
    [Text.ofString "tool_ledger_status='complete' but tool_batches is null"]
  else []

/-! ### Required fields -/

def requiredProblem (r : Record) (f : String) : List Text :=
  if !r.has f then [Text.ofString "missing required field " ++ py.repr (.str f)]
  else if (r.get f).isNull then
    [Text.ofString "required field " ++ py.repr (.str f) ++ " is null"]
  else []

def requiredProblems (r : Record) (ver : Int) : List Text :=
  (REQUIRED_TOP_FIELDS ++ if 3 ≤ ver ∧ !crashed r then REQUIRED_TOP_FIELDS_V3 else []).flatMap
    (requiredProblem py r)

def securityProblem (sec : Dict Value) (f : String) : List Text :=
  match sec.get? f with
  | none => [Text.ofString "missing required security." ++ f]
  | some .null => [Text.ofString "security." ++ f ++ " is null"]
  | some v => _check_count py (Text.ofString "security." ++ f) v

def securityProblems (r : Record) : List Text :=
  match (r.get "security").obj? with
  | some sec => REQUIRED_SECURITY_FIELDS.flatMap (securityProblem py sec)
  | none => if r.has "security" then [Text.ofString "security is not an object"] else []

/-! ### Types and ranges -/

/-- A counter that is there is checked. -/
def countProblems (r : Record) (fields : List String) : List Text :=
  fields.flatMap fun f : String =>
    if (r.get f).isNull then [] else _check_count py f (r.get f)

def latencyProblems (r : Record) : List Text :=
  let lat := r.get "turn_latency_ms"
  let problem := [Text.ofString "turn_latency_ms=" ++ py.repr lat ++
    " is not a non-negative number"]
  match lat with
  | .null => []
  | .int n => if n < 0 then problem else []
  | .float x => if x.lt (.real 0) then problem else []
  | _ => problem

def httpStatusProblems (r : Record) : List Text :=
  let st := r.get "http_status"
  if st.isNull ∨ st.int?.any (fun n => 100 ≤ n ∧ n ≤ 599) then []
  else [Text.ofString "http_status=" ++ py.repr st ++ " is not a valid HTTP status"]

def strictProblems (r : Record) : List Text :=
  if r.has "strict" ∧ !(r.get "strict").isBool then
    [Text.ofString "strict=" ++ py.repr (r.get "strict") ++ " is not a boolean"]
  else []

def rangeProblems (r : Record) : List Text :=
  countProblems py r ["dsml_blocked", "dsml_leak", "provider_schema_400_count"] ++
  latencyProblems py r ++ httpStatusProblems py r ++ strictProblems py r ++
  countProblems py r ["llm_calls", "tool_batches"]

/-! ### Enumerations -/

/-- A value that is there is one of a closed set. -/
def enumProblems (r : Record) (f : String) (valid : List String) : List Text :=
  if (r.get f).isNull ∨ (r.get f).oneOf valid then []
  else [Text.ofString f ++ "=" ++ py.repr (r.get f) ++ " not in " ++ listed py valid]

def endpointProblems (r : Record) : List Text :=
  if (r.get "endpoint").isNull ∨ record_endpoint py r ∈ KNOWN_ENDPOINTS then []
  else [Text.ofString "endpoint=" ++ py.repr (r.get "endpoint") ++ " not in " ++
    listed py ["alex", "search_direct"]]

/-! ### Usage -/

def observerProblems (r : Record) : List Text :=
  let observer_installed := r.get "llm_observer_installed"
  if observer_installed.isNull then []
  else if !observer_installed.isBool then
    [Text.ofString "llm_observer_installed=" ++ py.repr observer_installed ++ " is not a boolean"]
  else if observer_installed.isFalse then
    [Text.ofString "llm_observer_installed=false: the LLM callback observer was not attached, so this record's call counts and token totals omit every ModelRouter call the turn made"]
  else []

/-- The turn could not be measured, though something was watching. -/
def unmeasurable_by_outcome (r : Record) : Bool :=
  crashed r && (r.get "llm_observer_installed").isTrue &&
    (r.get "llm_usage_status").oneOf USAGE_STATUS_UNOBSERVABLE_OK

def usageStatusProblems (r : Record) : List Text :=
  let us := r.get "llm_usage_status"
  if !us.isNull ∧ !us.oneOf VALID_USAGE_STATUSES then
    [Text.ofString "llm_usage_status=" ++ py.repr us ++ " not in " ++ listed py VALID_USAGE_STATUSES]
  else if us.oneOf USAGE_STATUS_HOLD ∧ !unmeasurable_by_outcome r then
    [Text.ofString "llm_usage_status=" ++ py.repr us ++ ": this turn's token spend is an undercount of unknown size, so the cost side of the A/B cannot be evaluated"]
  else []

/-- What a complete usage must say. -/
def completeUsageProblems (usage : Dict Value) (llm_calls : Value) : List Text :=
  (["calls", "input_tokens", "output_tokens", "cache_read_tokens"].flatMap fun f : String =>
    _check_count py (Text.ofString "llm_usage." ++ f) (field usage f)) ++
  (if (field usage "models").obj?.isSome then []
    else [Text.ofString "llm_usage.models is not an object"]) ++
  (match (field usage "calls").int?, llm_calls.int? with
  | some calls, some n =>
    if calls ≠ n then
      [Text.ofString "llm_usage.calls=" ++ shown py calls ++ " does not match llm_calls=" ++
        shown py n]
    else []
  | _, _ => [])

def usageProblems (r : Record) (ver : Int) : List Text :=
  let us := r.get "llm_usage_status"
  let usage := r.get "llm_usage"
  let llm_calls := r.get "llm_calls"
  if ver < 3 then []
  else if us.reads "complete" then
    (match usage.obj? with
    | some usage => completeUsageProblems py usage llm_calls
    | none => [Text.ofString "llm_usage_status='complete' but llm_usage is not an object"]) ++
    (if llm_calls.int?.any (1 ≤ ·) then []
      else [Text.ofString "llm_usage_status='complete' requires llm_calls >= 1"])
  else if us.reads "no_llm_calls" then
    (if llm_calls.eq (.int 0) ∧ !llm_calls.isBool then []
      else [Text.ofString "llm_usage_status='no_llm_calls' requires llm_calls=0"]) ++
    (if usage.isNull then []
      else [Text.ofString "llm_usage_status='no_llm_calls' requires llm_usage=null"])
  else []

/-! ### Identity -/

def hashProblems (r : Record) : List Text :=
  enumProblems py r "user_id_hash_status" VALID_HASH_STATUSES ++
  (if (r.get "user_id_hash_status").reads "keyed" ∧ !(r.get "user_id_hash").truthy then
    [Text.ofString "user_id_hash_status=keyed but user_id_hash is absent/empty"] else [])

/-- The lifecycle block of a record, and what is wrong with there being two. -/
def specialist_block (r : Record) : Option Value × List Text :=
  if r.has "specialist" ∧ r.has "multi_agent" then
    (some (r.get "specialist"), [Text.ofString "record carries both 'specialist' and legacy 'multi_agent' lifecycle blocks; exactly one is allowed"])
  else if r.has "specialist" then (some (r.get "specialist"), [])
  else if r.has "multi_agent" then (some (r.get "multi_agent"), [])
  else (none, [])

/-- What a `manager_v1` record says of its specialists. -/
def managerProblems (r : Record) : Except Raised (List Text) := do
  let specialists := r.get "manager_v1_specialists"
  let lifecycle ← match (specialist_block r).1 with
    | some block => do
      let problems ← _validate_specialist py block (crashed r)
      pure (problems ++ if specialists.isFalse then
        [Text.ofString "specialist lifecycle present while manager_v1_specialists is false"] else [])
    | none => pure []
  return (if specialists.isBool then []
      else [Text.ofString "manager_v1_specialists is missing/null or not a boolean"]) ++
    (specialist_block r).2 ++ lifecycle

def archProblems (r : Record) : Except Raised (List Text) := do
  let arch := r.get "agent_arch"
  let manager ← if arch.reads "manager_v1" then managerProblems py r else pure []
  return (if arch.oneOf FC_RUNTIME_ARCHES ∧ !(r.get "strict")._truthy py then
      [Text.ofString "agent_arch=" ++ arch.text py ++
        " but strict is not true (not the candidate config)"] else []) ++ manager

/-- The variant of the configuration the record states. -/
def expected_variant (r : Record) : Text :=
  (r.get "agent_arch").text py ++ ":strict-" ++ (if (r.get "strict").isTrue then "1" else "0") ++
    ":specialists-" ++ (if (r.get "manager_v1_specialists").isTrue then "1" else "0")

def variantProblems (r : Record) : List Text :=
  let variant := r.get "variant_id"
  if variant.isNull ∨ variant.eq (.str (expected_variant py r)) then []
  else [Text.ofString "variant_id=" ++ py.repr variant ++ " does not match effective config " ++
    py.repr (.str (expected_variant py r))]

def isRolloutName (more : Nat) : Text → Bool :=
  let c := fun c => isAlnum c || c ∈ [46, 95, 58, 45]
  nameLike c c more

def edgeProblems (r : Record) : List Text :=
  let arch := r.get "agent_arch"
  let assigned := r.get "assigned_pool"
  let weight := r.get "configured_candidate_percent"
  let expected_pool := if arch.reads "legacy" then "legacy" else "candidate"
  (if (r.get "rollout_id").fits (isRolloutName 95) then []
    else [Text.ofString "edge record has missing/invalid rollout_id"]) ++
  (if (r.get "rollout_stage").fits (isRolloutName 31) then []
    else [Text.ofString "edge record has missing/invalid rollout_stage"]) ++
  (if weight.isBool ∨ !weight.isIn (VALID_CANARY_WEIGHTS.map .int) then
    [Text.ofString "edge record has missing/invalid configured_candidate_percent"] else []) ++
  (if assigned.reads expected_pool then []
    else [Text.ofString "edge record assigned_pool=" ++ py.repr assigned ++ ", expected " ++
      py.repr (.str expected_pool) ++ " for agent_arch=" ++ py.repr arch])

def rolloutProblems (r : Record) : List Text :=
  variantProblems py r ++
  enumProblems py r "traffic_source" VALID_TRAFFIC_SOURCES ++
  enumProblems py r "assigned_pool" VALID_ASSIGNED_POOLS ++
  (if (r.get "traffic_source").reads "edge" then edgeProblems py r else [])

/-! ### Metrics of evaluations, and the answer contract -/

def evalOnlyProblems (r : Record) (declared : List Value) : List Text :=
  EVAL_ONLY_KNOWN.flatMap fun f : String =>
    if (r.get f).isNull then []
    else if Value.isIn (.str (Text.ofString f)) declared then
      [py.repr (.str f) ++ " is declared eval_only but carries a non-null value"]
    else [py.repr (.str f) ++ " carries a prod value but is not declared eval_only"]

def limitationProblems (block : Dict Value) : List Text :=
  match (field block "limitations").arr? with
  | none => [Text.ofString "answer_contract.limitations is missing/null or not a list"]
  | some limitations =>
    (if 8 < limitations.length then
      [Text.ofString "answer_contract.limitations has " ++ shown py limitations.length ++
        " entries > 8"] else []) ++
    (if limitations.any (!·.fits fun _ => true) then
      [Text.ofString "answer_contract.limitations contains a non-string entry"]
    else if limitations.any (·.fits fun s => 200 < s.length) then
      [Text.ofString "answer_contract.limitations contains an entry longer than 200 characters"]
    else [])

/-- `_validate_answer_contract` -/
def _validate_answer_contract (r : Record) : List Text :=
  if !r.has "answer_contract" then []
  else match (r.get "answer_contract").obj? with
    | none => [Text.ofString "answer_contract is present but is not an object"]
    | some block =>
      (["valid", "final_response_truncated"].flatMap fun f : String =>
        if (field block f).isBool then []
        else [Text.ofString "answer_contract." ++ f ++ " is missing/null or not a boolean"]) ++
      limitationProblems py block

def unkeyedProblems (r : Record) : List Text :=
  if (r.get "user_id_hash_status").reads "unkeyed_no_stable_secret" then
    [Text.ofString "user_id_hash_status=unkeyed_no_stable_secret (no CANARY_USER_HASH_KEY / FLASK_SECRET_KEY): user hashes are not stable across restarts"]
  else []

/-! ### Records -/

/-- What the rules of a supported version find. -/
def fieldProblems (r : Record) (ver : Int) : Except Raised (List Text) := do
  let declared ← declared_eval_only r
  let arch ← archProblems py r
  return ledgerProblems py r ver ++ requiredProblems py r ver ++ securityProblems py r ++
    rangeProblems py r ++ endpointProblems py r ++
    enumProblems py r "turn_outcome" VALID_OUTCOMES ++
    enumProblems py r "agent_arch" VALID_ARCHES ++
    observerProblems py r ++ usageStatusProblems py r ++ usageProblems py r ver ++
    hashProblems py r ++ arch ++ rolloutProblems py r ++ evalOnlyProblems py r declared ++
    _validate_answer_contract py r ++ unkeyedProblems r

/-- `validate_record`: the contract violations of a record, none if it conforms. -/
def validate_record (r : Record) : Except Raised (List Text) :=
  match version? r with
  | none => .ok [schemaProblem py r]
  | some ver => fieldProblems py r ver

end RentCompass.Canary
