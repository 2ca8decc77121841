import RentCompass.Agent.Specialists

/-!
# The results of a specialist batch

What the manager may say of a batch that ran: one result for each task, whose evidence are
references to the artifacts in the manager's ledger. The ledger is trusted only where exactly one
entry has a call's artifact id and agrees with the call in every field the call is bound by.
-/

namespace RentCompass.Agent

variable {φ : Type} [FloatFormat φ]

/-! ### Contracts -/

/-- A letter, then at most 127 letters, digits and underscores. -/
def matchesToolName (t : Text) : Bool :=
  match t with
  | [] => false
  | c :: t => isLetter c && t.length ≤ 127 && t.all fun c => isAlphanumeric c || c = 95

def ToolName := {t : Text // matchesToolName t}
  deriving DecidableEq

def ToolName.make (t : Text) : Option ToolName :=
  if h : matchesToolName (trim t) then some ⟨trim t, h⟩ else none

def Summary := {t : Text // t.length ≤ 4000}
  deriving DecidableEq

def Summary.make (t : Text) : Option Summary :=
  if h : (trim t).length ≤ 4000 then some ⟨trim t, h⟩ else none

/-- `UNTRUSTED_SPECIALIST_TOOLS`. -/
def untrustedSpecialistTools : List Text :=
  ["web_search", "search_properties", "get_property_details", "search_nearby_pois"]

/-- A pointer to evidence that the ledger keeps. -/
structure EvidenceRef where
  evidenceId : Identifier
  taskId : Identifier
  toolName : ToolName
  artifactId : Identifier
  claim : ShortText
  tainted : Bool
  marked : toolName.1 ∈ untrustedSpecialistTools → tainted = true

def EvidenceRef.make (evidenceId taskId toolName artifactId claim : Text) (tainted : Bool) :
    Option EvidenceRef := do
  let evidenceId ← Identifier.make evidenceId
  let taskId ← Identifier.make taskId
  let toolName ← ToolName.make toolName
  let artifactId ← Identifier.make artifactId
  let claim ← ShortText.make claim
  if marked : toolName.1 ∈ untrustedSpecialistTools → tainted = true then
    some { evidenceId, taskId, toolName, artifactId, claim, tainted, marked }
  else none

inductive SpecialistStatus where
  | succeeded
  | partly
  | failed
  | skipped
  deriving DecidableEq

def SpecialistStatus.name : SpecialistStatus → Text
  | .succeeded => "succeeded"
  | .partly => "partial"
  | .failed => "failed"
  | .skipped => "skipped"

/-- What a status says of the summary, the evidence and the error. -/
def SpecialistStatus.fits (status : SpecialistStatus) (summary : Text)
    (evidence : List EvidenceRef) (error : Option ShortText) : Bool :=
  match status with
  | .succeeded => summary ≠ [] && !evidence.isEmpty && error.isNone
  | .partly => summary ≠ [] && !evidence.isEmpty && error.isSome
  | .failed | .skipped => error.isSome && evidence.isEmpty

def maxResultDataBytes : Nat := 32 * 1024

def maxResultsBytes : Nat := 128 * 1024

/-! ### Numbers -/

/-- What the interpreter makes of numbers and of texts. -/
structure Interpreter (φ : Type) [FloatFormat φ] where
  /-- `float(n)` -/
  float : ℤ → φ
  /-- `x <= y` -/
  le : φ → φ → Bool
  zero : φ
  zero_isFinite : FloatFormat.isFinite zero
  zero_le : le zero zero
  /-- `str.lower` -/
  lower : Text → Text
  /-- `str(v)`, of a value that is no text -/
  repr : JsonValue φ → Text

namespace Interpreter

variable (py : Interpreter φ)

/-- A finite time that is not negative. -/
def Duration := {x : φ // FloatFormat.isFinite x ∧ py.le py.zero x}

/-- A number as a float; the booleans are no numbers here. -/
def number? : JsonValue φ → Option φ
  | .int n => some (py.float n)
  | .float x => some x
  | _ => none

def duration? (v : JsonValue φ) : Option py.Duration :=
  (py.number? v).bind fun x =>
    if h : FloatFormat.isFinite x ∧ py.le py.zero x then some ⟨x, h⟩ else none

/-- `x == 0` -/
def isZero (x : φ) : Bool := py.le x py.zero && py.le py.zero x

def truthy : JsonValue φ → Bool
  | .null => false
  | .bool b => b
  | .int n => n ≠ 0
  | .float x => !py.isZero x
  | .str s => s ≠ []
  | .arr items => !items.isEmpty
  | .obj fields => !fields.isEmpty

/-- `v == 0`; the booleans are numbers. -/
def eqZero : JsonValue φ → Bool
  | .bool b => !b
  | .int n => n = 0
  | .float x => py.isZero x
  | _ => false

/-- `str(v or "").lower()` -/
def lowered (v : JsonValue φ) : Text :=
  if py.truthy v then
    match v with
    | .str s => py.lower s
    | v => py.lower (py.repr v)
  else py.lower []

end Interpreter

variable (py : Interpreter φ)

/-- A specialist's output for the manager. -/
structure SpecialistResult where
  taskId : Identifier
  parentTaskId : Identifier
  role : SpecialistRole
  status : SpecialistStatus
  summary : Summary
  data : Dict (JsonValue φ)
  evidence : List EvidenceRef
  error : Option ShortText
  durationMs : py.Duration
  evidenceDistinct : (evidence.map (·.evidenceId)).Nodup
  evidenceOfTask : ∀ e ∈ evidence, e.taskId = taskId
  fits : status.fits summary.1 evidence error
  dataSize : ((JsonValue.obj data).canonical maxResultDataBytes).isOk

def SpecialistResult.make (task : SpecialistTask φ) (status : SpecialistStatus) (summary : Text)
    (data : Dict (JsonValue φ)) (evidence : List EvidenceRef) (error : Option Text)
    (durationMs : py.Duration) : Option (SpecialistResult py) := do
  let summary ← Summary.make summary
  let error ← match error with
    | none => some none
    | some text => (ShortText.make text).map some
  if h : (evidence.map (·.evidenceId)).Nodup ∧ (∀ e ∈ evidence, e.taskId = task.taskId) ∧
      status.fits summary.1 evidence error ∧
      ((JsonValue.obj data).canonical maxResultDataBytes).isOk then
    some { taskId := task.taskId, parentTaskId := task.parentTaskId, role := task.role, status,
           summary, data, evidence, error, durationMs, evidenceDistinct := h.1,
           evidenceOfTask := h.2.1, fits := h.2.2.1, dataSize := h.2.2.2 }
  else none

def EvidenceRef.toJson (e : EvidenceRef) : JsonValue φ :=
  .obj [(Text.ofString "schema_version", .str "1"),
    (Text.ofString "evidence_id", .str e.evidenceId.1), (Text.ofString "task_id", .str e.taskId.1),
    (Text.ofString "tool_name", .str e.toolName.1),
    (Text.ofString "artifact_id", .str e.artifactId.1), (Text.ofString "selector", .null),
    (Text.ofString "claim", .str e.claim.1), (Text.ofString "source_uri", .null),
    (Text.ofString "tainted", .bool e.tainted)]

/-- `result.model_dump(mode="json")`. -/
def SpecialistResult.toJson (result : SpecialistResult py) : JsonValue φ :=
  .obj [(Text.ofString "schema_version", .str "1"),
    (Text.ofString "task_id", .str result.taskId.1),
    (Text.ofString "parent_task_id", .str result.parentTaskId.1),
    (Text.ofString "role", .str result.role.name),
    (Text.ofString "status", .str result.status.name),
    (Text.ofString "summary", .str result.summary.1), (Text.ofString "data", .obj result.data),
    (Text.ofString "evidence", .arr (result.evidence.map EvidenceRef.toJson)),
    (Text.ofString "error", (result.error.map fun e => .str e.1).getD .null),
    (Text.ofString "duration_ms", .float result.durationMs.1)]

/-! ### The ledger -/

/-- An entry of the ledger. -/
abbrev LedgerEntry (φ : Type) := Dict (JsonValue φ)

/-- `artifact.get(key)` -/
def LedgerEntry.get (artifact : LedgerEntry φ) (key : Text) : JsonValue φ :=
  (Dict.get? artifact key).getD .null

/-- `v == text` -/
def isText (v : JsonValue φ) (text : Text) : Bool :=
  match v with
  | .str s => s = text
  | _ => false

/-- The mappings among the artifacts. -/
def ledgerOf (artifacts : List (JsonValue φ)) : List (LedgerEntry φ) :=
  artifacts.filterMap fun
    | .obj fields => some fields
    | _ => none

/-- The entries under an id, in the order they were met. -/
def entriesOf (ledger : List (LedgerEntry φ)) (artifactId : Text) : List (LedgerEntry φ) :=
  ledger.filter fun artifact => isText (artifact.get "artifact_id") artifactId

/-- `_artifact_matches` -/
def artifactMatches (prepared : PreparedBatch φ) (call : PreparedCall)
    (artifact : LedgerEntry φ) : Bool :=
  isText (artifact.get "artifact_id") call.artifactId &&
    isText (artifact.get "plan_id") prepared.plan.planId.1 &&
    isText (artifact.get "task_id") call.taskId &&
    isText (artifact.get "agent_role") call.role.name &&
    isText (artifact.get "parent_task_id") prepared.plan.rootTaskId.1 &&
    isText (artifact.get "tool") call.toolName &&
    isText (artifact.get "params_digest") call.paramsDigest

/-- The artifacts of the calls up to the first call whose artifact is missing, duplicated or does
not match, and whether there is such a call. -/
def matchCalls (prepared : PreparedBatch φ) (ledger : List (LedgerEntry φ)) :
    List PreparedCall → List (LedgerEntry φ) × Bool
  | [] => ([], false)
  | call :: calls =>
    match entriesOf ledger call.artifactId with
    | [artifact] =>
      if artifactMatches prepared call artifact then
        ((artifact :: (matchCalls prepared ledger calls).1), (matchCalls prepared ledger calls).2)
      else ([], true)
    | _ => ([], true)

/-- `reliable` -/
def reliable (artifact : LedgerEntry φ) : Bool :=
  (match artifact.get "success" with
    | .bool b => b
    | _ => false) &&
  (match artifact.get "raw_data" with
    | .null => false
    | _ => true) &&
  !py.truthy (artifact.get "denied") && !py.truthy (artifact.get "timed_out") &&
  !py.truthy (artifact.get "abandoned") && !py.truthy (artifact.get "outcome_unknown")

/-- The call was refused, or timed out before it was started, for lack of budget. -/
def unstarted (artifact : LedgerEntry φ) : Bool :=
  (py.truthy (artifact.get "denied") ||
    (py.truthy (artifact.get "timed_out") && py.eqZero (artifact.get "elapsed_ms") &&
      !py.truthy (artifact.get "abandoned") && !py.truthy (artifact.get "outcome_unknown"))) &&
  (["budget exhausted", "time budget"] : List Text).any fun marker =>
    marker <:+: py.lowered (artifact.get "error")

/-- The call was let down by a timeout. -/
def stalled (artifact : LedgerEntry φ) : Bool :=
  py.truthy (artifact.get "timed_out") || py.truthy (artifact.get "abandoned") ||
    py.truthy (artifact.get "outcome_unknown")

/-- `_duration` -/
def durationOf (artifacts : List (LedgerEntry φ)) : py.Duration :=
  match artifacts.filterMap fun artifact => py.duration? (artifact.get "elapsed_ms") with
  | [] => ⟨py.zero, py.zero_isFinite, py.zero_le⟩
  | x :: xs => xs.foldl (fun longest x => if py.le x.1 longest.1 then longest else x) x

/-- `_measured_duration` -/
def measuredDuration (wallClockMs : JsonValue φ) (matched : List (LedgerEntry φ)) : py.Duration :=
  (py.duration? wallClockMs).getD (durationOf py matched)

/-! ### Results -/

inductive ResultsError where
  | contract
  | dispatch (error : DispatchError)
  | results (error : JsonValue.CanonicalError)
  deriving DecidableEq

/-- The reference to the artifact of a call. -/
def evidenceRef (hash : Hashing) (task : SpecialistTask φ) (call : PreparedCall) :
    Except ResultsError EvidenceRef := do
  let evidenceId ← (stableId hash "evidence" [(.str call.artifactId : JsonValue φ)]).mapError
    .dispatch
  Except.ofOption (EvidenceRef.make evidenceId task.taskId.1 call.toolName call.artifactId
    (call.toolName ++ Text.ofString " returned manager-visible evidence")
    (call.toolName ∈ untrustedSpecialistTools)) .contract

/-- The status, the summary and the error of a task. -/
structure Outcome where
  status : SpecialistStatus
  summary : Text
  error : Option Text

def returnedEvidence (succeeded total : Nat) : Text :=
  Text.ofNat succeeded ++ Text.ofString " of " ++ Text.ofNat total ++
    Text.ofString " specialist calls returned evidence"

def outcome (invalidLedger : Bool) (succeeded total : Nat) (matched : List (LedgerEntry φ)) :
    Outcome :=
  if invalidLedger then
    ⟨.failed, [], some "specialist artifact validation failed"⟩
  else if succeeded = total ∧ total ≠ 0 then
    ⟨.succeeded, returnedEvidence succeeded total, none⟩
  else if succeeded ≠ 0 then
    ⟨.partly, returnedEvidence succeeded total,
      some "one or more specialist calls were incomplete"⟩
  else if matched ≠ [] ∧ matched.all (unstarted py) then
    ⟨.skipped, [], some "specialist task was not started because the turn budget was exhausted"⟩
  else if matched.any (stalled py) then
    ⟨.failed, [], some "specialist task timed out before returning evidence"⟩
  else ⟨.failed, [], some "specialist task produced no reliable evidence"⟩

/-- The calls of a task. -/
def PreparedBatch.callsOf (prepared : PreparedBatch φ) (task : SpecialistTask φ) :
    List PreparedCall := prepared.calls.filter (·.taskId = task.taskId.1)

/-- The result of one task. -/
def taskResult (hash : Hashing) (prepared : PreparedBatch φ) (ledger : List (LedgerEntry φ))
    (measured : Dict (JsonValue φ)) (task : SpecialistTask φ) :
    Except ResultsError (SpecialistResult py) := do
  let taskCalls := prepared.callsOf task
  let matched := matchCalls prepared ledger taskCalls
  let evidence ← if matched.2 then .ok [] else
    ((taskCalls.zip matched.1).filter fun p => reliable py p.2).mapM fun p => evidenceRef hash task p.1
  let out := outcome py matched.2 evidence.length taskCalls.length matched.1
  Except.ofOption (SpecialistResult.make py task out.status out.summary
    [(Text.ofString "call_count", .int taskCalls.length),
      (Text.ofString "succeeded", .int evidence.length),
      (Text.ofString "artifact_ids", .arr (taskCalls.map fun call => .str call.artifactId))]
    evidence out.error
    (measuredDuration py ((Dict.get? measured task.taskId.1).getD .null) matched.1)) .contract

/-- `build_specialist_results` -/
def buildSpecialistResults (hash : Hashing) (prepared : PreparedBatch φ)
    (artifacts : List (JsonValue φ)) (measured : Dict (JsonValue φ)) :
    Except ResultsError (List (SpecialistResult py)) := do
  let results ← prepared.plan.tasks.mapM
    (taskResult py hash prepared (ledgerOf artifacts) measured)
  let _ ← ((JsonValue.arr (results.map (SpecialistResult.toJson py))).canonical
    maxResultsBytes).mapError .results
  .ok results

end RentCompass.Agent
