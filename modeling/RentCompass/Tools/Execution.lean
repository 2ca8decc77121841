import RentCompass.Json.Dumps
import RentCompass.Runs
import RentCompass.Tools.Ledger

/-!
# Executions of write tools

`Tool._execute_with_callable` for a tool with `side_effect="write"`, one statement at a time: the
record of the key is looked up, the key claimed, the callable run, its result recorded. Executions
of several processes share one ledger and interleave at every statement.
-/

namespace RentCompass.Tools

variable {φ : Type} [FloatFormat φ]

/-- A write tool. The models and the replay hooks are functions that may raise. -/
structure Tool (φ : Type) where
  name : Text
  version : Text
  retrySafe : Bool
  maxRetries : Int
  retryOnError : Bool
  callable : Bool
  inputModel : Dict (JsonValue φ) → Option (Dict (JsonValue φ))
  required : List Text
  outputModel : Option (JsonValue φ → Option (JsonValue φ))
  replayProjection : Option (JsonValue φ → Option (JsonValue φ))
  replayRehydrate : Option (JsonValue φ → Dict (JsonValue φ) → Option (JsonValue φ))
  /-- `str` of a value. -/
  str : JsonValue φ → Text

inductive Outcome where
  | conflict
  | replayed
  | failed
  | complete
  | running
  | unknown
  deriving DecidableEq

structure ToolResult (φ : Type) where
  success : Bool
  data : JsonValue φ
  error : JsonValue φ
  toolName : Text
  version : Text
  idempotencyKey : Option Text
  outcome : Option Outcome

/-- How a call of the callable ended. -/
inductive CallEnd where
  | success
  | unsuccessful
  | raised
  deriving DecidableEq

/-- The next statement of an execution, with what it holds. -/
inductive Stage (φ : Type) where
  | begin
  | lookUp (kwargs : Dict (JsonValue φ))
  | claim (kwargs : Dict (JsonValue φ))
  | readBack
  | attempt (kwargs : Dict (JsonValue φ)) (n : Nat)
  | calling (kwargs : Dict (JsonValue φ)) (n : Nat)
  | finish (kwargs : Dict (JsonValue φ)) (n : Nat) (result : JsonValue φ)
  | record (kwargs : Dict (JsonValue φ)) (n : Nat) (success : Bool) (result persisted : JsonValue φ)
  | handle (kwargs : Dict (JsonValue φ)) (n : Nat)
  | wait (kwargs : Dict (JsonValue φ)) (n : Nat) (handling : Bool)
  | cancelled
  | returned (r : ToolResult φ)
  | raised

structure Execution (φ : Type) where
  tool : Tool φ
  key : Text
  params : Dict (JsonValue φ)
  claimed : Bool
  calls : List CallEnd
  stage : Stage φ

/-- An execution that was just called. -/
def Execution.called (tool : Tool φ) (key : Text) (params : Dict (JsonValue φ)) : Execution φ where
  tool := tool
  key := key
  params := params
  claimed := false
  calls := []
  stage := .begin

/-- What is not decided by the code: how a call ends, and whether recording it raises; `complete`
may raise before or after its commit. -/
inductive Choice (φ : Type) where
  | proceed
  | returns (result : JsonValue φ)
  | raises
  | cancels
  | fault
  | faultAfterCommit

/-! ### Values -/

def field (name : String) (fields : Dict (JsonValue φ)) : Option (JsonValue φ) :=
  fields.get? (Text.ofString name)

/-- `bool(value)`. -/
def truthy : JsonValue φ → Bool
  | .null => false
  | .bool b => b
  | .int n => n ≠ 0
  | .float x => FloatFormat.text x ∉ [Text.ofString "0.0", Text.ofString "-0.0"]
  | .str s => s ≠ []
  | .arr items => !items.isEmpty
  | .obj fields => !fields.isEmpty

/-- The value is exactly `False`. -/
def isFalse : JsonValue φ → Bool
  | .bool b => !b
  | _ => false

/-- `not isinstance(result, dict) or result.get("success", True) is not False`. -/
def logicalSuccess : JsonValue φ → Bool
  | .obj fields => !(field "success" fields).any isFalse
  | _ => true

/-- `result.get("retryable", True)`. -/
def retryable : JsonValue φ → Bool
  | .obj fields => ((field "retryable" fields).map truthy).getD true
  | _ => true

/-- `error or default`. -/
def errorOr (error : Option Text) (default : Text) : Text :=
  (error.filter (· ≠ [])).getD default

def InvocationStatus.text : InvocationStatus → Text
  | .running => Text.ofString "running"
  | .complete => Text.ofString "complete"
  | .failed => Text.ofString "failed"
  | .unknown => Text.ofString "unknown"

/-- The outcome a status is reported as. -/
def InvocationStatus.outcome : InvocationStatus → Outcome
  | .running => .running
  | .complete => .complete
  | .failed => .failed
  | .unknown => .unknown

/-- The result of a row, as `get_record` parses it. -/
def Invocation.parsed (r : Invocation) : JsonValue φ :=
  (r.result.bind JsonValue.loads).getD .null

/-- A recorded result as it is replayed. -/
def Tool.replay (tool : Tool φ) (kwargs : Dict (JsonValue φ)) (r : Invocation) :
    Option (JsonValue φ) :=
  match tool.replayRehydrate with
  | some rehydrate =>
    if r.status = .complete ∨ r.status = .failed then rehydrate r.parsed kwargs
    else some r.parsed
  | none => some r.parsed

/-! ### Results -/

namespace Execution

variable (e : Execution φ)

def failure (data : JsonValue φ) (error : Text) (outcome : Option Outcome) : ToolResult φ where
  success := false
  data := data
  error := .str error
  toolName := e.tool.name
  version := e.tool.version
  idempotencyKey := some e.key
  outcome := outcome

def invalidParameters : ToolResult φ :=
  { e.failure .null (Text.ofString "ValidationError: invalid parameters") none with
    idempotencyKey := if e.key = [] then none else some e.key }

def keyRequired : ToolResult φ :=
  { e.failure .null (Text.ofString "idempotency_key is required for write tools") none with
    idempotencyKey := none }

/-- The answer to a key that has a record. -/
def answer (kwargs : Dict (JsonValue φ)) (previous : Invocation) : Option (ToolResult φ) :=
  if previous.tool ≠ e.tool.name then
    some (e.failure .null
      (Text.ofString "idempotency key is already bound to a different tool") (some .conflict))
  else
    (e.tool.replay kwargs previous).map fun replayed =>
      match previous.status with
      | .complete =>
        { success := logicalSuccess replayed
          data := replayed
          error := .null
          toolName := e.tool.name
          version := e.tool.version
          idempotencyKey := some e.key
          outcome := some .replayed }
      | .failed =>
        e.failure replayed
          (errorOr previous.error (Text.ofString "logical invocation previously failed"))
          (some .failed)
      | status =>
        e.failure .null
          (errorOr previous.error (Text.ofString "logical invocation is " ++ status.text ++
            Text.ofString "; write outcome is unknown")) (some status.outcome)

/-- The answer where the claim was lost. -/
def lost (current : Option Invocation) : ToolResult φ :=
  let status := (current.map (·.status)).getD .running
  e.failure .null
    (errorOr (current.bind (·.error)) (Text.ofString "logical invocation is " ++ status.text ++
      Text.ofString "; write was not retried")) (some status.outcome)

/-- The answer of a handled exception. -/
def executionFailed : ToolResult φ :=
  e.failure .null (Text.ofString "Tool execution failed") (some .failed)

/-- The answer to the writer itself. -/
def finished (success : Bool) (result : JsonValue φ) : ToolResult φ where
  success := success
  data := result
  error :=
    match success, result with
    | false, .obj fields => (field "error" fields).getD .null
    | _, _ => .null
  toolName := e.tool.name
  version := e.tool.version
  idempotencyKey := some e.key
  outcome := some (if success then .complete else .failed)

/-- The error a failed write is recorded with. -/
def recordedError : JsonValue φ → Text
  | .obj fields =>
    match field "error" fields with
    | some error => e.tool.str error
    | none => Text.ofString "write returned an unsuccessful result"
  | _ => Text.ofString "write returned an unsuccessful result"

/-! ### Statements -/

def goTo (stage : Stage φ) : Execution φ := { e with stage := stage }

/-- `attempts` -/
def attempts : Nat := if e.tool.retrySafe then max 1 e.tool.maxRetries.toNat else 1

/-- There is an attempt left, and the tool asks for it. -/
def mayRetry (n : Nat) : Bool :=
  decide (n + 1 < e.attempts) && e.tool.retryOnError && e.tool.retrySafe

/-- The output model and the projection of a result. -/
def prepare (result : JsonValue φ) : Option (JsonValue φ × JsonValue φ) := do
  let result ← match e.tool.outputModel with
    | some validate => if logicalSuccess result then validate result else some result
    | none => some result
  let persisted ← match e.tool.replayProjection with
    | some project => project result
    | none => some result
  some (result, persisted)

/-- The payload of a failed write: none for `None`. -/
def payload : JsonValue φ → Option Text
  | .null => none
  | persisted => some (persisted.dumps .default)

/-- The transaction that records a result. -/
def recording (l : Ledger) (now : Instant) (success : Bool) (result persisted : JsonValue φ) :
    Ledger :=
  if success then l.complete e.key (persisted.dumps .default) now
  else l.fail e.key (e.recordedError result) (payload persisted) now

def handledError : Text := Text.ofString "Tool execution failed"

def cancelledError : Text :=
  Text.ofString "caller stopped waiting while the write was in flight; outcome is unknown"

/-- One statement of an execution. -/
def step (l : Ledger) (now : Instant) (choice : Choice φ) : Execution φ × Ledger :=
  match e.stage with
  | .begin =>
    match e.tool.inputModel e.params with
    | none => (e.goTo (.returned e.invalidParameters), l)
    | some kwargs =>
      if e.key = [] then (e.goTo (.returned e.keyRequired), l) else (e.goTo (.lookUp kwargs), l)
  | .lookUp kwargs =>
    match (l.getRecord e.key now).1 with
    | none => (e.goTo (.claim kwargs), (l.getRecord e.key now).2)
    | some previous =>
      match e.answer kwargs previous with
      | some r => (e.goTo (.returned r), (l.getRecord e.key now).2)
      | none => (e.goTo .raised, (l.getRecord e.key now).2)
  | .claim kwargs =>
    if (l.claim e.key e.tool.name now).1 then
      ({ e with claimed := true, stage := .attempt kwargs 0 }, (l.claim e.key e.tool.name now).2)
    else (e.goTo .readBack, (l.claim e.key e.tool.name now).2)
  | .readBack =>
    (e.goTo (.returned (e.lost (l.getRecord e.key now).1)), (l.getRecord e.key now).2)
  | .attempt kwargs n =>
    if e.tool.callable ∧ ∀ name ∈ e.tool.required, (kwargs.get? name).isSome then
      (e.goTo (.calling kwargs n), l)
    else (e.goTo (.handle kwargs n), l)
  | .calling kwargs n =>
    match choice with
    | .returns result =>
      ({ e with
          calls := (if logicalSuccess result then .success else .unsuccessful) :: e.calls
          stage := .finish kwargs n result }, l)
    | .raises => ({ e with calls := .raised :: e.calls, stage := .handle kwargs n }, l)
    | .cancels => (e.goTo .cancelled, l)
    | _ => (e, l)
  | .finish kwargs n result =>
    if ¬ logicalSuccess result ∧ e.mayRetry n ∧ retryable result then
      (e.goTo (.wait kwargs n false), l)
    else
      match e.prepare result with
      | some (result', persisted) =>
        (e.goTo (.record kwargs n (logicalSuccess result) result' persisted), l)
      | none => (e.goTo (.handle kwargs n), l)
  | .record kwargs n success result persisted =>
    match choice with
    | .fault => (e.goTo (.handle kwargs n), l)
    | .faultAfterCommit =>
      (e.goTo (.handle kwargs n),
        if success then e.recording l now success result persisted else l)
    | _ =>
      (e.goTo (.returned (e.finished success result)), e.recording l now success result persisted)
  | .handle kwargs n =>
    if e.mayRetry n then (e.goTo (.wait kwargs n true), l)
    else
      match choice with
      | .fault => (e.goTo .raised, l)
      | .faultAfterCommit => (e.goTo .raised, l)
      | _ => (e.goTo (.returned e.executionFailed), l.fail e.key handledError none now)
  | .wait kwargs n handling =>
    match choice with
    | .cancels => (e.goTo (if handling then .raised else .cancelled), l)
    | _ => (e.goTo (.attempt kwargs (n + 1)), l)
  | .cancelled =>
    match choice with
    | .fault => (e.goTo .raised, l)
    | _ => (e.goTo .raised, l.markUnknown e.key cancelledError none now)
  | .returned _ => (e, l)
  | .raised => (e, l)

end Execution

/-! ### The system -/

/-- The ledger, the executions under way or ended, and the keys callables were started under. -/
structure Processes (φ : Type) where
  ledger : Ledger
  executions : List (Execution φ)
  started : List Text

def Processes.empty : Processes φ where
  ledger := []
  executions := []
  started := []

inductive Action (φ : Type) where
  | execute (tool : Tool φ) (key : Text) (params : Dict (JsonValue φ))
  | step (i : Nat) (now : Instant) (choice : Choice φ)
  | release (key : Text) (now : Instant)
  | markUnknown (key error : Text) (tool : Option Text) (now : Instant)

/-- The keys a statement starts a callable under. -/
def Execution.starts (e e' : Execution φ) : List Text :=
  match e.stage, e'.stage with
  | .attempt _ _, .calling _ _ => [e.key]
  | _, _ => []

/-- One step of the system. A process that dies takes no more steps. -/
def Processes.act (s : Processes φ) : Action φ → Processes φ
  | .execute tool key params =>
    { s with executions := s.executions ++ [.called tool key params] }
  | .step i now choice =>
    match s.executions[i]? with
    | none => s
    | some e =>
      { ledger := (e.step s.ledger now choice).2
        executions := s.executions.set i (e.step s.ledger now choice).1
        started := s.started ++ e.starts (e.step s.ledger now choice).1 }
  | .release key now => { s with ledger := s.ledger.release key now }
  | .markUnknown key error tool now => { s with ledger := s.ledger.markUnknown key error tool now }

lemma Processes.act_step_of_none {s : Processes φ} {i : Nat} (h : s.executions[i]? = none)
    (now : Instant) (choice : Choice φ) : s.act (.step i now choice) = s := by
  simp [Processes.act, h]

lemma Processes.act_step {s : Processes φ} {i : Nat} {e : Execution φ}
    (h : s.executions[i]? = some e) (now : Instant) (choice : Choice φ) :
    s.act (.step i now choice) =
      { ledger := (e.step s.ledger now choice).2
        executions := s.executions.set i (e.step s.ledger now choice).1
        started := s.started ++ e.starts (e.step s.ledger now choice).1 } := by
  simp [Processes.act, h]

end RentCompass.Tools
