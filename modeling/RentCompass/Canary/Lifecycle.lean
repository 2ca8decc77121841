import RentCompass.Canary.Values

/-!
# The specialist lifecycle of a record

The projection of a turn's specialist tasks, and what makes it a contract violation. The counters
are authoritative; where the event ring did not truncate, the events are replayed against them.
-/

namespace RentCompass.Canary

variable (py : Python)

/-! ### Names -/

def isDigit (c : Nat) : Bool := 48 ≤ c && c ≤ 57
def isLower (c : Nat) : Bool := 97 ≤ c && c ≤ 122
def isUpper (c : Nat) : Bool := 65 ≤ c && c ≤ 90
def isAlnum (c : Nat) : Bool := isDigit c || isLower c || isUpper c

/-- A first character, and up to so many more. -/
def nameLike (first rest : Nat → Bool) (more : Nat) : Text → Bool
  | [] => false
  | c :: t => first c && t.all rest && t.length ≤ more

/-- `_MACHINE_ID_RE` -/
def isMachineId : Text → Bool :=
  nameLike isAlnum (fun c => isAlnum c || c ∈ [46, 95, 58, 47, 45]) 127

/-- `_ERROR_CODE_RE` -/
def isErrorCode : Text → Bool := nameLike isLower (fun c => isLower c || isDigit c || c = 95) 63

/-- `_TOOL_NAME_RE` -/
def isToolName : Text → Bool :=
  nameLike (fun c => isLower c || isUpper c) (fun c => isAlnum c || c = 95) 127

/-- `isinstance(v, str) and RE.fullmatch(v)` -/
def Value.fits (v : Value) (re : Text → Bool) : Bool :=
  match v with
  | .str s => re s
  | _ => false

/-! ### Counters -/

/-- `_check_count` -/
def _check_count (name : Text) (v : Value) : List Text :=
  match v with
  | .bool _ => [name ++ "=" ++ py.repr v ++ " is a bool, expected a non-negative int"]
  | .int n =>
    if n < 0 then
      [name ++ "=" ++ py.repr v ++ " is negative (would cancel a real violation when summed)"]
    else []
  | _ => [name ++ "=" ++ py.repr v ++ " is not an int"]

def _SPECIALIST_COUNTER_FIELDS : List String :=
  ["planned", "started", "completed", "failed", "skipped", "max_in_flight"]

def _SPECIALIST_OPTIONAL_COUNTER_FIELDS : List String :=
  ["partial", "denied_calls", "dropped_error_codes"]

/-- The value of a counter: one that is optional counts nothing when it is absent. -/
def counter (value : Dict Value) (field : String) : Value :=
  (value.get? field).getD (if field ∈ _SPECIALIST_OPTIONAL_COUNTER_FIELDS then .int 0 else .null)

def counterProblems (value : Dict Value) : List Text :=
  (_SPECIALIST_COUNTER_FIELDS ++ _SPECIALIST_OPTIONAL_COUNTER_FIELDS).flatMap fun field : String =>
    _check_count py (Text.ofString "specialist." ++ field) (counter value field)

/-- The counters of a lifecycle. -/
structure Counts where
  planned : Int
  started : Int
  completed : Int
  partials : Int
  failed : Int
  skipped : Int
  max_in_flight : Int
  denied_calls : Int
  deriving DecidableEq

/-- A counter that passes its check. -/
def count? (value : Dict Value) (field : String) : Option Int :=
  match counter value field with
  | .int n => if n < 0 then none else some n
  | _ => none

/-- `counts`, once all of them are there. -/
def counts? (value : Dict Value) : Option Counts := do
  let planned ← count? value "planned"
  let started ← count? value "started"
  let completed ← count? value "completed"
  let partials ← count? value "partial"
  let failed ← count? value "failed"
  let skipped ← count? value "skipped"
  let max_in_flight ← count? value "max_in_flight"
  let denied_calls ← count? value "denied_calls"
  let _ ← count? value "dropped_error_codes"
  return { planned, started, completed, partials, failed, skipped, max_in_flight, denied_calls }

namespace Counts

variable (c : Counts)

def started_terminal : Int := c.completed + c.partials + c.failed

def accounted : Int := c.started_terminal + c.skipped

/-- The count of a status. -/
def ofStatus (status : String) : Int :=
  match status with
  | "planned" => c.planned
  | "started" => c.started
  | "completed" => c.completed
  | "partial" => c.partials
  | "failed" => c.failed
  | _ => c.skipped

end Counts

/-- An integer as a message shows it. -/
def shown (n : Int) : Text := py.repr (.int n)

/-- The invariants at the end of a turn. -/
def balanceProblems (c : Counts) : List Text :=
  (if c.planned < c.started then
    [Text.ofString "specialist lifecycle incomplete: started=" ++ shown py c.started ++
      " exceeds planned=" ++ shown py c.planned] else []) ++
  (if c.started ≠ c.started_terminal then
    [Text.ofString "specialist lifecycle must be balanced: started=" ++ shown py c.started ++
      " but completed+partial+failed=" ++ shown py c.started_terminal] else []) ++
  (if c.accounted ≠ c.planned then
    [Text.ofString "specialist lifecycle must account for every planned task: planned=" ++
      shown py c.planned ++ " but completed+partial+failed+skipped=" ++ shown py c.accounted]
    else []) ++
  (if c.planned - c.started < c.skipped then
    [Text.ofString "specialist lifecycle must be balanced: skipped=" ++ shown py c.skipped ++
      " exceeds planned-started=" ++ shown py (c.planned - c.started)] else []) ++
  (if c.started < c.max_in_flight then
    [Text.ofString "specialist.max_in_flight=" ++ shown py c.max_in_flight ++
      " exceeds started=" ++ shown py c.started] else []) ++
  (if 0 < c.started ∧ c.max_in_flight < 1 then
    [Text.ofString "specialist.max_in_flight must be >= 1 when tasks started"] else [])

/-! ### Events -/

def _SPECIALIST_ROLES : List String := ["listings", "mobility", "area_evidence"]

def _SPECIALIST_STATUSES : List String :=
  ["planned", "started", "completed", "partial", "failed", "skipped"]

def _SPECIALIST_TERMINAL_STATUSES : List String := ["completed", "partial", "failed", "skipped"]

def _SPECIALIST_OUTCOME_STATUSES : List String := ["partial", "failed", "skipped"]

def _SPECIALIST_EVENT_FIELDS : List String :=
  ["plan_id", "task_id", "parent_task_id", "role", "status", "duration_ms", "call_count"]

def _SPECIALIST_DENIED_EVENT_FIELDS : List String := ["status", "tool", "error_code"]

/-- `set(event) == fields` -/
def hasFields (event : Dict Value) (fields : List String) : Bool :=
  event.keys.all (· ∈ fields.map Text.ofString) &&
    fields.all fun f => (event.get? f).isSome

def field (event : Dict Value) (key : String) : Value := (event.get? key).getD .null

/-- A task, as its first event names it, and the statuses it has had. -/
structure TaskState where
  plan_id : Value
  task_id : Value
  parent : Value
  role : Value
  seen : List Text := []

/-- What the events so far come to. -/
structure Replay where
  problems : List Text := []
  /-- The status of every transition that is counted. -/
  statuses : List Text := []
  denied_events : Nat := 0
  tasks : List TaskState := []

def errorCodeProblem (label : Text) (event : Dict Value) : List Text :=
  if (field event "error_code").fits isErrorCode then []
  else [label ++ ".error_code is not a closed-set error code"]

/-- A denied dispatch is no transition of a task. -/
def deniedProblems (label : Text) (event : Dict Value) : List Text :=
  (if (field event "tool").fits isToolName then []
    else [label ++ ".tool is not a tool identifier"]) ++
  errorCodeProblem label event

def identifierProblems (label : Text) (event : Dict Value) : List Text :=
  ["plan_id", "task_id", "parent_task_id"].flatMap fun key =>
    if (field event key).fits isMachineId then []
    else [label ++ "." ++ key ++ " is not a machine identifier"]

def durationProblems (label : Text) (event : Dict Value) : Except Raised (List Text) :=
  let problem := [label ++ ".duration_ms is not a non-negative finite number"]
  match field event "duration_ms" with
  | .null => .ok []
  | .int n =>
    match py.round n with
    | .inf _ => .error .overflowError
    | _ => .ok (if n < 0 then problem else [])
  | .float (.real q) => .ok (if q < 0 then problem else [])
  | _ => .ok problem

/-- An error code explains an outcome, so it comes with one. -/
def outcomeProblems (label status : Text) (event : Dict Value) : List Text :=
  if (event.get? "error_code").isNone then []
  else if (field event "error_code").fits isErrorCode then
    if status ∈ _SPECIALIST_OUTCOME_STATUSES.map Text.ofString then []
    else [label ++ ".error_code is not allowed on status " ++ py.repr (.str status)]
  else [label ++ ".error_code is not a closed-set error code"]

/-- What is wrong with a status after those the task has had. -/
def orderProblems (label status : Text) (seen : List Text) : List Text :=
  (if status ∈ seen then [label ++ " duplicates status " ++ py.repr (.str status)] else []) ++
  (if status ≠ "planned" ∧ Text.ofString "planned" ∉ seen then
    [label ++ " occurs before planned"] else []) ++
  (if status ∈ ["completed", "partial", "failed"].map Text.ofString ∧
      Text.ofString "started" ∉ seen then
    [label ++ " occurs before started"] else []) ++
  (if status = "skipped" ∧ Text.ofString "started" ∈ seen then
    [label ++ " skips an already-started task"] else []) ++
  (if ∃ s ∈ seen, s ∈ _SPECIALIST_TERMINAL_STATUSES.map Text.ofString then
    [label ++ " occurs after a terminal status"] else [])

namespace TaskState

/-- The event is one of this task. -/
def isFor (event : Dict Value) (task : TaskState) : Bool :=
  task.plan_id.eq (field event "plan_id") && task.task_id.eq (field event "task_id")

def ofEvent (event : Dict Value) : TaskState :=
  { plan_id := field event "plan_id", task_id := field event "task_id",
    parent := field event "parent_task_id", role := field event "role" }

end TaskState

/-- `task_states.setdefault` -/
def task (tasks : List TaskState) (event : Dict Value) : TaskState :=
  (tasks.find? (·.isFor event)).getD (.ofEvent event)

def setTask (tasks : List TaskState) (event : Dict Value) (t : TaskState) : List TaskState :=
  if tasks.any (·.isFor event) then tasks.map fun t' => if t'.isFor event then t else t'
  else tasks ++ [t]

/-- Replay a transition among the tasks' earlier ones. -/
def replayTransition (label status : Text) (event : Dict Value) (s : Replay) :
    Except Raised Replay := do
  (field event "plan_id").hash
  (field event "task_id").hash
  let t := task s.tasks event
  return { s with
    problems := s.problems ++
      (if t.parent.eq (field event "parent_task_id") ∧ t.role.eq (field event "role") then []
        else [label ++ " changes immutable task identity"]) ++
      orderProblems py label status t.seen
    tasks := setTask s.tasks event { t with seen := t.seen ++ [status] } }

/-- An event that is a transition of a task. -/
def transitionStep (truncated : Value) (label : Text) (event : Dict Value) (s : Replay) :
    Except Raised Replay := do
  let role := field event "role"
  role.hash
  let s := { s with
    problems := s.problems ++ identifierProblems label event ++
      (if role.oneOf _SPECIALIST_ROLES then []
        else [label ++ ".role=" ++ py.repr role ++ " is invalid"]) }
  (field event "status").hash
  match field event "status" with
  | .str status =>
    if status ∈ _SPECIALIST_STATUSES.map Text.ofString then
      let duration ← durationProblems py label event
      let s := { s with
        problems := s.problems ++
          _check_count py (label ++ ".call_count") (field event "call_count") ++ duration ++
          outcomeProblems py label status event
        statuses := s.statuses ++ [status] }
      if truncated.isFalse then replayTransition py label status event s else return s
    else return { s with problems := s.problems ++
      [label ++ ".status=" ++ py.repr (.str status) ++ " is invalid"] }
  | status => return { s with problems := s.problems ++
      [label ++ ".status=" ++ py.repr status ++ " is invalid"] }

/-- One event of the ring. -/
def eventStep (truncated : Value) (s : Replay) (p : Value × Nat) : Except Raised Replay :=
  let label := Text.ofString "specialist.events[" ++ shown py p.2 ++ "]"
  match p.1 with
  | .obj event =>
    if (field event "status").reads "denied" then
      if hasFields event _SPECIALIST_DENIED_EVENT_FIELDS then
        .ok { s with problems := s.problems ++ deniedProblems label event
                     denied_events := s.denied_events + 1 }
      else .ok { s with problems := s.problems ++ [label ++ " has missing or unsafe extra fields"] }
    else if hasFields event _SPECIALIST_EVENT_FIELDS ||
        hasFields event (_SPECIALIST_EVENT_FIELDS ++ ["error_code"]) then
      transitionStep py truncated label event s
    else .ok { s with problems := s.problems ++ [label ++ " has missing or unsafe extra fields"] }
  | _ => .ok { s with problems := s.problems ++ [label ++ " is not an object"] }

/-- The events, when all of them are there, add up to the counters. -/
def reconcileProblems (c : Counts) (s : Replay) : List Text :=
  (_SPECIALIST_STATUSES.flatMap fun status =>
    if (s.statuses.count (Text.ofString status) : Int) ≠ c.ofStatus status then
      [Text.ofString "specialist." ++ status ++ "=" ++ shown py (c.ofStatus status) ++
        " but events contain " ++ shown py (s.statuses.count (Text.ofString status))]
    else []) ++
  (if (s.denied_events : Int) ≠ c.denied_calls then
    [Text.ofString "specialist.denied_calls=" ++ shown py c.denied_calls ++
      " but events contain " ++ shown py s.denied_events]
    else [])

/-- `_validate_specialist` -/
def _validate_specialist (value : Value) (crashed : Bool) : Except Raised (List Text) := do
  let .obj value := value | return [Text.ofString "specialist is not an object"]
  let truncated := field value "events_truncated"
  let events := (field value "events").arr?
  let s ← (events.getD []).zipIdx.foldlM (eventStep py truncated) {}
  return counterProblems py value ++
    (if truncated.isBool then [] else [Text.ofString "specialist.events_truncated is not a boolean"]) ++
    (if events.isSome then [] else [Text.ofString "specialist.events is not a list"]) ++
    (match counts? value with
    | some c => if crashed then [] else balanceProblems py c
    | none => []) ++
    s.problems ++
    (match counts? value with
    | some c => if truncated.isFalse && !crashed then reconcileProblems py c s else []
    | none => [])

end RentCompass.Canary
