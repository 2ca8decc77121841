import RentCompass.Runs
import RentCompass.Canary.Phases

/-!
# The recorder of the specialist lifecycle

What a turn keeps of its specialist tasks: the state of each task, the counters, and two rings of
events that forget their oldest. A call that is not taken changes nothing.
-/

namespace RentCompass.Canary

open Phase

def _MAX_SPECIALIST_EVENTS : Nat := 64

def _MAX_DENIED_EVENTS : Nat := 8

def _MAX_SPECIALIST_TASKS_PER_TURN : Nat := 128

def _MAX_SPECIALIST_CALLS_PER_TASK : Int := 10000

def SPECIALIST_ERROR_CODES : List String :=
  ["dispatch_denied", "tool_error", "timeout", "abandoned", "budget_exhausted", "cancelled",
    "ledger_invalid", "incomplete"]

def UNREGISTERED_TOOL : Text := "unregistered"

/-! ### What is taken of the arguments -/

/-- `value.strip() if isinstance(value, str) else ""` -/
def candidate : Value → Text
  | .str s => s.strip
  | _ => []

/-- `_machine_identifier` -/
def _machine_identifier (value : Value) : Option Text :=
  if isMachineId (candidate value) then some (candidate value) else none

/-- `_specialist_role` -/
def _specialist_role (value : Value) : Option Text :=
  if candidate value ∈ _SPECIALIST_ROLES.map Text.ofString then some (candidate value) else none

/-- `_call_count` -/
def _call_count : Value → Option Int
  | .int n => if n < 0 ∨ _MAX_SPECIALIST_CALLS_PER_TASK < n then none else some n
  | _ => none

/-- `_error_code` -/
def _error_code (closed_set : Option (List String)) (value : Value) : Option Text :=
  if isErrorCode (candidate value) then
    match closed_set with
    | none => some (candidate value)
    | some codes =>
      if candidate value ∈ codes.map Text.ofString then some (candidate value) else none
  else none

/-- `_tool_name` -/
def _tool_name (allowlist : List Text) (value : Value) : Option Text :=
  if isToolName (candidate value) then
    if allowlist ≠ [] ∧ candidate value ∉ allowlist then none else some (candidate value)
  else none

variable (py : Python)

/-- `round(duration, 3)`, of a duration that is one. -/
def roundMillis : Double → Option Double
  | .real q => if q < 0 then none else some (py.round (roundHalfEven (q * 1000) / 1000))
  | _ => none

/-- `_duration_ms` -/
def _duration_ms : Value → Option Double
  | .int n => roundMillis py (py.round n)
  | .float d => roundMillis py d
  | _ => none

/-- The arguments of `note_specialist_event`. -/
structure Call where
  status : Value
  plan_id : Value
  task_id : Value
  parent_task_id : Value
  role : Value
  duration_ms : Value := .null
  call_count : Value := .null
  error_code : Value := .null

/-- The task and the transition, where the status and the identity are usable. -/
def Call.reading? (c : Call) : Option (TaskId × Transition) := do
  let .str status := c.status | none
  let phase ← Phase.ofStatus? status
  let safe_plan_id ← _machine_identifier c.plan_id
  let safe_task_id ← _machine_identifier c.task_id
  let safe_parent_id ← _machine_identifier c.parent_task_id
  let safe_role ← _specialist_role c.role
  return ((safe_plan_id, safe_task_id), ⟨safe_parent_id, safe_role, phase⟩)

/-! ### The trace of a turn -/

/-- A task of the trace. -/
structure Task where
  parent_task_id : Text
  role : Text
  call_count : Int
  seen : List Phase
  active : Bool
  terminal : Bool

/-- An event of the lifecycle ring. -/
structure LifecycleEvent where
  key : TaskId
  transition : Transition
  duration_ms : Option Double
  call_count : Int
  error_code : Option Text
  deriving DecidableEq

/-- An event of the ring of denied dispatches. -/
structure DeniedEvent where
  tool : Text
  error_code : Text
  deriving DecidableEq

/-- `_specialist_trace` -/
structure Trace where
  events : List LifecycleEvent := []
  events_total : Nat := 0
  denied_events : List DeniedEvent := []
  denied_events_total : Nat := 0
  tasks : List (TaskId × Task) := []
  /-- The counter of each status. -/
  count : Phase → Nat := fun _ => 0
  denied_calls : Nat := 0
  dropped_error_codes : Nat := 0
  in_flight : Nat := 0
  max_in_flight : Nat := 0
  observed : Bool := false

/-- `deque.append`, of a deque that holds so many. -/
def push {α : Type} (maxlen : Nat) (ring : List α) (a : α) : List α :=
  (ring ++ [a]).drop ((ring ++ [a]).length - maxlen)

/-- `tasks[key] = task` -/
def putTask (tasks : List (TaskId × Task)) (key : TaskId) (task : Task) : List (TaskId × Task) :=
  if key ∈ tasks.map Prod.fst then tasks.map fun p => if p.1 = key then (key, task) else p
  else tasks ++ [(key, task)]

/-- A task of which nothing was recorded. -/
def Task.new (x : Transition) (calls : Int) : Task where
  parent_task_id := x.parent
  role := x.role
  call_count := calls
  seen := []
  active := false
  terminal := false

/-- The task of the transition: a new one where there is room, else one of the same identity. -/
def Trace.task? (s : Trace) (key : TaskId) (x : Transition) (safe_calls : Option Int) :
    Option Task :=
  match s.tasks.lookup key with
  | none =>
    if _MAX_SPECIALIST_TASKS_PER_TURN ≤ s.tasks.length then none
    else some (.new x (safe_calls.getD 0))
  | some task => if task.parent_task_id ≠ x.parent ∨ task.role ≠ x.role then none else some task

/-- The task after the transition. -/
def Task.advance (task : Task) (phase : Phase) (calls : Int) : Task :=
  { task with
    call_count := calls
    seen := task.seen ++ [phase]
    active := if phase = started then true else if phase.isTerminal then false else task.active
    terminal := task.terminal || phase.isTerminal }

/-- How many tasks are in flight after the transition of the task. -/
def Trace.flight (s : Trace) (task : Task) (phase : Phase) : Nat :=
  if phase = started then (if task.active then s.in_flight else s.in_flight + 1)
  else if phase.isTerminal && task.active then s.in_flight - 1
  else s.in_flight

/-- Record the transition of the task. -/
def Trace.record (s : Trace) (task : Task) (e : LifecycleEvent) (dropped_code : Bool) : Trace :=
  { s with
    tasks := putTask s.tasks e.key (task.advance e.transition.phase e.call_count)
    count := Function.update s.count e.transition.phase (s.count e.transition.phase + 1)
    in_flight := s.flight task e.transition.phase
    max_in_flight :=
      if e.transition.phase = started ∧ ¬ task.active then max s.max_in_flight (s.in_flight + 1)
      else s.max_in_flight
    observed := true
    dropped_error_codes := s.dropped_error_codes + if dropped_code then 1 else 0
    events_total := s.events_total + 1
    events := push _MAX_SPECIALIST_EVENTS s.events e }

/-- The code that a call gives, where it is one. -/
def Call.code (c : Call) : Option Text := _error_code (some SPECIALIST_ERROR_CODES) c.error_code

/-- `dropped_code`: the call gives a code that cannot be kept. -/
def Call.dropsCode (c : Call) (phase : Phase) : Bool :=
  !c.error_code.isNull && (c.code.isNone || !phase.isUnmet)

/-- The event of the transition. -/
def Call.event (c : Call) (key : TaskId) (x : Transition) (task : Task) : LifecycleEvent where
  key := key
  transition := x
  duration_ms := if x.phase.isTerminal then _duration_ms py c.duration_ms else none
  call_count := (_call_count c.call_count).getD task.call_count
  error_code := if c.dropsCode x.phase then none else c.code

/-- `note_specialist_event`: nothing, where it returns `False`. -/
def note_specialist_event (s : Trace) (c : Call) : Option Trace := do
  let (key, x) ← c.reading?
  let task ← s.task? key x (_call_count c.call_count)
  if x.phase ∈ task.seen then none
  else if task.terminal then none
  else if x.phase = planned ∧ started ∈ task.seen then none
  else return s.record task (c.event py key x task) (c.dropsCode x.phase)

/-- `note_specialist_call_denied`, with the names that are registered. -/
def note_specialist_call_denied (registered : List Text) (s : Trace) (tool error_code : Value) :
    Option Trace := do
  let safe_tool ←
    (_tool_name registered tool).or ((_tool_name [] tool).map fun _ => UNREGISTERED_TOOL)
  let safe_code ← _error_code none error_code
  return { s with
    denied_calls := s.denied_calls + 1
    observed := true
    denied_events_total := s.denied_events_total + 1
    denied_events := push _MAX_DENIED_EVENTS s.denied_events
      { tool := safe_tool, error_code := safe_code } }

/-- An event of a snapshot. -/
inductive SnapshotEvent where
  | lifecycle (e : LifecycleEvent)
  | denied (e : DeniedEvent)
  deriving DecidableEq

/-- The projection of a turn. -/
structure Snapshot where
  count : Phase → Nat
  denied_calls : Nat
  dropped_error_codes : Nat
  max_in_flight : Nat
  events_truncated : Bool
  events : List SnapshotEvent

/-- `specialist_snapshot` -/
def specialist_snapshot (s : Trace) : Snapshot where
  count := s.count
  denied_calls := s.denied_calls
  dropped_error_codes := s.dropped_error_codes
  max_in_flight := s.max_in_flight
  events_truncated :=
    s.events_total > s.events.length || s.denied_events_total > s.denied_events.length
  events := s.events.map .lifecycle ++ s.denied_events.map .denied

/-! ### Turns -/

/-- A call that reaches the recorder. -/
inductive Note where
  | event (c : Call)
  | denied (tool error_code : Value)

variable (registered : List Text)

/-- The trace after the call. -/
def note (s : Trace) : Note → Trace
  | .event c => (note_specialist_event py s c).getD s
  | .denied tool error_code =>
    (note_specialist_call_denied registered s tool error_code).getD s

end RentCompass.Canary
