import Mathlib.Tactic.FinCases
import RentCompass.Canary.FailsClosed
import RentCompass.Canary.Phases

/-!
# What the validator of the lifecycle accepts

Of a projection that holds all of its events, each well shaped on its own, the validator finds
nothing to report exactly if the events interleave complete tasks and the counters are what the
events come to.
-/

namespace RentCompass.Canary

open Phase

variable {py : Python}

/-! ### Events that are well shaped -/

/-- A denied dispatch, with the tool and the code. -/
structure DeniedShape (event : Dict Value) : Prop where
  status : field event "status" = .str "denied"
  fields : hasFields event _SPECIALIST_DENIED_EVENT_FIELDS
  tool : (field event "tool").fits isToolName
  error_code : (field event "error_code").fits isErrorCode

/-- Nothing, or a number that a duration can be. -/
def IsDuration (py : Python) (v : Value) : Prop :=
  v = .null ∨ (∃ n : Int, 0 ≤ n ∧ (∀ s, py.round n ≠ .inf s) ∧ v = .int n) ∨
    ∃ q : ℚ, 0 ≤ q ∧ v = .float (.real q)

/-- A transition of a task. -/
structure TransitionShape (py : Python) (event : Dict Value) (k : TaskId) (x : Transition) :
    Prop where
  fields : hasFields event _SPECIALIST_EVENT_FIELDS ∨
    hasFields event (_SPECIALIST_EVENT_FIELDS ++ ["error_code"])
  plan_id : field event "plan_id" = .str k.1 ∧ isMachineId k.1
  task_id : field event "task_id" = .str k.2 ∧ isMachineId k.2
  parent_task_id : field event "parent_task_id" = .str x.parent ∧ isMachineId x.parent
  role : field event "role" = .str x.role ∧ x.role ∈ _SPECIALIST_ROLES.map Text.ofString
  status : field event "status" = .str x.phase.status
  call_count : ∃ n : Int, 0 ≤ n ∧ field event "call_count" = .int n
  duration_ms : IsDuration py (field event "duration_ms")
  error_code : event.get? "error_code" = none ∨
    (field event "error_code").fits isErrorCode ∧ x.phase.isUnmet

/-- The event is well shaped on its own. -/
def WellShaped (py : Python) (v : Value) : Prop :=
  ∃ event, v = .obj event ∧ (DeniedShape event ∨ ∃ k x, TransitionShape py event k x)

/-! ### What the events say -/

/-- The task and the transition of an event. -/
def transition? (v : Value) : Option (TaskId × Transition) :=
  match v with
  | .obj event =>
    match field event "plan_id", field event "task_id", field event "parent_task_id",
      field event "role", field event "status" with
    | .str plan_id, .str task_id, .str parent, .str role, .str status =>
      (Phase.ofStatus? status).map fun phase => ((plan_id, task_id), ⟨parent, role, phase⟩)
    | _, _, _, _, _ => none
  | _ => none

/-- The transitions among the events. -/
def transitions (events : List Value) : List (TaskId × Transition) := events.filterMap transition?

def isDenied (v : Value) : Bool :=
  match v with
  | .obj event => (field event "status").reads "denied"
  | _ => false

/-- The counters are what the events come to. -/
structure Accounts (value : Dict Value) (events : List Value) : Prop where
  phase : ∀ s : Phase, count? value s.name = some (countOf (· = s) (transitions events) : Int)
  denied_calls : count? value "denied_calls" = some (events.countP isDenied : Int)
  max_in_flight : ∃ m, count? value "max_in_flight" = some m ∧
    if countOf (· = started) (transitions events) = 0 then m = 0
    else 1 ≤ m ∧ m ≤ countOf (· = started) (transitions events)

lemma TransitionShape.transition?_eq {event : Dict Value} {k : TaskId} {x : Transition}
    (h : TransitionShape py event k x) : transition? (.obj event) = some (k, x) := by
  rw [transition?, h.plan_id.1, h.task_id.1, h.parent_task_id.1, h.role.1, h.status]
  simp only [Phase.ofStatus?_status, Option.map_some]

lemma eq_str_iff {v : Value} {s : Text} : v.eq (.str s) = true ↔ v = .str s := by
  cases v <;> simp [Value.eq, Value.scalarEq, Value.number?]

lemma TransitionShape.not_denied {event : Dict Value} {k : TaskId} {x : Transition}
    (h : TransitionShape py event k x) : (field event "status").reads "denied" = false := by
  rw [h.status, Bool.eq_false_iff, Value.reads, Ne, eq_str_iff, JsonValue.str.injEq]
  cases x.phase <;> decide

lemma DeniedShape.transition?_eq {event : Dict Value} (h : DeniedShape event) :
    transition? (.obj event) = none := by
  rw [transition?, h.status]
  split
  · next hs =>
    obtain rfl := JsonValue.str.inj hs
    rfl
  · rfl

/-! ### One event -/

lemma eventStep_denied {event : Dict Value} (h : DeniedShape event) (truncated : Value)
    (s : Replay) (i : Nat) : eventStep py truncated s (.obj event, i) =
      .ok { s with denied_events := s.denied_events + 1 } := by
  have hreads : (field event "status").reads "denied" = true := eq_str_iff.2 h.status
  simp [eventStep, hreads, h.fields, deniedProblems, errorCodeProblem, h.tool, h.error_code]

/-- What a transition is told, of the task and the phases it has had. -/
def stepProblems (py : Python) (label : Text) (x : Transition) (t : TaskState) : List Text :=
  (if t.parent.eq (.str x.parent) ∧ t.role.eq (.str x.role) then []
    else [label ++ Text.ofString " changes immutable task identity"]) ++
    orderProblems py label x.phase.status t.seen

lemma durationProblems_eq {label : Text} {event : Dict Value}
    (h : IsDuration py (field event "duration_ms")) : durationProblems py label event = .ok [] := by
  rw [durationProblems]
  obtain hv | ⟨n, hn, hfinite, hv⟩ | ⟨q, hq, hv⟩ := h
  · rw [hv]
  · rw [hv]
    cases hround : py.round n with
    | inf s => exact absurd hround (hfinite s)
    | nan | real => simp [hround, not_lt.2 hn]
  · rw [hv]
    simp [not_lt.2 hq]

lemma outcomeProblems_eq {label : Text} {event : Dict Value} {phase : Phase}
    (h : event.get? "error_code" = none ∨
      (field event "error_code").fits isErrorCode ∧ phase.isUnmet) :
    outcomeProblems py label phase.status event = [] := by
  rw [outcomeProblems]
  obtain h | ⟨hfits, hunmet⟩ := h
  · simp [h]
  · have hmem : phase.status ∈ _SPECIALIST_OUTCOME_STATUSES.map Text.ofString := by
      revert hunmet
      cases phase <;> decide
    simp [hfits, hmem]

lemma eventStep_transition {event : Dict Value} {k : TaskId} {x : Transition}
    (h : TransitionShape py event k x) (s : Replay) (i : Nat) :
    ∃ label, eventStep py (.bool false) s (.obj event, i) = .ok
      { problems := s.problems ++ stepProblems py label x (task s.tasks event)
        statuses := s.statuses ++ [x.phase.status]
        denied_events := s.denied_events
        tasks := setTask s.tasks event
          { task s.tasks event with seen := (task s.tasks event).seen ++ [x.phase.status] } } := by
  refine ⟨Text.ofString "specialist.events[" ++ shown py i ++ "]", ?_⟩
  have hfields : (hasFields event _SPECIALIST_EVENT_FIELDS ||
      hasFields event (_SPECIALIST_EVENT_FIELDS ++ ["error_code"])) = true := by
    simpa using h.fields
  have hids (label : Text) : identifierProblems label event = [] := by
    simp [identifierProblems, h.plan_id, h.task_id, h.parent_task_id, Value.fits]
  have hrole : Value.oneOf (.str x.role) _SPECIALIST_ROLES = true := by
    have hall : ∀ r ∈ _SPECIALIST_ROLES,
        Value.oneOf (.str (Text.ofString r)) _SPECIALIST_ROLES = true := by decide
    obtain ⟨r, hr, hx⟩ := List.mem_map.1 h.role.2
    exact hx ▸ hall r hr
  have hstatus : x.phase.status ∈ _SPECIALIST_STATUSES.map Text.ofString :=
    Phase.exists_status_iff.1 ⟨_, rfl⟩
  obtain ⟨n, hn, hcalls⟩ := h.call_count
  have hcount (name : Text) : _check_count py name (field event "call_count") = [] := by
    simp [hcalls, _check_count, not_lt.2 hn]
  rw [eventStep]
  simp only [h.not_denied, hfields, Bool.false_eq_true, if_false, if_true]
  rw [transitionStep]
  simp only [hids, if_true, List.append_nil, h.role.1, hrole, h.status, hstatus, Value.hash, hcount,
    durationProblems_eq h.duration_ms, outcomeProblems_eq h.error_code, Value.isFalse]
  simp [replayTransition, stepProblems, h.plan_id.1, h.task_id.1, h.parent_task_id.1, h.role.1,
    Value.hash, bind, Except.bind, pure, Except.pure]

/-! ### The states of the tasks -/

namespace TaskState

/-- The state is one of the task. -/
def isOf (k : TaskId) (t : TaskState) : Bool := t.plan_id.eq (.str k.1) && t.task_id.eq (.str k.2)

lemma isOf_iff {k : TaskId} {t : TaskState} :
    t.isOf k ↔ t.plan_id = .str k.1 ∧ t.task_id = .str k.2 := by
  rw [isOf, Bool.and_eq_true, eq_str_iff, eq_str_iff]

lemma eq_of_isOf {k k' : TaskId} {t : TaskState} (h : t.isOf k) (h' : t.isOf k') : k' = k := by
  rw [isOf_iff] at h h'
  refine Prod.ext ?_ ?_
  · exact JsonValue.str.inj (h'.1.symm.trans h.1)
  · exact JsonValue.str.inj (h'.2.symm.trans h.2)

/-- The state of a task that went through the transitions. -/
def ofTrace (k : TaskId) (x : Transition) (t : List Transition) : TaskState where
  plan_id := .str k.1
  task_id := .str k.2
  parent := .str x.parent
  role := .str x.role
  seen := t.map fun y => y.phase.status

lemma isOf_ofTrace (k : TaskId) (x : Transition) (t : List Transition) : (ofTrace k x t).isOf k :=
  isOf_iff.2 ⟨rfl, rfl⟩

end TaskState

/-- The state of the task among the others. -/
def lookup (k : TaskId) (tasks : List TaskState) : Option TaskState := tasks.find? (·.isOf k)

section Lookup

variable {event : Dict Value} {k : TaskId} {x : Transition}

lemma TransitionShape.isFor (h : TransitionShape py event k x) :
    TaskState.isFor event = TaskState.isOf k := by
  funext t
  rw [TaskState.isFor, TaskState.isOf, h.plan_id.1, h.task_id.1]

lemma lookup_map_of_ne {k' : TaskId} (hne : k' ≠ k) {t : TaskState} (ht : t.isOf k)
    (tasks : List TaskState) :
    lookup k' (tasks.map fun t' => if t'.isOf k then t else t') = lookup k' tasks := by
  have ht' : t.isOf k' = false := by
    rw [Bool.eq_false_iff]
    exact fun h => hne (TaskState.eq_of_isOf ht h)
  induction tasks with
  | nil => rfl
  | cons t₀ tasks ih =>
    rw [lookup] at ih ⊢
    rw [List.map_cons, lookup]
    by_cases hk : t₀.isOf k
    · have hk' : t₀.isOf k' = false := by
        rw [Bool.eq_false_iff]
        exact fun h => hne (TaskState.eq_of_isOf hk h)
      rw [if_pos hk, List.find?_cons_of_neg (by simp [ht']), List.find?_cons_of_neg (by simp [hk']), ih]
      rfl
    · rw [if_neg hk]
      by_cases hk' : t₀.isOf k'
      · rw [List.find?_cons_of_pos hk', List.find?_cons_of_pos hk']
      · rw [List.find?_cons_of_neg hk', List.find?_cons_of_neg hk', ih]
        rfl

lemma lookup_map_self {t : TaskState} (ht : t.isOf k) {tasks : List TaskState}
    (hany : tasks.any (·.isOf k)) :
    lookup k (tasks.map fun t' => if t'.isOf k then t else t') = some t := by
  induction tasks with
  | nil => simp at hany
  | cons t₀ tasks ih =>
    rw [List.map_cons, lookup]
    by_cases hk : t₀.isOf k
    · rw [if_pos hk, List.find?_cons_of_pos ht]
    · rw [if_neg hk, List.find?_cons_of_neg hk]
      rw [List.any_cons, Bool.or_eq_true] at hany
      exact ih (hany.resolve_left hk)

/-- The state of one task is set, and those of the others stay. -/
lemma lookup_setTask (h : TransitionShape py event k x) {t : TaskState} (ht : t.isOf k)
    (tasks : List TaskState) (k' : TaskId) :
    lookup k' (setTask tasks event t) = if k' = k then some t else lookup k' tasks := by
  rw [setTask, h.isFor]
  by_cases hany : tasks.any (·.isOf k)
  · rw [if_pos hany]
    split_ifs with hk
    · subst hk
      exact lookup_map_self ht hany
    · exact lookup_map_of_ne hk ht tasks
  · rw [if_neg hany, lookup, List.find?_append]
    split_ifs with hk
    · subst hk
      have hnone : tasks.find? (·.isOf k') = none := by simpa using hany
      simp [hnone, ht]
    · have ht' : t.isOf k' = false := by
        rw [Bool.eq_false_iff]
        exact fun h => hk (TaskState.eq_of_isOf ht h)
      simp [ht', lookup]

end Lookup

/-! ### The order of the phases -/

lemma status_mem_map {s : Phase} {t : List Phase} : s.status ∈ t.map status ↔ s ∈ t :=
  List.mem_map_of_injective Phase.status_injective

lemma status_mem_terminal {s : Phase} :
    s.status ∈ _SPECIALIST_TERMINAL_STATUSES.map Text.ofString ↔ s.isTerminal := by
  cases s <;> decide

lemma status_mem_outcome {s : Phase} :
    s.status ∈ ["completed", "partial", "failed"].map Text.ofString ↔ s.isOutcome := by
  cases s <;> decide

lemma orderProblems_eq_nil_iff {label : Text} {s : Phase} {t : List Phase} :
    orderProblems py label s.status (t.map status) = [] ↔ Follows t s := by
  have hplanned : Text.ofString "planned" = planned.status := rfl
  have hstarted : Text.ofString "started" = started.status := rfl
  have hskipped : Text.ofString "skipped" = skipped.status := rfl
  have hterminal : (∃ s ∈ t.map status,
      s ∈ _SPECIALIST_TERMINAL_STATUSES.map Text.ofString) ↔ ∃ x ∈ t, x.isTerminal := by
    constructor
    · rintro ⟨_, hs, hterminal⟩
      obtain ⟨x, hx, rfl⟩ := List.mem_map.1 hs
      exact ⟨x, hx, status_mem_terminal.1 hterminal⟩
    · rintro ⟨x, hx, hterminal⟩
      exact ⟨_, List.mem_map_of_mem hx, status_mem_terminal.2 hterminal⟩
  have hnil (p : Prop) [Decidable p] (message : Text) :
      (if p then [message] else []) = [] ↔ ¬ p := by simp
  rw [orderProblems]
  simp only [List.append_eq_nil_iff, hnil, hplanned, hstarted, hskipped, status_mem_map,
    Phase.status_inj, status_mem_outcome, hterminal, not_and, not_not, not_exists, Follows, ne_eq,
    and_assoc]

lemma stepProblems_eq_nil_iff {label : Text} {k : TaskId} {x : Transition} {t : List Transition} :
    stepProblems py label x (.ofTrace k (t.headD x) t) = [] ↔ FollowsTrace t x := by
  have hnil (p : Prop) [Decidable p] (message : Text) :
      (if p then [] else [message]) = [] ↔ p := by simp
  have hseen : t.map (fun y => y.phase.status) = (t.map Transition.phase).map status := by simp
  rw [stepProblems, List.append_eq_nil_iff, hnil, FollowsTrace, TaskState.ofTrace, hseen,
    orderProblems_eq_nil_iff, eq_str_iff, eq_str_iff, and_comm]
  cases t with
  | nil => simp
  | cons y t => simp [Transition.Agrees]

/-! ### The replay -/

/-- The state a task has come to. -/
def taskOf (k : TaskId) : List Transition → Option TaskState
  | [] => none
  | x :: t => some (.ofTrace k x (x :: t))

/-- What the validator holds is what the events so far say. -/
structure Replays (s : Replay) (events : List Value) : Prop where
  statuses : s.statuses = (transitions events).map fun x => x.2.phase.status
  denied_events : s.denied_events = events.countP isDenied
  tasks : ∀ k, lookup k s.tasks = taskOf k (Streams.of k (transitions events))
  problems : s.problems = [] ↔ Streams.Interleaves LegalTrace (transitions events)

variable {s : Replay} {events : List Value}

lemma replays_nil : Replays {} [] where
  statuses := rfl
  denied_events := rfl
  tasks _ := rfl
  problems := by simpa [transitions] using Streams.interleaves_nil legalTrace_nil

lemma transitions_concat (events : List Value) (v : Value) :
    transitions (events ++ [v]) = transitions events ++ (transition? v).toList := by
  rw [transitions, List.filterMap_append]
  cases h : transition? v <;> simp [transitions, h]

lemma Replays.denied {event : Dict Value} (hs : Replays s events) (h : DeniedShape event) :
    Replays { s with denied_events := s.denied_events + 1 } (events ++ [.obj event]) := by
  have hnone : transitions (events ++ [.obj event]) = transitions events := by
    rw [transitions_concat, h.transition?_eq, Option.toList_none, List.append_nil]
  have hdenied : isDenied (.obj event) = true := eq_str_iff.2 h.status
  constructor
  · rw [hnone]
    exact hs.statuses
  · simp [hs.denied_events, hdenied]
  · rw [hnone]
    exact hs.tasks
  · rw [hnone]
    exact hs.problems

lemma Replays.transition {event : Dict Value} {k : TaskId} {x : Transition}
    (hs : Replays s events) (h : TransitionShape py event k x) (i : Nat) :
    ∃ s', eventStep py (.bool false) s (.obj event, i) = .ok s' ∧
      Replays s' (events ++ [.obj event]) := by
  obtain ⟨label, hstep⟩ := eventStep_transition h s i
  refine ⟨_, hstep, ?_⟩
  have hconcat : transitions (events ++ [.obj event]) = transitions events ++ [(k, x)] := by
    rw [transitions_concat, h.transition?_eq, Option.toList_some]
  have hdenied : isDenied (.obj event) = false := h.not_denied
  have htask : task s.tasks event = .ofTrace k ((Streams.of k (transitions events)).headD x)
      (Streams.of k (transitions events)) := by
    have hlookup := hs.tasks k
    rw [task, h.isFor, ← lookup, hlookup]
    cases Streams.of k (transitions events) with
    | nil => simp [taskOf, TaskState.ofEvent, TaskState.ofTrace, h.plan_id.1, h.task_id.1,
        h.parent_task_id.1, h.role.1]
    | cons y t => rfl
  constructor
  case statuses => simp [hconcat, hs.statuses]
  case denied_events => simp [hs.denied_events, hdenied]
  case tasks =>
    intro k'
    have hof : (task s.tasks event).isOf k := by
      rw [htask]
      exact TaskState.isOf_ofTrace k _ _
    rw [lookup_setTask h (by exact hof), hconcat]
    split_ifs with hk
    · subst hk
      rw [Streams.of_concat_self, htask]
      cases Streams.of k' (transitions events) with
      | nil => simp [taskOf, TaskState.ofTrace]
      | cons y t => simp [taskOf, TaskState.ofTrace]
    · rw [Streams.of_concat_of_ne hk]
      exact hs.tasks k'
  case problems =>
    rw [hconcat, Streams.interleaves_concat legalTrace_concat, ← hs.problems, htask,
      List.append_eq_nil_iff, stepProblems_eq_nil_iff]

lemma Replays.step {v : Value} (hs : Replays s events) (h : WellShaped py v) (i : Nat) :
    ∃ s', eventStep py (.bool false) s (v, i) = .ok s' ∧ Replays s' (events ++ [v]) := by
  obtain ⟨event, rfl, hdenied | ⟨k, x, htransition⟩⟩ := h
  · exact ⟨_, eventStep_denied hdenied _ s i, hs.denied hdenied⟩
  · exact hs.transition htransition i

lemma Replays.run {rest : List Value} (hs : Replays s events) (h : ∀ v ∈ rest, WellShaped py v)
    (i : Nat) : ∃ s', (rest.zipIdx i).foldlM (eventStep py (.bool false)) s = .ok s' ∧
      Replays s' (events ++ rest) := by
  induction rest generalizing s events i with
  | nil => exact ⟨s, rfl, by simpa using hs⟩
  | cons v rest ih =>
    obtain ⟨s₁, hstep, hs₁⟩ := hs.step (h v (by simp)) i
    obtain ⟨s₂, hrun, hs₂⟩ := ih hs₁ (fun w hw => h w (by simp [hw])) (i + 1)
    refine ⟨s₂, ?_, by simpa using hs₂⟩
    rw [List.zipIdx_cons, List.foldlM_cons, hstep]
    exact hrun

/-! ### The counters -/

variable {value : Dict Value} {c : Counts}

lemma check_count_eq_nil_iff {name : Text} {f : String} :
    _check_count py name (counter value f) = [] ↔ (count? value f).isSome := by
  rw [count?]
  cases counter value f with
  | int n =>
    by_cases hn : n < 0
    · simp [_check_count, hn]
    · simp [_check_count, hn]
  | null | bool | float | str | arr | obj => simp [_check_count]

lemma count?_nonneg {f : String} {n : Int} (h : count? value f = some n) : 0 ≤ n := by
  rw [count?] at h
  split at h
  · grind
  · cases h

lemma counts?_eq_some_iff : counts? value = some c ↔
    (∀ s : Phase, count? value s.name = some (c.ofStatus s.name)) ∧
      count? value "max_in_flight" = some c.max_in_flight ∧
      count? value "denied_calls" = some c.denied_calls ∧
      (count? value "dropped_error_codes").isSome := by
  simp only [counts?, Option.bind_eq_bind, Option.bind_eq_some_iff, Option.pure_def,
    Option.some.injEq]
  constructor
  · rintro ⟨planned, hplanned, started, hstarted, completed, hcompleted, partials, hpartials,
      failed, hfailed, skipped, hskipped, most, hmost, denied, hdenied, dropped, hdropped, rfl⟩
    refine ⟨fun s => ?_, hmost, hdenied, by simp [hdropped]⟩
    cases s
    · exact hplanned
    · exact hstarted
    · exact hcompleted
    · exact hpartials
    · exact hfailed
    · exact hskipped
  · rintro ⟨hphase, hmost, hdenied, hdropped⟩
    obtain ⟨dropped, hdropped⟩ := Option.isSome_iff_exists.1 hdropped
    exact ⟨_, hphase planned, _, hphase started, _, hphase completed, _, hphase partials,
      _, hphase failed, _, hphase skipped, _, hmost, _, hdenied, _, hdropped, rfl⟩

/-- Every counter passes its check. -/
lemma counterProblems_eq_nil_iff : counterProblems py value = [] ↔ ∃ c, counts? value = some c := by
  simp only [counterProblems, List.flatMap_eq_nil_iff, check_count_eq_nil_iff]
  constructor
  · intro h
    have hget (f : String)
        (hf : f ∈ _SPECIALIST_COUNTER_FIELDS ++ _SPECIALIST_OPTIONAL_COUNTER_FIELDS) :
        ∃ n, count? value f = some n := Option.isSome_iff_exists.1 (h f hf)
    obtain ⟨n₁, h₁⟩ := hget "planned" (by decide)
    obtain ⟨n₂, h₂⟩ := hget "started" (by decide)
    obtain ⟨n₃, h₃⟩ := hget "completed" (by decide)
    obtain ⟨n₄, h₄⟩ := hget "partial" (by decide)
    obtain ⟨n₅, h₅⟩ := hget "failed" (by decide)
    obtain ⟨n₆, h₆⟩ := hget "skipped" (by decide)
    obtain ⟨n₇, h₇⟩ := hget "max_in_flight" (by decide)
    obtain ⟨n₈, h₈⟩ := hget "denied_calls" (by decide)
    refine ⟨⟨n₁, n₂, n₃, n₄, n₅, n₆, n₇, n₈⟩, counts?_eq_some_iff.2 ⟨fun s => ?_, h₇, h₈,
      h _ (by decide)⟩⟩
    cases s
    · exact h₁
    · exact h₂
    · exact h₃
    · exact h₄
    · exact h₅
    · exact h₆
  · rintro ⟨c, hc⟩ f hf
    obtain ⟨hphase, hmost, hdenied, hdropped⟩ := counts?_eq_some_iff.1 hc
    have hname (s : Phase) : (count? value s.name).isSome := by rw [hphase s]; rfl
    fin_cases hf
    · exact hname planned
    · exact hname started
    · exact hname completed
    · exact hname failed
    · exact hname skipped
    · rw [hmost]; rfl
    · exact hname partials
    · rw [hdenied]; rfl
    · exact hdropped

lemma balanceProblems_eq_nil_iff : balanceProblems py c = [] ↔
    c.started ≤ c.planned ∧ c.started = c.started_terminal ∧ c.accounted = c.planned ∧
      c.skipped ≤ c.planned - c.started ∧ c.max_in_flight ≤ c.started ∧
      (0 < c.started → 1 ≤ c.max_in_flight) := by
  have hnil (p : Prop) [Decidable p] (message : Text) :
      (if p then [message] else []) = [] ↔ ¬ p := by simp
  simp only [balanceProblems, List.append_eq_nil_iff, hnil, not_lt, not_and, ne_eq, not_not,
    and_assoc]

lemma count_statuses (l : List (TaskId × Transition)) (s : Phase) :
    (l.map fun x => x.2.phase.status).count s.status = countOf (· = s) l := by
  induction l with
  | nil => rfl
  | cons x l ih =>
    rw [List.map_cons, List.count_cons, ih, countOf, countOf, List.countP_cons]
    simp

lemma reconcileProblems_eq_nil_iff (hs : Replays s events) : reconcileProblems py c s = [] ↔
    (∀ t : Phase, c.ofStatus t.name = (countOf (· = t) (transitions events) : Int)) ∧
      c.denied_calls = (events.countP isDenied : Int) := by
  have hnil (p : Prop) [Decidable p] (message : Text) :
      (if p then [message] else []) = [] ↔ ¬ p := by simp
  have hcount (t : Phase) : s.statuses.count (Text.ofString t.name) =
      countOf (· = t) (transitions events) := by
    rw [hs.statuses]
    exact count_statuses _ t
  simp only [reconcileProblems, List.append_eq_nil_iff, List.flatMap_eq_nil_iff, hnil, ne_eq,
    not_not, hs.denied_events]
  refine and_congr ⟨fun h t => ?_, fun h f hf => ?_⟩ eq_comm
  · have ht : t.name ∈ _SPECIALIST_STATUSES := by cases t <;> decide
    rw [← h t.name ht, hcount]
  · have hf : ∃ t : Phase, f = t.name := by
      fin_cases hf
      · exact ⟨planned, rfl⟩
      · exact ⟨started, rfl⟩
      · exact ⟨completed, rfl⟩
      · exact ⟨partials, rfl⟩
      · exact ⟨failed, rfl⟩
      · exact ⟨skipped, rfl⟩
    obtain ⟨t, rfl⟩ := hf
    rw [h t, hcount]

/-! ### The validator -/

/-- The counts of complete tasks are balanced. -/
lemma balanced_of_complete (h : Streams.Interleaves CompleteTrace (transitions events))
    (hphase : ∀ t : Phase, c.ofStatus t.name = (countOf (· = t) (transitions events) : Int))
    (hmost : if countOf (· = started) (transitions events) = 0 then c.max_in_flight = 0
      else 1 ≤ c.max_in_flight ∧
        c.max_in_flight ≤ countOf (· = started) (transitions events)) :
    balanceProblems py c = [] := by
  have hended := (complete_iff_of_legal (legal_of_complete h)).2 h
  have houtcome := countOf_isOutcome_eq_started h
  rw [countOf_isTerminal] at hended
  rw [countOf_isOutcome] at hended houtcome
  have hplanned : c.planned = _ := hphase planned
  have hstarted : c.started = _ := hphase started
  have hcompleted : c.completed = _ := hphase completed
  have hpartials : c.partials = _ := hphase partials
  have hfailed : c.failed = _ := hphase failed
  have hskipped : c.skipped = _ := hphase skipped
  rw [balanceProblems_eq_nil_iff, Counts.accounted, Counts.started_terminal]
  split_ifs at hmost with hzero
  · refine ⟨?_, ?_, ?_, ?_, ?_, ?_⟩ <;> omega
  · refine ⟨?_, ?_, ?_, ?_, ?_, ?_⟩ <;> omega

/-- Where the counters agree with the events and balance, every task is complete. -/
lemma complete_of_balanced (h : Streams.Interleaves LegalTrace (transitions events))
    (hphase : ∀ t : Phase, c.ofStatus t.name = (countOf (· = t) (transitions events) : Int))
    (hbalance : balanceProblems py c = []) :
    Streams.Interleaves CompleteTrace (transitions events) := by
  obtain ⟨-, -, haccounted, -⟩ := balanceProblems_eq_nil_iff.1 hbalance
  rw [← complete_iff_of_legal h, countOf_isTerminal, countOf_isOutcome]
  have hplanned : c.planned = _ := hphase planned
  have hcompleted : c.completed = _ := hphase completed
  have hpartials : c.partials = _ := hphase partials
  have hfailed : c.failed = _ := hphase failed
  have hskipped : c.skipped = _ := hphase skipped
  rw [Counts.accounted, Counts.started_terminal] at haccounted
  omega

/-- The validator accepts exactly the streams of complete tasks, with counters that agree. -/
theorem validate_specialist_eq_nil_iff (py : Python) {value : Dict Value} {events : List Value}
    (hevents : field value "events" = .arr events)
    (htruncated : field value "events_truncated" = .bool false)
    (hshape : ∀ v ∈ events, WellShaped py v) :
    _validate_specialist py (.obj value) false = .ok [] ↔
      Streams.Interleaves CompleteTrace (transitions events) ∧ Accounts value events ∧
        (count? value "dropped_error_codes").isSome := by
  obtain ⟨s, hrun, hs⟩ := replays_nil.run hshape 0
  rw [List.nil_append] at hs
  have hvalidate : _validate_specialist py (.obj value) false = .ok (counterProblems py value ++
      (counts? value).elim [] (balanceProblems py) ++ s.problems ++
      (counts? value).elim [] fun c => reconcileProblems py c s) := by
    simp only [_validate_specialist, hevents, htruncated, Value.arr?, Option.getD_some, hrun]
    cases counts? value <;>
      simp [Value.isBool, Value.isFalse, bind, Except.bind, pure, Except.pure]
  rw [hvalidate, Except.ok.injEq, List.append_eq_nil_iff, List.append_eq_nil_iff,
    List.append_eq_nil_iff, counterProblems_eq_nil_iff]
  constructor
  · rintro ⟨⟨⟨⟨c, hc⟩, hbalance⟩, hproblems⟩, hreconcile⟩
    rw [hc, Option.elim_some] at hbalance hreconcile
    obtain ⟨hphase, hdenied⟩ := (reconcileProblems_eq_nil_iff hs).1 hreconcile
    obtain ⟨hstated, hmost, hcalls, hdropped⟩ := counts?_eq_some_iff.1 hc
    obtain ⟨-, -, -, -, hle, hpos⟩ := balanceProblems_eq_nil_iff.1 hbalance
    have hstarted : c.started = _ := hphase started
    have hnonneg := count?_nonneg hmost
    refine ⟨complete_of_balanced (hs.problems.1 hproblems) hphase hbalance, ?_, hdropped⟩
    refine { phase := fun t => by rw [hstated, hphase], denied_calls := by rw [hcalls, hdenied],
             max_in_flight := ⟨_, hmost, ?_⟩ }
    split_ifs with hzero
    · omega
    · omega
  · rintro ⟨hcomplete, haccounts, hdropped⟩
    obtain ⟨most, hmost, hbounds⟩ := haccounts.max_in_flight
    let c : Counts :=
      { planned := countOf (· = planned) (transitions events)
        started := countOf (· = started) (transitions events)
        completed := countOf (· = completed) (transitions events)
        partials := countOf (· = partials) (transitions events)
        failed := countOf (· = failed) (transitions events)
        skipped := countOf (· = skipped) (transitions events)
        max_in_flight := most
        denied_calls := events.countP isDenied }
    have hphase (t : Phase) : c.ofStatus t.name = (countOf (· = t) (transitions events) : Int) := by
      cases t <;> rfl
    have hc : counts? value = some c := counts?_eq_some_iff.2
      ⟨fun t => by rw [haccounts.phase, hphase], hmost, haccounts.denied_calls, hdropped⟩
    rw [hc]
    exact ⟨⟨⟨⟨c, rfl⟩, balanced_of_complete hcomplete hphase hbounds⟩,
      hs.problems.2 (legal_of_complete hcomplete)⟩,
      (reconcileProblems_eq_nil_iff hs).2 ⟨hphase, rfl⟩⟩

/-! ### A turn of two tasks -/

/-- A transition of a task of a plan. -/
def taskEvent (task_id role : String) (t : Phase) : Value :=
  .obj [("plan_id", .str "plan-1"), ("task_id", .str task_id), ("parent_task_id", .str "root-1"),
    ("role", .str role), ("status", .str t.status), ("duration_ms", .null), ("call_count", .int 1)]

/-- One task is completed and the other skipped, and a dispatch is denied. -/
def twoTasks : List Value :=
  [taskEvent "t1" "listings" planned, taskEvent "t2" "mobility" planned,
    taskEvent "t1" "listings" started, taskEvent "t2" "mobility" skipped,
    .obj [("status", .str "denied"), ("tool", .str "search"), ("error_code", .str "not_allowed")],
    taskEvent "t1" "listings" completed]

/-- The block of the turn, with what it states of dropped codes. -/
def twoTasksBlock (dropped : Int) : Dict Value :=
  [("planned", .int 2), ("started", .int 1), ("completed", .int 1), ("partial", .int 0),
    ("failed", .int 0), ("skipped", .int 1), ("denied_calls", .int 1),
    ("dropped_error_codes", .int dropped), ("max_in_flight", .int 1),
    ("events_truncated", .bool false), ("events", .arr twoTasks)]

lemma taskEvent_shape (task_id role : String) (hid : isMachineId task_id)
    (hrole : (role : Text) ∈ _SPECIALIST_ROLES.map Text.ofString) (t : Phase) :
    WellShaped exactPython (taskEvent task_id role t) :=
  ⟨_, rfl, .inr ⟨("plan-1", task_id), ⟨"root-1", role, t⟩,
    { fields := .inl rfl, plan_id := ⟨rfl, rfl⟩, task_id := ⟨rfl, hid⟩
      parent_task_id := ⟨rfl, rfl⟩, role := ⟨rfl, hrole⟩, status := rfl
      call_count := ⟨1, by decide, rfl⟩, duration_ms := .inl rfl, error_code := .inl rfl }⟩⟩

lemma twoTasks_shape : ∀ v ∈ twoTasks, WellShaped exactPython v := by
  have hlistings := taskEvent_shape "t1" "listings" (by decide) (by decide)
  have hmobility := taskEvent_shape "t2" "mobility" (by decide) (by decide)
  simp only [twoTasks, List.forall_mem_cons, List.not_mem_nil, false_imp_iff, implies_true,
    and_true]
  refine ⟨hlistings _, hmobility _, hlistings _, hmobility _, ?_, hlistings _⟩
  exact ⟨_, rfl, .inl ⟨rfl, by decide, by decide, by decide⟩⟩

def firstTask : TaskId := ("plan-1", "t1")

def secondTask : TaskId := ("plan-1", "t2")

lemma twoTasks_complete : Streams.Interleaves CompleteTrace (transitions twoTasks) := by
  have hfirst : CompleteTrace (Streams.of firstTask (transitions twoTasks)) :=
    ⟨.inr (by decide), by unfold Transition.OneIdentity Transition.Agrees; decide⟩
  have hsecond : CompleteTrace (Streams.of secondTask (transitions twoTasks)) :=
    ⟨.inr (by decide), by unfold Transition.OneIdentity Transition.Agrees; decide⟩
  have hkeys : ∀ x ∈ transitions twoTasks, x.1 = firstTask ∨ x.1 = secondTask := by decide
  intro k
  by_cases hk₁ : k = firstTask
  · exact hk₁ ▸ hfirst
  by_cases hk₂ : k = secondTask
  · exact hk₂ ▸ hsecond
  have hnone : Streams.of k (transitions twoTasks) = [] := by
    refine Streams.of_eq_nil.2 fun x hx hxk => ?_
    rcases hkeys x hx with h | h
    · exact hk₁ (hxk.symm.trans h)
    · exact hk₂ (hxk.symm.trans h)
  rw [hnone]
  exact ⟨.inl rfl, by simp [Transition.OneIdentity]⟩

lemma twoTasks_accounts (dropped : Int) : Accounts (twoTasksBlock dropped) twoTasks where
  phase s := by cases s <;> rfl
  denied_calls := rfl
  max_in_flight := ⟨1, rfl, by decide⟩

theorem twoTasks_accepted :
    Streams.Interleaves CompleteTrace (transitions twoTasks) ∧ Accounts (twoTasksBlock 0) twoTasks ∧
      (count? (twoTasksBlock 0) "dropped_error_codes").isSome :=
  (validate_specialist_eq_nil_iff exactPython rfl rfl twoTasks_shape).1 (by decide +kernel)

/-- A count of dropped codes that is negative is reported, of a stream that is legal and of counters
that agree with it. -/
theorem negative_dropped_reported :
    field (twoTasksBlock (-1)) "events" = .arr twoTasks ∧
      field (twoTasksBlock (-1)) "events_truncated" = .bool false ∧
      (∀ v ∈ twoTasks, WellShaped exactPython v) ∧
      ¬ (_validate_specialist exactPython (.obj (twoTasksBlock (-1))) false = .ok [] ↔
        Streams.Interleaves CompleteTrace (transitions twoTasks) ∧
          Accounts (twoTasksBlock (-1)) twoTasks) := by
  have hreported : _validate_specialist exactPython (.obj (twoTasksBlock (-1))) false ≠ .ok [] := by
    decide +kernel
  exact ⟨rfl, rfl, twoTasks_shape, fun h => hreported (h.2 ⟨twoTasks_complete, twoTasks_accounts _⟩)⟩

end RentCompass.Canary
