import RentCompass.Canary.FailsClosed
import RentCompass.Canary.Recorder

/-!
# The lifecycles that the recorder keeps

The state of each task is the one its recorded transitions come to, and the counters are those of
all of them. What is recorded is legal as long as the calls come in order: the recorder takes the
start of a task that was not planned, and the end of one that was not started.
-/

namespace RentCompass.Canary

open Phase

/-! ### The transitions so far -/

/-- A task that was started and has not come to its end is in flight. -/
def isActive (t : List Phase) : Bool := decide (started ∈ t) && t.all fun s => !s.isTerminal

/-- The most tasks that were ever in flight. -/
def mostInFlight (l : List (TaskId × Transition)) : Nat :=
  Streams.peak (fun t => isActive (t.map Transition.phase)) l

/-- The task is what its transitions come to. -/
structure Task.Holds (task : Task) (t : List Transition) : Prop where
  identity : ∀ a ∈ t, a.parent = task.parent_task_id ∧ a.role = task.role
  seen : task.seen = t.map Transition.phase
  active : task.active = isActive (t.map Transition.phase)
  terminal : task.terminal = (t.map Transition.phase).any isTerminal

/-- The trace is what the transitions come to. -/
structure Recorded (s : Trace) (h : List (TaskId × Transition)) : Prop where
  fresh : ∀ k, s.tasks.lookup k = none → Streams.of k h = []
  task : ∀ k task, s.tasks.lookup k = some task → task.Holds (Streams.of k h)
  count : ∀ p, s.count p = countOf (· = p) h
  in_flight : s.in_flight = Streams.live (fun t => isActive (t.map Transition.phase)) h
  max_in_flight : s.max_in_flight = mostInFlight h
  events_total : s.events_total = h.length
  events : ∃ es : List LifecycleEvent, es.map (fun e => (e.key, e.transition)) = h ∧
    s.events = es.drop (es.length - _MAX_SPECIALIST_EVENTS)
  denied_events : s.denied_events.length = min _MAX_DENIED_EVENTS s.denied_events_total

lemma recorded_nil : Recorded {} [] where
  fresh _ _ := rfl
  task _ _ h := by cases h
  count _ := rfl
  in_flight := rfl
  max_in_flight := rfl
  events_total := rfl
  events := ⟨[], rfl, rfl⟩
  denied_events := rfl

/-! ### The tasks -/

section Lookup

variable {k k' : TaskId} {task : Task}

lemma lookup_map_put (tasks : List (TaskId × Task)) :
    (tasks.map fun p => if p.1 = k then (k, task) else p).lookup k' =
      if k' = k then (tasks.lookup k).map fun _ => task else tasks.lookup k' := by
  induction tasks with
  | nil => simp
  | cons p tasks ih =>
    rw [List.map_cons]
    by_cases hp : p.1 = k
    · rw [if_pos hp, List.lookup_cons, List.lookup_cons, List.lookup_cons, ih]
      by_cases hk : k' = k
      · simp [hk, hp]
      · simp [hk, hp, beq_false_of_ne hk]
    · rw [if_neg hp, List.lookup_cons, List.lookup_cons, List.lookup_cons, ih]
      by_cases hk : k' = k
      · rw [if_pos hk, hk, beq_false_of_ne (Ne.symm hp)]
        simp
      · simp [hk]

lemma lookup_putTask (tasks : List (TaskId × Task)) (k k' : TaskId) (task : Task) :
    (putTask tasks k task).lookup k' = if k' = k then some task else tasks.lookup k' := by
  rw [putTask]
  split_ifs with hmem hk hk
  · rw [lookup_map_put, if_pos hk]
    cases hlookup : tasks.lookup k with
    | some _ => rfl
    | none =>
      obtain ⟨p, hp, hpk⟩ := List.mem_map.1 hmem
      exact absurd hpk.symm (by simpa using List.lookup_eq_none_iff.1 hlookup p hp)
  · rw [lookup_map_put, if_neg hk]
  · subst hk
    have hnone : tasks.lookup k' = none := by
      rw [List.lookup_eq_none_iff]
      intro p hp
      have hne : p.1 ≠ k' := fun h => hmem (List.mem_map.2 ⟨p, hp, h⟩)
      simpa using hne.symm
    rw [List.lookup_append, hnone]
    simp
  · rw [List.lookup_append, List.lookup_cons, beq_false_of_ne hk]
    simp

end Lookup

/-! ### The rings -/

lemma push_drop {α : Type} (maxlen : Nat) (l : List α) (a : α) :
    push maxlen (l.drop (l.length - maxlen)) a =
      (l ++ [a]).drop ((l ++ [a]).length - maxlen) := by
  have happend : l.drop (l.length - maxlen) ++ [a] = (l ++ [a]).drop (l.length - maxlen) := by
    rw [List.drop_append_of_le_length (Nat.sub_le _ _)]
  rw [push, happend, List.drop_drop]
  congr 1
  simp only [List.length_drop, List.length_append, List.length_singleton]
  omega

lemma length_push {α : Type} (maxlen : Nat) (ring : List α) (a : α) :
    (push maxlen ring a).length = min maxlen (ring.length + 1) := by
  rw [push, List.length_drop, List.length_append, List.length_singleton]
  omega

/-! ### One transition -/

variable {py : Python} {s s' : Trace} {c : Call} {k : TaskId} {x : Transition}
  {h : List (TaskId × Transition)}

/-- The recorder has room for the task, or has it with this identity, and the task has not had the
status, has not come to its end, and is not planned after it was started. -/
def Trace.Admits (s : Trace) (k : TaskId) (x : Transition) : Prop :=
  match s.tasks.lookup k with
  | none => s.tasks.length < _MAX_SPECIALIST_TASKS_PER_TURN
  | some task => task.parent_task_id = x.parent ∧ task.role = x.role ∧ x.phase ∉ task.seen ∧
      task.terminal = false ∧ ¬ (x.phase = planned ∧ started ∈ task.seen)

/-- The task that a transition is recorded of. -/
structure Trace.Records (s : Trace) (k : TaskId) (x : Transition) (task : Task) : Prop where
  holds : ∀ h, Recorded s h → task.Holds (Streams.of k h)
  parent_task_id : task.parent_task_id = x.parent
  role : task.role = x.role
  unseen : x.phase ∉ task.seen
  running : task.terminal = false
  planned : ¬ (x.phase = planned ∧ started ∈ task.seen)

lemma Task.holds_new (x : Transition) (calls : Int) : (Task.new x calls).Holds [] where
  identity := by simp
  seen := rfl
  active := rfl
  terminal := rfl

/-- The recorder takes a transition that it admits. -/
lemma note_specialist_event_of_admits (py : Python) (hc : c.reading? = some (k, x))
    (hadmits : s.Admits k x) :
    ∃ task, note_specialist_event py s c =
      some (s.record task (c.event py k x task) (c.dropsCode x.phase)) ∧ s.Records k x task := by
  rw [Trace.Admits] at hadmits
  cases hlookup : s.tasks.lookup k with
  | none =>
    rw [hlookup] at hadmits
    refine ⟨.new x ((_call_count c.call_count).getD 0), ?_, ?_⟩
    · simp [note_specialist_event, hc, Trace.task?, hlookup, not_le.2 hadmits, Task.new]
    · exact { holds := fun h hs => hs.fresh k hlookup ▸ Task.holds_new x _, parent_task_id := rfl,
              role := rfl, unseen := by simp [Task.new], running := rfl,
              planned := by simp [Task.new] }
  | some task =>
    rw [hlookup] at hadmits
    obtain ⟨hparent, hrole, hunseen, hrunning, hplanned⟩ := hadmits
    refine ⟨task, ?_, ?_⟩
    · simp [note_specialist_event, hc, Trace.task?, hlookup, hparent, hrole, hunseen, hrunning,
        hplanned]
    · exact { holds := fun h hs => hs.task k task hlookup, parent_task_id := hparent,
              role := hrole, unseen := hunseen, running := hrunning, planned := hplanned }

lemma note_specialist_event_of_not_admits (hc : c.reading? = some (k, x))
    (hadmits : ¬ s.Admits k x) : note_specialist_event py s c = none := by
  rw [Trace.Admits] at hadmits
  cases hlookup : s.tasks.lookup k with
  | none =>
    rw [hlookup] at hadmits
    simp [note_specialist_event, hc, Trace.task?, hlookup, not_lt.1 hadmits]
  | some task =>
    rw [hlookup] at hadmits
    by_cases hidentity : task.parent_task_id ≠ x.parent ∨ task.role ≠ x.role
    · simp [note_specialist_event, hc, Trace.task?, hlookup, hidentity]
    · simp only [note_specialist_event, hc, Trace.task?, hlookup, hidentity, if_false,
        Option.bind_eq_bind, Option.bind_some]
      grind

/-! ### What is recorded -/

variable {task : Task} {t : List Transition}

/-- A phase that comes to the task moves it in or out of flight. -/
lemma isActive_concat {t : List Phase} {p : Phase} (hrunning : t.any isTerminal = false) :
    isActive (t ++ [p]) =
      if p = started then true else if p.isTerminal then false else isActive t := by
  have hall : (t.all fun s => !s.isTerminal) = true := by
    rw [List.all_eq_not_any_not]
    simpa using hrunning
  have hactive : isActive t = decide (started ∈ t) := by rw [isActive, hall, Bool.and_true]
  rw [hactive, isActive, List.all_append, hall]
  cases p <;> simp [isTerminal]

lemma Task.Holds.advance (ht : task.Holds t) (hparent : task.parent_task_id = x.parent)
    (hrole : task.role = x.role) (hrunning : task.terminal = false) (calls : Int) :
    (task.advance x.phase calls).Holds (t ++ [x]) := by
  have hrun : (t.map Transition.phase).any isTerminal = false := ht.terminal ▸ hrunning
  constructor
  case identity =>
    intro a ha
    rcases List.mem_append.1 ha with ha | ha
    · exact ht.identity a ha
    · rw [List.mem_singleton.1 ha]
      exact ⟨hparent.symm, hrole.symm⟩
  case seen => simp [Task.advance, ht.seen]
  case active =>
    rw [List.map_append, List.map_singleton, isActive_concat hrun, ← ht.active]
    rfl
  case terminal => simp [Task.advance, ht.terminal]

/-- A task that comes into flight adds one, and a task that leaves it takes one away. -/
lemma flight_eq (hs : Recorded s h) (ht : s.Records k x task) :
    s.flight task x.phase =
      Streams.live (fun t => isActive (t.map Transition.phase)) (h ++ [(k, x)]) := by
  have hholds := ht.holds h hs
  have hlive := Streams.live_concat (k := k) (e := x) (l := h)
    (p := fun t => isActive (t.map Transition.phase)) rfl
  have hrun : ((Streams.of k h).map Transition.phase).any isTerminal = false :=
    hholds.terminal ▸ ht.running
  rw [List.map_append, List.map_singleton, isActive_concat hrun, ← hholds.active,
    ← hs.in_flight] at hlive
  rw [Trace.flight]
  cases hactive : task.active <;> cases hphase : x.phase <;>
    simp [hactive, hphase, isTerminal] at hlive ⊢ <;> omega

lemma countOf_concat (q : Phase → Bool) :
    countOf q (h ++ [(k, x)]) = countOf q h + if q x.phase then 1 else 0 := by
  rw [countOf, countOf, List.countP_append, List.countP_singleton]

lemma Recorded.record (hs : Recorded s h) (ht : s.Records k x task) {e : LifecycleEvent}
    (hkey : e.key = k) (htransition : e.transition = x) (dropped : Bool) :
    Recorded (s.record task e dropped) (h ++ [(k, x)]) := by
  have hholds := ht.holds h hs
  constructor
  case fresh =>
    intro k' hnone
    rw [Trace.record, lookup_putTask, hkey] at hnone
    split_ifs at hnone with hk
    rw [Streams.of_concat_of_ne hk]
    exact hs.fresh k' hnone
  case task =>
    intro k' task' hsome
    rw [Trace.record, lookup_putTask, hkey, htransition] at hsome
    split_ifs at hsome with hk
    · obtain rfl := Option.some.inj hsome
      rw [hk, Streams.of_concat_self]
      exact hholds.advance ht.parent_task_id ht.role ht.running _
    · rw [Streams.of_concat_of_ne hk]
      exact hs.task k' task' hsome
  case count =>
    intro p
    rw [countOf_concat, Trace.record, htransition]
    by_cases hp : p = x.phase
    · subst hp
      simp [hs.count]
    · simp [hs.count, hp, Ne.symm hp]
  case in_flight =>
    rw [Trace.record, htransition]
    exact flight_eq hs ht
  case max_in_flight =>
    rw [Trace.record, htransition, mostInFlight, Streams.peak_concat, ← flight_eq hs ht,
      ← mostInFlight, ← hs.max_in_flight, Trace.flight]
    have hle : s.in_flight ≤ s.max_in_flight := by
      rw [hs.in_flight, hs.max_in_flight]
      exact Streams.live_le_peak _
    cases task.active <;> cases x.phase <;> simp [isTerminal] <;> omega
  case events_total => simp [Trace.record, hs.events_total]
  case events =>
    obtain ⟨es, hes, hring⟩ := hs.events
    refine ⟨es ++ [e], by simp [hes, hkey, htransition], ?_⟩
    rw [Trace.record, hring, push_drop]
  case denied_events => exact hs.denied_events

/-! ### Calls that are out of order -/

/-- What has to come before a phase. -/
def Prerequisites (seen : List Phase) : Phase → Prop
  | .planned => True
  | .started => planned ∈ seen
  | .skipped => planned ∈ seen ∧ started ∉ seen
  | _ => started ∈ seen

instance (seen : List Phase) : (p : Phase) → Decidable (Prerequisites seen p)
  | .planned => isTrue trivial
  | .started => inferInstanceAs (Decidable (planned ∈ seen))
  | .skipped => inferInstanceAs (Decidable (planned ∈ seen ∧ started ∉ seen))
  | .completed | .partials | .failed => inferInstanceAs (Decidable (started ∈ seen))

/-- A phase that a running task has not had may follow where what has to come before it has. -/
lemma follows_iff {t : List Phase} {p : Phase} (hlegal : Legal t) (hunseen : p ∉ t)
    (hrunning : t.any isTerminal = false) : Follows t p ↔ Prerequisites t p := by
  rcases legal_iff.1 hlegal with rfl | rfl | rfl | ⟨o, ho, rfl⟩ | rfl
  · cases p <;> decide
  · revert hunseen; cases p <;> decide
  · revert hunseen; cases p <;> decide
  · revert ho hrunning; cases o <;> simp [isOutcome, isTerminal]
  · exact absurd hrunning (by decide)

/-- The phases that the trace has of the task. -/
def Trace.seen (s : Trace) (k : TaskId) : List Phase := (s.tasks.lookup k).elim [] Task.seen

lemma Recorded.seen (hs : Recorded s h) (k : TaskId) :
    s.seen k = (Streams.of k h).map Transition.phase := by
  rw [Trace.seen]
  cases hlookup : s.tasks.lookup k with
  | none =>
    rw [hs.fresh k hlookup]
    rfl
  | some task => exact (hs.task k task hlookup).seen

lemma Trace.Records.unseen_of {task : Task} (ht : s.Records k x task) (hs : Recorded s h) :
    x.phase ∉ (Streams.of k h).map Transition.phase := (ht.holds h hs).seen ▸ ht.unseen

/-- A transition that is recorded keeps a task legal where what has to come before it has. -/
lemma legalTrace_concat_iff {task : Task} (hs : Recorded s h) (ht : s.Records k x task)
    (hlegal : LegalTrace (Streams.of k h)) :
    LegalTrace (Streams.of k h ++ [x]) ↔ Prerequisites (s.seen k) x.phase := by
  have hholds := ht.holds h hs
  have hagrees : ∀ a ∈ (Streams.of k h).head?, a.Agrees x := by
    intro a ha
    obtain ⟨hparent, hrole⟩ := hholds.identity a (List.mem_of_mem_head? ha)
    exact ⟨hparent.trans ht.parent_task_id, hrole.trans ht.role⟩
  rw [legalTrace_concat, and_iff_right hlegal, FollowsTrace, and_iff_left hagrees, hs.seen,
    follows_iff hlegal.1 (ht.unseen_of hs) (hholds.terminal ▸ ht.running)]

/-! ### Snapshots -/

/-- The transition of a lifecycle event. -/
def SnapshotEvent.transition? : SnapshotEvent → Option (TaskId × Transition)
  | .lifecycle e => some (e.key, e.transition)
  | .denied _ => none

/-- The transitions that the snapshot holds. -/
def Snapshot.transitions (snapshot : Snapshot) : List (TaskId × Transition) :=
  snapshot.events.filterMap SnapshotEvent.transition?

/-- The events of the snapshot are legal, and its counters are what they come to. -/
structure Snapshot.Sound (snapshot : Snapshot) : Prop where
  legal : Streams.Interleaves LegalTrace snapshot.transitions
  count : ∀ p, snapshot.count p = countOf (· = p) snapshot.transitions
  max_in_flight : snapshot.max_in_flight = mostInFlight snapshot.transitions

/-- The transition would break the legality of what the snapshot holds. -/
def Snapshot.Breaks (snapshot : Snapshot) (k : TaskId) (x : Transition) : Prop :=
  ¬ LegalTrace (Streams.of k snapshot.transitions ++ [x])

lemma transitions_specialist_snapshot (s : Trace) : (specialist_snapshot s).transitions =
    s.events.map fun e => (e.key, e.transition) := by
  have hlifecycle (es : List LifecycleEvent) :
      (es.map SnapshotEvent.lifecycle).filterMap SnapshotEvent.transition? =
        es.map fun e => (e.key, e.transition) := by
    rw [List.filterMap_map]
    exact congrFun List.filterMap_eq_map' es
  have hdenied (es : List DeniedEvent) :
      (es.map SnapshotEvent.denied).filterMap SnapshotEvent.transition? = [] := by
    simp [SnapshotEvent.transition?]
  rw [Snapshot.transitions, specialist_snapshot, List.filterMap_append, hlifecycle, hdenied,
    List.append_nil]

/-- A snapshot is not truncated as long as both rings hold all of their events. -/
lemma Recorded.not_truncated_iff (hs : Recorded s h) :
    (specialist_snapshot s).events_truncated = false ↔
      h.length ≤ _MAX_SPECIALIST_EVENTS ∧ s.denied_events_total ≤ _MAX_DENIED_EVENTS := by
  obtain ⟨es, hes, hring⟩ := hs.events
  have hlength : es.length = h.length := by rw [← hes, List.length_map]
  have hmost : s.events.length = min _MAX_SPECIALIST_EVENTS h.length := by
    rw [hring, List.length_drop, hlength]
    omega
  simp only [specialist_snapshot, Bool.or_eq_false_iff, decide_eq_false_iff_not, not_lt,
    hs.events_total, hmost, hs.denied_events]
  omega

lemma Recorded.transitions (hs : Recorded s h) (hle : h.length ≤ _MAX_SPECIALIST_EVENTS) :
    (specialist_snapshot s).transitions = h := by
  obtain ⟨es, hes, hring⟩ := hs.events
  have hlength : es.length = h.length := by rw [← hes, List.length_map]
  rw [transitions_specialist_snapshot, hring, hlength, Nat.sub_eq_zero_of_le hle, List.drop_zero,
    hes]

/-- Of what was recorded only the legality is not certain. -/
lemma Recorded.sound_iff (hs : Recorded s h) (hle : h.length ≤ _MAX_SPECIALIST_EVENTS) :
    (specialist_snapshot s).Sound ↔ Streams.Interleaves LegalTrace h := by
  constructor
  · intro hsound
    exact hs.transitions hle ▸ hsound.legal
  · intro hlegal
    constructor
    · rw [hs.transitions hle]
      exact hlegal
    · rw [hs.transitions hle]
      exact hs.count
    · rw [hs.transitions hle]
      exact hs.max_in_flight

/-! ### Runs of the recorder -/

variable {registered : List Text} {a : Note}

/-- While the snapshot holds every event, it is sound. -/
def Trace.Sound (s : Trace) : Prop :=
  (specialist_snapshot s).events_truncated = false → (specialist_snapshot s).Sound

/-- A call that would break what the snapshot holds changes nothing of it. -/
def Ignores (py : Python) (registered : List Text) (s : Trace) : Note → Prop
  | .event c => (specialist_snapshot s).events_truncated = false →
      ∀ k x, c.reading? = some (k, x) → (specialist_snapshot s).Breaks k x →
        specialist_snapshot (note py registered s (.event c)) = specialist_snapshot s
  | .denied _ _ => True

/-- A transition that the recorder admits comes after what has to come before it. -/
def InOrder (s : Trace) : Note → Prop
  | .event c => (specialist_snapshot s).events_truncated = false →
      ∀ k x, c.reading? = some (k, x) → s.Admits k x → Prerequisites (s.seen k) x.phase
  | .denied _ _ => True

lemma Recorded.sound_trace_iff (hs : Recorded s h) : s.Sound ↔
    (h.length ≤ _MAX_SPECIALIST_EVENTS ∧ s.denied_events_total ≤ _MAX_DENIED_EVENTS →
      Streams.Interleaves LegalTrace h) := by
  rw [Trace.Sound, hs.not_truncated_iff]
  exact forall_congr' fun hle => hs.sound_iff hle.1

/-- A denied dispatch leaves what is recorded of the tasks alone. -/
lemma Recorded.denied (hs : Recorded s h) (py : Python) (registered : List Text)
    (tool error_code : Value) :
    Recorded (note py registered s (.denied tool error_code)) h ∧
      s.denied_events_total ≤
        (note py registered s (.denied tool error_code)).denied_events_total := by
  rw [note]
  cases hnote : note_specialist_call_denied registered s tool error_code with
  | none => exact ⟨hs, le_rfl⟩
  | some s' =>
    simp only [note_specialist_call_denied, Option.bind_eq_bind, Option.bind_eq_some_iff,
      Option.pure_def, Option.some.injEq] at hnote
    obtain ⟨name, -, code, -, rfl⟩ := hnote
    refine ⟨{ hs with denied_events := ?_ }, Nat.le_succ _⟩
    simp only [Option.getD_some, length_push, hs.denied_events]
    omega

lemma note_event_of_none (hc : c.reading? = none) : note py registered s (.event c) = s := by
  simp [note, note_specialist_event, hc]

lemma note_event_of_not_admits (hc : c.reading? = some (k, x)) (hadmits : ¬ s.Admits k x) :
    note py registered s (.event c) = s := by
  rw [note, note_specialist_event_of_not_admits hc hadmits]
  rfl

/-- A call keeps the trace sound, and ignores what would break it. -/
def Keeps (py : Python) (registered : List Text) (s : Trace) (a : Note) : Prop :=
  Ignores py registered s a ∧ (note py registered s a).Sound

/-- A call that changes nothing does both, and is in order if its transition is not admitted. -/
lemma keeps_iff_of_unchanged (hsound : s.Sound) (hsame : note py registered s (.event c) = s)
    (hadmits : ∀ k x, c.reading? = some (k, x) → ¬ s.Admits k x) :
    Keeps py registered s (.event c) ↔ InOrder s (.event c) := by
  refine iff_of_true ⟨fun _ k x _ _ => by rw [hsame], hsame.symm ▸ hsound⟩ ?_
  exact fun _ k x hc hx => absurd hx (hadmits k x hc)

/-- A call whose transition is recorded does both exactly if it is in order. -/
lemma keeps_iff_of_record {task : Task} {e : LifecycleEvent} {dropped : Bool}
    (hs : Recorded s h) (hsound : s.Sound) (hc : c.reading? = some (k, x))
    (hadmits : s.Admits k x) (ht : s.Records k x task)
    (hnote : note py registered s (.event c) = s.record task e dropped)
    (htransition : e.transition = x) (hs' : Recorded (s.record task e dropped) (h ++ [(k, x)])) :
    Keeps py registered s (.event c) ↔ InOrder s (.event c) := by
  rw [Keeps, hnote, Ignores, InOrder, hs.not_truncated_iff, hnote, hs'.sound_trace_iff]
  by_cases hle : h.length ≤ _MAX_SPECIALIST_EVENTS ∧ s.denied_events_total ≤ _MAX_DENIED_EVENTS
  swap
  · refine iff_of_true ⟨fun h => absurd h hle, fun hle' => absurd ?_ hle⟩ fun h => absurd h hle
    rw [List.length_append] at hle'
    exact ⟨by omega, hle'.2⟩
  have hlegal := hs.sound_trace_iff.1 hsound hle
  have hprerequisites := legalTrace_concat_iff hs ht (hlegal k)
  constructor
  · rintro ⟨hignores, -⟩ - k' x' hc' hadmits'
    obtain ⟨rfl, rfl⟩ := Prod.mk.inj (Option.some.inj (hc.symm.trans hc'))
    by_contra hnot
    have hbreaks : (specialist_snapshot s).Breaks k x := by
      rw [Snapshot.Breaks, hs.transitions hle.1, hprerequisites]
      exact hnot
    have hcount := congrArg (fun snapshot => snapshot.count x.phase) (hignores hle k x hc hbreaks)
    simp [specialist_snapshot, Trace.record, htransition] at hcount
  · intro horder
    have hnext := hprerequisites.2 (horder hle k x hc hadmits)
    refine ⟨fun _ k' x' hc' hbreaks => ?_, fun _ => ?_⟩
    · obtain ⟨rfl, rfl⟩ := Prod.mk.inj (Option.some.inj (hc.symm.trans hc'))
      rw [Snapshot.Breaks, hs.transitions hle.1] at hbreaks
      exact absurd hnext hbreaks
    · rw [Streams.interleaves_concat legalTrace_concat]
      exact ⟨hlegal, ((legalTrace_concat _ _).1 hnext).2⟩

/-- One call keeps the trace sound and ignores what would break it, exactly if it is in order. -/
lemma keeps_iff (py : Python) (registered : List Text) (hs : Recorded s h) (hsound : s.Sound)
    (a : Note) :
    (Keeps py registered s a ↔ InOrder s a) ∧ ∃ h', Recorded (note py registered s a) h' := by
  cases a with
  | denied tool error_code =>
    obtain ⟨hs', htotal⟩ := hs.denied py registered tool error_code
    refine ⟨iff_of_true ⟨trivial, ?_⟩ trivial, h, hs'⟩
    rw [hs'.sound_trace_iff]
    exact fun hle => hs.sound_trace_iff.1 hsound ⟨hle.1, htotal.trans hle.2⟩
  | event c =>
    cases hc : c.reading? with
    | none =>
      have hsame : note py registered s (.event c) = s := note_event_of_none hc
      exact ⟨keeps_iff_of_unchanged hsound hsame fun k x hx => by simp [hc] at hx,
        h, hsame.symm ▸ hs⟩
    | some reading =>
      obtain ⟨k, x⟩ := reading
      by_cases hadmits : s.Admits k x
      · obtain ⟨task, hevent, ht⟩ := note_specialist_event_of_admits py hc hadmits
        have hs' := hs.record ht (e := c.event py k x task) rfl rfl (c.dropsCode x.phase)
        have hnote : note py registered s (.event c) =
            s.record task (c.event py k x task) (c.dropsCode x.phase) := by
          rw [note, hevent]
          rfl
        exact ⟨keeps_iff_of_record hs hsound hc hadmits ht hnote rfl hs', _, hnote.symm ▸ hs'⟩
      · have hsame : note py registered s (.event c) = s := note_event_of_not_admits hc hadmits
        refine ⟨keeps_iff_of_unchanged hsound hsame fun k' x' hc' => ?_, h, hsame.symm ▸ hs⟩
        obtain ⟨rfl, rfl⟩ := Prod.mk.inj (Option.some.inj (hc.symm.trans hc'))
        exact hadmits

lemma along_iff (hs : Recorded s h) (hsound : s.Sound) (as : List Note) :
    Runs.Along (note py registered) (Keeps py registered) s as ↔
      Runs.Along (note py registered) InOrder s as := by
  induction as generalizing s h with
  | nil => exact Iff.rfl
  | cons a as ih =>
    obtain ⟨hkeeps, h', hs'⟩ := keeps_iff py registered hs hsound a
    rw [Runs.along_cons, Runs.along_cons, ← hkeeps]
    exact and_congr_right fun hka => ih hs' hka.2

/-- The snapshots of a turn that hold every event are sound, and the calls that would break them are
ignored, exactly if no call that the recorder admits is out of order. -/
theorem lifecycles_legal_iff (py : Python) (registered : List Text) (calls : List Note) :
    ((∀ n, (Runs.run (note py registered) {} (calls.take n)).Sound) ∧
      Runs.Along (note py registered) (Ignores py registered) {} calls) ↔
        Runs.Along (note py registered) InOrder {} calls := by
  have hsound : Trace.Sound {} :=
    recorded_nil.sound_trace_iff.2 fun _ => Streams.interleaves_nil legalTrace_nil
  rw [← Runs.along_and_iff_of_prefixes hsound]
  exact along_iff recorded_nil hsound calls

def strayTask : TaskId := ("plan-1", "task-1")

/-- The start of a task that was never planned. -/
def unplannedStart : Call where
  status := .str "started"
  plan_id := .str "plan-1"
  task_id := .str "task-1"
  parent_task_id := .str "root-1"
  role := .str "listings"

/-- The recorder takes it: the snapshot holds a task that was started and not planned. -/
theorem unplanned_start_recorded :
    (specialist_snapshot (note exactPython [] {} (.event unplannedStart))).transitions =
      [(strayTask, ⟨"root-1", "listings", started⟩)] ∧
    (specialist_snapshot (note exactPython [] {} (.event unplannedStart))).events_truncated =
      false ∧
    ¬ Streams.Interleaves LegalTrace
      (specialist_snapshot (note exactPython [] {} (.event unplannedStart))).transitions := by
  have htransitions :
      (specialist_snapshot (note exactPython [] {} (.event unplannedStart))).transitions =
        [(strayTask, ⟨"root-1", "listings", started⟩)] := by decide +kernel
  refine ⟨htransitions, by decide +kernel, fun hlegal => ?_⟩
  have htask := (hlegal strayTask).1
  rw [htransitions] at htask
  exact absurd htask (by decide)

end RentCompass.Canary
