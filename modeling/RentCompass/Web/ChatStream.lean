import RentCompass.Json.OneLine
import RentCompass.Runs
import RentCompass.Utf8

/-!
# The chat transport

A chat turn runs as a task beside the stream that tells the browser about it. The task's progress
callbacks reach the event loop in the order they were made; a stage is dropped when the queue is
full, the final response waits for a place. The stream sends what it takes from the queue, and a
comment when nothing came for ten seconds. Callbacks, task, stream and client take their steps in
any order.
-/

namespace RentCompass.Web.Chat

open JsonValue Utf8

variable {φ : Type} [FloatFormat φ]

/-! ### Events -/

/-- `progress.STAGES` -/
def STAGES : List Text :=
  ["understanding", "searching", "checking", "writing", "saving"].map Text.ofString

/-- What waits in the queue. -/
structure Event (φ : Type) where
  name : Text
  payload : JsonValue φ

def stepEvent (stage : Text) : Event φ :=
  ⟨Text.ofString "step", .obj [(Text.ofString "stage", .str stage)]⟩

def finalEvent (status : Int) (payload : JsonValue φ) : Event φ :=
  ⟨Text.ofString "final",
    .obj [(Text.ofString "status", .int status), (Text.ofString "payload", payload)]⟩

/-- `separators=(",", ":")` -/
def sseStyle : Style := ⟨0, 0, false⟩

/-- The payload as `sse` writes it. -/
def Event.data (e : Event φ) : Text := e.payload.dumps sseStyle

/-- The lines of an event, without the blank line behind them. -/
def Event.lines (e : Event φ) : Text :=
  Text.ofString "event: " ++ e.name ++ 10 :: (Text.ofString "data: " ++ e.data)

/-- The blank line that ends an event. -/
def blankLine : Text := [10, 10]

/-- The text of an event, before `.encode("utf-8")`. -/
def sse (e : Event φ) : Text := e.lines ++ blankLine

/-- `.encode("utf-8")` succeeds. -/
def Encodable (t : Text) : Prop := ∀ c ∈ t, Decoder.Scalar c

instance (c : Nat) : Decidable (Decoder.Scalar c) := inferInstanceAs (Decidable (_ ∧ _))

instance (t : Text) : Decidable (Encodable t) := inferInstanceAs (Decidable (∀ c ∈ t, _))

/-- What the stream yields. -/
inductive Frame (φ : Type) where
  | keepAlive
  | event (e : Event φ)

def Frame.lines : Frame φ → Text
  | .keepAlive => Text.ofString ": keep-alive"
  | .event e => e.lines

def Frame.event? : Frame φ → Option (Event φ)
  | .keepAlive => none
  | .event e => some e

/-! ### The endpoint -/

/-- The task that executes the turn. -/
inductive Execution (φ : Type) where
  | running
  /-- It waits for a place in the queue. -/
  | putting (final : Event φ)
  | returned
  /-- It raised, or was cancelled. -/
  | failed

def Execution.isDone : Execution φ → Bool
  | .returned | .failed => true
  | .running | .putting _ => false

/-- What answers the request. -/
inductive Reply where
  /-- `handle` waits for the first stage or for the task. -/
  | undecided
  /-- The task's own response. -/
  | plain
  | streaming
  /-- The wait for an event has timed out, and the stream is about to act on it. -/
  | timedOut
  /-- The stream has returned. -/
  | ended
  /-- An exception left the stream: the task's, or `UnicodeEncodeError`. -/
  | broken
  /-- The client is gone. -/
  | gone
  deriving DecidableEq

/-- `asyncio.Queue(maxsize=64)` -/
def maxEvents : Nat := 64

/-- A request that asked for `text/event-stream`. -/
structure Endpoint (φ : Type) where
  /-- Callbacks the loop has not run yet. -/
  scheduled : List Text
  ready : Bool
  closed : Bool
  events : List (Event φ)
  task : Execution φ
  reply : Reply
  sent : List (Frame φ)
  /-- Every stage that was reported, in order. -/
  reported : List Text
  /-- The response the task has put into the queue. -/
  answer : Option (Event φ)

def Endpoint.start : Endpoint φ where
  scheduled := []
  ready := false
  closed := false
  events := []
  task := .running
  reply := .undecided
  sent := []
  reported := []
  answer := none

inductive Action (φ : Type) where
  /-- `report_progress`, from the loop or from a worker thread. -/
  | report (stage : Text)
  /-- The loop runs the next callback. -/
  | publish
  /-- `_execute` has returned. -/
  | finish (status : Int) (payload : JsonValue φ)
  /-- `_execute` has raised, or the task is cancelled, or its body is no JSON. -/
  | fail
  /-- A place in the queue has become free. -/
  | resume
  /-- `asyncio.wait` has returned. -/
  | decide
  /-- `events.get()` has returned. -/
  | get
  /-- `events.get()` was not served in time. -/
  | timeout
  /-- The stream acts on the timeout. -/
  | wake
  | disconnect

namespace Endpoint

/-- `events.full()` -/
def full (s : Endpoint φ) : Prop := maxEvents ≤ s.events.length

instance (s : Endpoint φ) : Decidable s.full := inferInstanceAs (Decidable (_ ≤ _))

/-- The final event goes into the queue, and nothing after it. -/
def put (s : Endpoint φ) (final : Event φ) : Endpoint φ :=
  if s.full then { s with task := .putting final }
  else { s with events := s.events ++ [final], task := .returned, closed := true,
                answer := some final }

/-- `publish` -/
def publish (s : Endpoint φ) (stage : Text) (rest : List Text) : Endpoint φ :=
  if s.closed then { s with scheduled := rest }
  else if s.full then { s with scheduled := rest, ready := true }
  else { s with scheduled := rest, ready := true, events := s.events ++ [stepEvent stage] }

/-- One turn of the stream's loop, with an event. -/
def send (s : Endpoint φ) (e : Event φ) (rest : List (Event φ)) : Endpoint φ :=
  if Encodable (sse e) then
    if e.name = Text.ofString "final" then
      { s with events := rest, sent := s.sent ++ [.event e], reply := .ended }
    else { s with events := rest, sent := s.sent ++ [.event e] }
  else { s with events := rest, reply := .broken }

/-- One turn of the stream's loop, after a timeout. -/
def wake (s : Endpoint φ) : Endpoint φ :=
  match s.task with
  | .returned => { s with reply := .ended }
  | .failed => { s with reply := .broken }
  | .running | .putting _ => { s with sent := s.sent ++ [.keepAlive], reply := .streaming }

/-- A step; one that cannot be taken changes nothing. -/
def step (s : Endpoint φ) : Action φ → Endpoint φ
  | .report stage =>
    if stage ∈ STAGES then
      { s with scheduled := s.scheduled ++ [stage], reported := s.reported ++ [stage] }
    else s
  | .publish =>
    match s.scheduled with
    | [] => s
    | stage :: rest => s.publish stage rest
  | .finish status payload =>
    match s.task with
    | .running =>
      if s.ready then s.put (finalEvent status payload)
      else { s with task := .returned, closed := true }
    | _ => s
  | .fail =>
    match s.task with
    | .running | .putting _ => { s with task := .failed, closed := true }
    | _ => s
  | .resume =>
    match s.task with
    | .putting final => s.put final
    | _ => s
  | .decide =>
    if s.reply = .undecided ∧ (s.ready ∨ s.task.isDone) then
      if s.task.isDone ∧ ¬ s.ready then { s with reply := .plain }
      else { s with reply := .streaming }
    else s
  | .get =>
    match s.reply, s.events with
    | .streaming, e :: rest => s.send e rest
    | _, _ => s
  | .timeout => if s.reply = .streaming then { s with reply := .timedOut } else s
  | .wake => if s.reply = .timedOut then s.wake else s
  | .disconnect =>
    if s.reply = .undecided ∨ s.reply = .streaming ∨ s.reply = .timedOut then
      { s with reply := .gone }
    else s

/-- The events that were sent. -/
def delivered (s : Endpoint φ) : List (Event φ) := s.sent.filterMap Frame.event?

/-- The bytes that were sent. -/
def wire (s : Endpoint φ) : List Nat := Sha256.utf8 (s.sent.flatMap fun f => f.lines ++ blankLine)

end Endpoint

/-! ### What holds at any time -/

omit [FloatFormat φ] in
lemma name_stepEvent (stage : Text) :
    (stepEvent stage : Event φ).name ≠ Text.ofString "final" := by
  intro h
  simp [stepEvent] at h

omit [FloatFormat φ] in
lemma name_finalEvent (status : Int) (payload : JsonValue φ) :
    (finalEvent status payload).name = Text.ofString "final" := rfl

lemma data_stepEvent (stage : Text) : (stepEvent stage : Event φ).data =
    openObj :: (stringText (Text.ofString "stage") ++ colon :: stringText stage) ++ [closeObj] := by
  simp [stepEvent, Event.data, dumps, dumpsFields, Style.order, sseStyle, Style.field, Style.keySep]

lemma lines_stepEvent (stage : Text) : (stepEvent stage : Event φ).lines =
    Text.ofString "event: " ++ Text.ofString "step" ++ 10 :: (Text.ofString "data: " ++
      (openObj :: (stringText (Text.ofString "stage") ++ colon :: stringText stage) ++
        [closeObj])) := by
  rw [Event.lines, data_stepEvent]
  rfl

/-- The stages are ASCII, so is their text. -/
lemma encodable_stepEvent {stage : Text} (h : stage ∈ STAGES) :
    Encodable (sse (stepEvent stage : Event φ)) := by
  simp only [STAGES, List.map_cons, List.map_nil, List.mem_cons, List.not_mem_nil, or_false] at h
  rcases h with rfl | rfl | rfl | rfl | rfl <;> rw [sse, lines_stepEvent] <;> decide

namespace Endpoint

/-- What was sent and what waits are stages in the order they were reported, none twice, and then
the response. A response that cannot be encoded is taken and breaks the stream. -/
def InOrder (s : Endpoint φ) : Prop :=
  ∃ shown seen : List Text, s.reported = seen ++ s.scheduled ∧ shown.Sublist seen ∧
    (s.delivered ++ s.events = shown.map stepEvent ++ s.answer.toList ∨
      s.reply = .broken ∧ s.events = [] ∧ s.delivered = shown.map stepEvent ∧
        ∃ final, s.answer = some final ∧ ¬ Encodable (sse final))

structure Orderly (s : Endpoint φ) : Prop where
  bounded : s.events.length ≤ maxEvents
  stages : ∀ stage ∈ s.reported, stage ∈ STAGES
  inOrder : s.InOrder
  closed : s.closed = s.task.isDone
  answered : ∀ final, s.answer = some final → s.task = .returned ∧ s.ready = true ∧
    ∃ status payload, final = finalEvent status payload
  waiting : ∀ final, s.task = .putting final → s.ready = true ∧
    ∃ status payload, final = finalEvent status payload
  encodable : ∀ e, Frame.event e ∈ s.sent → Encodable (sse e)
  /-- The response ends the stream. -/
  last : ∀ e, Frame.event e ∈ s.sent → e.name = Text.ofString "final" →
    s.reply = .ended ∧ ∃ before, s.sent = before ++ [.event e] ∧
      ∀ d, Frame.event d ∈ before → d.name ≠ Text.ofString "final"
  idle : s.ready = false → s.events = [] ∧ s.answer = none
  /-- The plain response is for a turn that reported nothing in time. -/
  plain : s.reply = .plain → s.ready = false ∧ s.task.isDone
  quiet : s.reply = .undecided ∨ s.reply = .plain → s.sent = []

lemma orderly_start : (start : Endpoint φ).Orderly where
  bounded := by simp [start]
  stages := by simp [start]
  inOrder := ⟨[], [], rfl, List.Sublist.refl _, .inl rfl⟩
  closed := rfl
  answered := by simp [start]
  waiting := by simp [start]
  encodable := by simp [start]
  last := by simp [start]
  idle := fun _ => ⟨rfl, rfl⟩
  plain := by simp [start]
  quiet := fun _ => rfl

variable {s : Endpoint φ}

/-- Before the task has returned there is no response. -/
lemma Orderly.answer_eq_none (h : s.Orderly) (hclosed : s.closed = false) : s.answer = none := by
  cases hanswer : s.answer with
  | none => rfl
  | some final =>
    have htask := (h.answered final hanswer).1
    rw [h.closed, htask] at hclosed
    cases hclosed

/-- While there is no response, nothing is lost. -/
lemma InOrder.of_none (h : s.InOrder) (hanswer : s.answer = none) :
    ∃ shown seen : List Text, s.reported = seen ++ s.scheduled ∧ shown.Sublist seen ∧
      s.delivered ++ s.events = shown.map stepEvent := by
  obtain ⟨shown, seen, hreported, hshown, horder | ⟨-, -, -, final, hfinal, -⟩⟩ := h
  · rw [hanswer] at horder
    exact ⟨shown, seen, hreported, hshown, by simpa using horder⟩
  · rw [hanswer] at hfinal
    cases hfinal

lemma orderly_report (h : s.Orderly) (stage : Text) : (s.step (.report stage)).Orderly := by
  rw [step]
  split_ifs with hstage
  · obtain ⟨shown, seen, hreported, hshown, horder⟩ := h.inOrder
    refine { h with stages := ?_, inOrder := ⟨shown, seen, ?_, hshown, horder⟩ }
    · intro t ht
      rcases List.mem_append.1 ht with ht | ht
      · exact h.stages t ht
      · exact List.mem_singleton.1 ht ▸ hstage
    · simp only [hreported, List.append_assoc]
  · exact h

lemma orderly_publish (h : s.Orderly) : (s.step .publish).Orderly := by
  rw [step]
  split
  · exact h
  next stage rest hscheduled =>
  rw [publish]
  split_ifs with hclosed hfull
  · -- the task is done: the callback finds the queue closed
    obtain ⟨shown, seen, hreported, hshown, horder⟩ := h.inOrder
    rw [hscheduled] at hreported
    refine { h with inOrder := ⟨shown, seen ++ [stage], by simp [hreported], ?_, horder⟩ }
    exact hshown.trans (List.sublist_append_left _ _)
  all_goals
    have hnone := h.answer_eq_none (by simpa using hclosed)
    obtain ⟨shown, seen, hreported, hshown, horder⟩ := h.inOrder.of_none hnone
    rw [hscheduled] at hreported
    have hrunning : s.task.isDone = false := by
      rw [← h.closed]
      simpa using hclosed
  · -- the stage is dropped
    refine { h with
      inOrder := ⟨shown, seen ++ [stage], by simp [hreported], ?_, .inl ?_⟩
      answered := fun final hfinal => absurd (hnone ▸ hfinal) (by simp)
      waiting := fun final hfinal => ⟨rfl, (h.waiting final hfinal).2⟩
      idle := fun hready => absurd hready (by simp)
      plain := fun hplain => absurd (h.plain hplain).2 (by simp [hrunning]) }
    · exact hshown.trans (List.sublist_append_left _ _)
    · simp only [hnone, Option.toList_none, List.append_nil]
      exact horder
  · refine { h with
      bounded := ?_
      inOrder := ⟨shown ++ [stage], seen ++ [stage], by simp [hreported], ?_, .inl ?_⟩
      answered := fun final hfinal => absurd (hnone ▸ hfinal) (by simp)
      waiting := fun final hfinal => ⟨rfl, (h.waiting final hfinal).2⟩
      idle := fun hready => absurd hready (by simp)
      plain := fun hplain => absurd (h.plain hplain).2 (by simp [hrunning]) }
    · simp only [full, not_le] at hfull
      simpa using hfull
    · exact hshown.append_right _
    · simp only [hnone, Option.toList_none, List.append_nil, List.map_append, List.map_cons,
        List.map_nil, ← horder, ← List.append_assoc]
      rfl

/-- The final event is put, or waits for a place. -/
lemma orderly_put (h : s.Orderly) (hrunning : s.task.isDone = false) (hready : s.ready = true)
    (status : Int) (payload : JsonValue φ) : (s.put (finalEvent status payload)).Orderly := by
  have hclosed : s.closed = false := h.closed.trans hrunning
  have hnone := h.answer_eq_none hclosed
  have hplain : s.reply ≠ .plain := by
    intro hplain
    simp [(h.plain hplain).1] at hready
  rw [put]
  split_ifs with hfull
  · refine { h with
      closed := by simp [hclosed, Execution.isDone]
      answered := fun final hfinal => absurd (hnone ▸ hfinal) (by simp)
      waiting := fun final hfinal => ?_
      plain := fun hp => absurd hp hplain }
    cases hfinal
    exact ⟨hready, status, payload, rfl⟩
  · obtain ⟨shown, seen, hreported, hshown, horder⟩ := h.inOrder.of_none hnone
    refine { h with
      bounded := ?_
      inOrder := ⟨shown, seen, hreported, hshown, .inl ?_⟩
      closed := rfl
      answered := fun final hfinal => ?_
      waiting := fun final hfinal => by cases hfinal
      idle := fun hidle => absurd hidle (by simp [hready])
      plain := fun hp => absurd hp hplain }
    · simp only [full, not_le] at hfull
      simpa using hfull
    · simp only [Option.toList_some, ← horder, ← List.append_assoc]
      rfl
    · cases hfinal
      exact ⟨rfl, hready, status, payload, rfl⟩

lemma orderly_finish (h : s.Orderly) (status : Int) (payload : JsonValue φ) :
    (s.step (.finish status payload)).Orderly := by
  rw [step]
  split
  next hrunning =>
    split_ifs with hready
    · exact orderly_put h (by simp [hrunning, Execution.isDone]) hready status payload
    · have hidle := h.idle (by simpa using hready)
      exact { h with
        closed := rfl
        answered := fun final hfinal => absurd (hidle.2 ▸ hfinal) (by simp)
        waiting := fun final hfinal => by cases hfinal
        plain := fun hplain => ⟨(h.plain hplain).1, rfl⟩ }
  · exact h

lemma orderly_fail (h : s.Orderly) : (s.step .fail).Orderly := by
  have hfail : s.task.isDone = false →
      Orderly { s with task := .failed, closed := true } := by
    intro hrunning
    have hnone := h.answer_eq_none (h.closed.trans hrunning)
    exact { h with
      closed := rfl
      answered := fun final hfinal => absurd (hnone ▸ hfinal) (by simp)
      waiting := fun final hfinal => by cases hfinal
      plain := fun hplain => ⟨(h.plain hplain).1, rfl⟩ }
  rw [step]
  split
  next hrunning => exact hfail (by simp [hrunning, Execution.isDone])
  next final hputting => exact hfail (by simp [hputting, Execution.isDone])
  · exact h

lemma orderly_resume (h : s.Orderly) : (s.step .resume).Orderly := by
  rw [step]
  split
  next final hputting =>
    obtain ⟨hready, status, payload, rfl⟩ := h.waiting final hputting
    exact orderly_put h (by simp [hputting, Execution.isDone]) hready status payload
  · exact h

lemma orderly_decide (h : s.Orderly) : (s.step .decide).Orderly := by
  rw [step]
  split_ifs with hdecides hplain
  · exact { h with
      last := fun e he hname => absurd ((h.last e he hname).1 ▸ hdecides.1) (by simp)
      plain := fun _ => ⟨by simpa using hplain.2, hplain.1⟩
      quiet := fun _ => h.quiet (.inl hdecides.1)
      inOrder := by
        obtain ⟨shown, seen, hreported, hshown, horder | ⟨hbroken, -⟩⟩ := h.inOrder
        · exact ⟨shown, seen, hreported, hshown, .inl horder⟩
        · cases hdecides.1.symm.trans hbroken }
  · exact { h with
      last := fun e he hname => absurd ((h.last e he hname).1 ▸ hdecides.1) (by simp)
      plain := fun hp => by cases hp
      quiet := fun hq => by simp at hq
      inOrder := by
        obtain ⟨shown, seen, hreported, hshown, horder | ⟨hbroken, -⟩⟩ := h.inOrder
        · exact ⟨shown, seen, hreported, hshown, .inl horder⟩
        · cases hdecides.1.symm.trans hbroken }
  · exact h

/-- The reply moves on, and nothing else. -/
lemma orderly_reply (h : s.Orderly) (hreply : s.reply = .streaming ∨ s.reply = .timedOut ∨
    s.reply = .undecided) {reply : Reply} (hnew : reply = .timedOut ∨ reply = .gone ∨
    reply = .ended ∨ reply = .broken) : Orderly { s with reply := reply } where
  __ := h
  last := fun e he hname => by
    have := (h.last e he hname).1
    simp [this] at hreply
  plain := fun hp => by
    have hp : reply = .plain := hp
    simp [hp] at hnew
  quiet := fun hq => by
    have hq : reply = .undecided ∨ reply = .plain := hq
    rcases hq with rfl | rfl <;> simp at hnew
  inOrder := by
    obtain ⟨shown, seen, hreported, hshown, horder | ⟨hbroken, -⟩⟩ := h.inOrder
    · exact ⟨shown, seen, hreported, hshown, .inl horder⟩
    · simp [hbroken] at hreply

/-- Of two cuts of one list, the elements behind the shorter first part stand in the longer one. -/
lemma unencodable_last {shown : List Text} {e : Event φ} {delivered rest : List (Event φ)}
    {answer : Option (Event φ)} (hshown : ∀ stage ∈ shown, stage ∈ STAGES)
    (horder : delivered ++ e :: rest = shown.map stepEvent ++ answer.toList)
    (hbad : ¬ Encodable (sse e)) :
    rest = [] ∧ delivered = shown.map stepEvent ∧ answer = some e := by
  have hstep : e ∉ shown.map stepEvent := by
    intro he
    obtain ⟨stage, hstage, rfl⟩ := List.mem_map.1 he
    exact hbad (encodable_stepEvent (hshown stage hstage))
  rcases List.append_eq_append_iff.1 horder with ⟨more, hmore, hrest⟩ | ⟨more, hmore, hrest⟩
  · cases more with
    | nil =>
      rw [List.nil_append] at hrest
      cases answer with
      | none => cases hrest
      | some final =>
        cases hrest
        exact ⟨rfl, by simpa using hmore.symm, rfl⟩
    | cons d more =>
      rw [List.cons_append, List.cons.injEq] at hrest
      exact absurd (by simp [hmore, hrest.1]) hstep
  · have hnil : answer.toList = more ++ e :: rest := hrest
    cases answer with
    | none => simp at hnil
    | some final =>
      cases more with
      | nil =>
        simp only [Option.toList_some, List.nil_append, List.cons.injEq] at hnil
        exact ⟨hnil.2.symm, by simpa using hmore, by rw [hnil.1]⟩
      | cons d more => simp at hnil

lemma orderly_send (h : s.Orderly) (hreply : s.reply = .streaming) {e : Event φ}
    {rest : List (Event φ)} (hevents : s.events = e :: rest) : (s.send e rest).Orderly := by
  have hbounded : rest.length ≤ maxEvents := by
    have := h.bounded
    rw [hevents, List.length_cons] at this
    omega
  have hready : s.ready ≠ false := by
    intro hready
    simp [(h.idle hready).1] at hevents
  obtain ⟨shown, seen, hreported, hshown, horder | ⟨hbroken, -⟩⟩ := h.inOrder
  swap
  · rw [hreply] at hbroken
    cases hbroken
  rw [hevents] at horder
  have hfresh : ∀ d, Frame.event d ∈ s.sent → d.name ≠ Text.ofString "final" := by
    intro d hd hname
    have := (h.last d hd hname).1
    simp [hreply] at this
  have hencodable : Encodable (sse e) → ∀ d, Frame.event d ∈ s.sent ++ [.event e] →
      Encodable (sse d) := by
    intro he d hd
    rcases List.mem_append.1 hd with hd | hd
    · exact h.encodable d hd
    · cases List.mem_singleton.1 hd
      exact he
  have hsent : InOrder { s with events := rest, sent := s.sent ++ [.event e] } := by
    refine ⟨shown, seen, hreported, hshown, .inl ?_⟩
    rw [← horder]
    simp [delivered, Frame.event?]
  rw [send]
  split_ifs with hbad hfinal
  · exact { h with
      bounded := hbounded
      encodable := hencodable hbad
      inOrder := by
        obtain ⟨shown, seen, hreported, hshown, horder | ⟨hbroken, -⟩⟩ := hsent
        · exact ⟨shown, seen, hreported, hshown, .inl horder⟩
        · cases hreply.symm.trans hbroken
      last := fun d hd hname => by
        rcases List.mem_append.1 hd with hd | hd
        · exact absurd hname (hfresh d hd)
        · rw [List.mem_singleton.1 hd]
          exact ⟨rfl, s.sent, rfl, hfresh⟩
      idle := fun hidle => absurd hidle hready
      plain := fun hp => by cases hp
      quiet := fun hq => by simp at hq }
  · exact { h with
      bounded := hbounded
      encodable := hencodable hbad
      inOrder := hsent
      last := fun d hd hname => by
        rcases List.mem_append.1 hd with hd | hd
        · exact absurd hname (hfresh d hd)
        · cases List.mem_singleton.1 hd
          exact absurd hname hfinal
      idle := fun hidle => absurd hidle hready
      plain := fun hp => h.plain hp
      quiet := fun hq => by simp [hreply] at hq }
  · obtain ⟨rfl, hdelivered, hanswer⟩ := unencodable_last
      (fun stage hstage => h.stages stage (by
        rw [hreported]
        exact List.mem_append_left _ (hshown.subset hstage))) horder hbad
    exact { h with
      bounded := hbounded
      inOrder := ⟨shown, seen, hreported, hshown, .inr ⟨rfl, rfl, hdelivered, e, hanswer, hbad⟩⟩
      last := fun d hd hname => absurd hname (hfresh d hd)
      idle := fun hidle => absurd hidle hready
      plain := fun hp => by cases hp
      quiet := fun hq => by simp at hq }

lemma orderly_wake (h : s.Orderly) (hreply : s.reply = .timedOut) : s.wake.Orderly := by
  have hfresh : ∀ d, Frame.event d ∈ s.sent → d.name ≠ Text.ofString "final" := by
    intro d hd hname
    have := (h.last d hd hname).1
    simp [hreply] at this
  have hkeepAlive : Orderly { s with sent := s.sent ++ [.keepAlive], reply := .streaming } := by
    refine { h with
      inOrder := ?_
      encodable := fun d hd => h.encodable d (by simpa using hd)
      last := fun d hd hname => absurd hname (hfresh d (by simpa using hd))
      plain := fun hp => by cases hp
      quiet := fun hq => by simp at hq }
    obtain ⟨shown, seen, hreported, hshown, horder | ⟨hbroken, -⟩⟩ := h.inOrder
    · refine ⟨shown, seen, hreported, hshown, .inl ?_⟩
      rw [← horder]
      simp [delivered, Frame.event?]
    · cases hreply.symm.trans hbroken
  rw [wake]
  split
  · exact orderly_reply h (.inr (.inl hreply)) (by simp)
  · exact orderly_reply h (.inr (.inl hreply)) (by simp)
  · exact hkeepAlive
  · exact hkeepAlive

theorem orderly_step (h : s.Orderly) (a : Action φ) : (s.step a).Orderly := by
  cases a with
  | report stage => exact orderly_report h stage
  | publish => exact orderly_publish h
  | finish status payload => exact orderly_finish h status payload
  | fail => exact orderly_fail h
  | resume => exact orderly_resume h
  | decide => exact orderly_decide h
  | get =>
    rw [step]
    split
    next e rest hreply hevents => exact orderly_send h hreply hevents
    · exact h
  | timeout =>
    rw [step]
    split_ifs with hreply
    · exact orderly_reply h (.inl hreply) (by simp)
    · exact h
  | wake =>
    rw [step]
    split_ifs with hreply
    · exact orderly_wake h hreply
    · exact h
  | disconnect =>
    rw [step]
    split_ifs with hreply
    · refine orderly_reply h ?_ (by simp)
      rcases hreply with hreply | hreply | hreply <;> simp [hreply]
    · exact h

/-- Whatever steps are taken, in whatever order. -/
theorem orderly_run (actions : List (Action φ)) :
    (Runs.run step (start : Endpoint φ) actions).Orderly :=
  Runs.run_preserves (I := Orderly) (fun _ a h => orderly_step h a) orderly_start actions

end Endpoint

/-- Whatever steps the callbacks, the task, the stream and the client take: the queue keeps its
bound, the stream sends stages that were reported, in their order and none twice, and behind them
the response and nothing more; a response that was put is sent, waits, or cannot be encoded; and a
plain response is given only where nothing was sent and nothing waits. -/
theorem chat_stream_orderly (actions : List (Action φ)) :
    let s := Runs.run Endpoint.step (.start : Endpoint φ) actions
    s.events.length ≤ maxEvents ∧
      (∃ stages : List Text, stages.Sublist s.reported ∧ (∀ stage ∈ stages, stage ∈ STAGES) ∧
        s.delivered <+: stages.map stepEvent ++ s.answer.toList) ∧
      (∀ final, s.answer = some final → s.task = .returned ∧
        (final ∈ s.delivered ∨ final ∈ s.events ∨ s.reply = .broken ∧ ¬ Encodable (sse final))) ∧
      (∀ e, Frame.event e ∈ s.sent → e.name = Text.ofString "final" →
        s.reply = .ended ∧ ∃ before, s.sent = before ++ [.event e]) ∧
      (s.reply = .plain → s.sent = [] ∧ s.events = []) := by
  intro s
  have h : s.Orderly := Endpoint.orderly_run actions
  obtain ⟨shown, seen, hreported, hshown, horder⟩ := h.inOrder
  have hpart : shown.Sublist s.reported := by
    rw [hreported]
    exact hshown.trans (List.sublist_append_left _ _)
  refine ⟨h.bounded, ⟨shown, hpart, fun stage hstage => h.stages stage (hpart.subset hstage), ?_⟩,
    ?_, ?_, ?_⟩
  · rcases horder with horder | ⟨-, -, hdelivered, -⟩
    · rw [← horder]
      exact List.prefix_append _ _
    · rw [hdelivered]
      exact List.prefix_append _ _
  · intro final hanswer
    refine ⟨(h.answered final hanswer).1, ?_⟩
    rcases horder with horder | ⟨hbroken, -, -, other, hother, hbad⟩
    · have hmem : final ∈ s.delivered ++ s.events := by
        rw [horder, hanswer]
        simp
      rcases List.mem_append.1 hmem with hmem | hmem
      · exact .inl hmem
      · exact .inr (.inl hmem)
    · rw [hanswer] at hother
      cases hother
      exact .inr (.inr ⟨hbroken, hbad⟩)
  · intro e he hname
    obtain ⟨hended, before, hsent, -⟩ := h.last e he hname
    exact ⟨hended, before, hsent⟩
  · intro hplain
    exact ⟨h.quiet (.inr hplain), (h.idle (h.plain hplain).1).1⟩

end RentCompass.Web.Chat
