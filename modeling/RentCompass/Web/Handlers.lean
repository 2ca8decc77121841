import RentCompass.Store.SingleFlight

/-!
# The exits of the turn handlers

`api_alex` and `api_search_direct` start a turn and have to end it on every way out: they return or
raise, their work is cancelled, their payload refused, their snapshot not built, their last
transaction fails. A `Script` says how each step of a run turns out; while a handler works, and
before it cleans up after a failed transaction, others act on the store.
-/

namespace RentCompass.Web

open Store

/-- How a call that is awaited, or may raise, turns out. -/
inductive Awaited (α : Type) where
  | returned (a : α)
  | raised
  | cancelled

def Awaited.bind {α β : Type} (x : Awaited α) (f : α → Awaited β) : Awaited β :=
  match x with
  | .returned a => f a
  | .raised => .raised
  | .cancelled => .cancelled

/-- A response payload: what the store is given of it, and the rest. -/
structure Payload where
  responseType : Text
  message : Text
  recommendations : Option PyObj
  responseMetadata : Option PyObj
  rest : PyObj

/-- The point at which the database fails `finalize_request_turn`, if it does. After the commit the
turn is read back, and that read may raise. -/
inductive Fault where
  | none
  | beforeCommit
  | afterCommit
deriving DecidableEq

/-- How the steps of a run turn out, and when its transactions run. -/
structure Script where
  replyZh : Bool
  /-- The scan of the serialised payload hits, or raises. -/
  scanHit : Bool
  /-- The snapshot that is built; none when that raises. -/
  snapshot : Option SnapshotArg
  backgroundJobs : List JobSpec
  viewStateRaises : Bool
  fault : Fault
  finalizeAt : Instant
  failAt : Instant
  /-- Something raises after the turn has been finalised. -/
  responseRaises : Bool

/-- How a handler is left. -/
inductive Exit where
  | returned (status : Nat)
  | raised
deriving DecidableEq

/-- The world when a handler is left, and whether the session cache of its process may still hold
the slice of the conversation. -/
structure Handled where
  world : World
  cached : Bool
  exit : Exit

/-! ### The steps the handlers share -/

/-- `dsml_guard.fallback_text`. -/
def fallbackText (zh : Bool) : Text :=
  if zh then Text.ofString "抱歉，这条回复没能正常生成。可以再说一次你想找的区域和预算吗？我再帮你查一次。"
  else Text.ofString ("Sorry — I couldn't put that answer together properly. " ++
    "Could you tell me the area and budget you're looking for so I can try again?")

def serialisable : PyObj → Bool
  | .json _ => true
  | .unserialisable => false

/-- `json.dumps` accepts the payload. -/
def Payload.serialisable (p : Payload) : Bool :=
  p.recommendations.all Web.serialisable && p.responseMetadata.all Web.serialisable &&
    Web.serialisable p.rest

/-- What is different at the two endpoints. -/
structure Endpoint where
  /-- What stands for the recommendations of an error. -/
  noRecommendations : Option PyObj
  executionFailed : Bool → Text
  unsaved : Bool → Text
  sendsMetadata : Bool

def Endpoint.errorPayload (e : Endpoint) (message : Text) : Payload where
  responseType := errorType
  message := message
  recommendations := e.noRecommendations
  responseMetadata := none
  rest := .json (.obj [])

/-- `_guard_payload_before_persistence`: the payload to persist and whether it was blocked; none
when it is not serialisable. -/
def Endpoint.guardPayload (e : Endpoint) (s : Script) (p : Payload) : Option (Payload × Bool) :=
  if !p.serialisable then none
  else if s.scanHit then some (e.errorPayload (fallbackText s.replyZh), true)
  else some (p, false)

/-- What a handler is about to persist. -/
structure Conclusion where
  payload : Payload
  terminalFailed : Bool
  serializationFailed : Bool
  snapshot : Option SnapshotArg

/-- From the payload of the work to the call of `finalize_request_turn`. -/
def Endpoint.conclude (e : Endpoint) (s : Script) (p : Payload) : Conclusion :=
  match e.guardPayload s p with
  | none =>
    { payload := e.errorPayload (Text.ofString "internal server error"), terminalFailed := true,
      serializationFailed := true, snapshot := none }
  | some (payload, blocked) =>
    if blocked ∨ payload.responseType = errorType then
      { payload := payload, terminalFailed := true, serializationFailed := false,
        snapshot := none }
    else match s.snapshot with
      | none =>
        { payload := e.errorPayload (e.unsaved s.replyZh), terminalFailed := true,
          serializationFailed := false, snapshot := none }
      | some snapshot =>
        { payload := payload, terminalFailed := false, serializationFailed := false,
          snapshot := some snapshot }

/-- The arguments of `finalize_request_turn`. -/
def Endpoint.finalizeArgs (e : Endpoint) (s : Script) (c : Conclusion) : FinalizeArgs where
  status := if c.terminalFailed then .failed else .completed
  assistantContent := c.payload.message
  responseType := some c.payload.responseType
  recommendations := c.payload.recommendations
  snapshot := c.snapshot
  snapshotSchemaVersion := 1
  backgroundJobs := if c.terminalFailed then [] else s.backgroundJobs
  responseMetadata := if e.sendsMetadata then c.payload.responseMetadata else none

/-- The call of `finalize_request_turn`: whether it returns, and the world after it. -/
def callFinalize (s : Script) (u : UserId) (tid : Id) (f : FinalizeArgs) (w : World) :
    Bool × World :=
  match s.fault with
  | .none => ((finalizeRequestTurn s.finalizeAt u tid f w.db).1.isOk,
      w.act (.finalizeRequestTurn s.finalizeAt u tid f))
  | .beforeCommit => (false, w)
  | .afterCommit => (false, w.act (.finalizeRequestTurn s.finalizeAt u tid f))

/-- `finalize_request_turn`, and `fail_turn` if it raises; others act in between. -/
def persist (s : Script) (u : UserId) (tid : Id) (f : FinalizeArgs) (others : List Action)
    (w : World) : Bool × World :=
  match callFinalize s u tid f w with
  | (true, w') => (true, w')
  | (false, w') => (false, (Runs.run World.act w' others).act (.failTurn s.failAt u tid))

/-- The end of both handlers, from the payload of the work on. -/
def Endpoint.finish (e : Endpoint) (s : Script) (u : UserId) (tid : Id) (p : Payload)
    (others : List Action) (w : World) : Handled :=
  let c := e.conclude s p
  if c.snapshot.isSome ∧ s.viewStateRaises then { world := w, cached := true, exit := .raised }
  else match persist s u tid (e.finalizeArgs s c) others w with
    | (false, w') => { world := w', cached := false, exit := .raised }
    | (true, w') =>
      { world := w'
        cached := !c.terminalFailed
        exit := if s.responseRaises then .raised
          else .returned (if c.serializationFailed then 500
            else if c.terminalFailed then 502 else 200) }

/-! ### The handlers, from the fresh turn on -/

def alexEndpoint : Endpoint where
  noRecommendations := none
  executionFailed := fun zh =>
    if zh then Text.ofString "抱歉，处理您的请求时出错了。请稍后再试。"
    else Text.ofString "Sorry, something went wrong while handling your request. Please try again."
  unsaved := fun zh =>
    if zh then Text.ofString "抱歉，无法可靠保存本轮结果，请稍后重试。"
    else Text.ofString "Sorry, this turn could not be saved reliably. Please try again."
  sendsMetadata := true

def searchEndpoint : Endpoint where
  noRecommendations := some (.json (.arr []))
  executionFailed := fun zh =>
    if zh then Text.ofString "抱歉，搜索房源时出错了。请稍后再试。"
    else Text.ofString "Sorry, something went wrong while searching. Please try again."
  unsaved := fun zh =>
    if zh then Text.ofString "抱歉，无法可靠保存搜索结果，请稍后重试。"
    else Text.ofString "Sorry, the search result could not be saved reliably. Please try again."
  sendsMetadata := false

/-- `api_alex` after a fresh start: `agent` is how `handle_with_react_agent` turns out, `others` what
happens to the store meanwhile. -/
def apiAlex (u : UserId) (tid : Id) (agent : Awaited Payload) (s : Script)
    (others others' : List Action) (w : World) : Handled :=
  let w := Runs.run World.act w others
  match agent with
  | .cancelled =>
    { world := (persist s u tid (cancellationArgs s.replyZh) others' w).2, cached := false,
      exit := .raised }
  | .raised =>
    alexEndpoint.finish s u tid (alexEndpoint.errorPayload (alexEndpoint.executionFailed s.replyZh))
      others' w
  | .returned payload => alexEndpoint.finish s u tid payload others' w

/-- `api_search_direct` after a fresh start: `search` is how `search_properties_impl` turns out,
none for a structured failure, and `validate` how the validation of its result does. -/
def apiSearchDirect (u : UserId) (tid : Id) (search : Awaited (Option Json))
    (validate : Json → Awaited Payload) (s : Script) (others others' : List Action) (w : World) :
    Handled :=
  let w := Runs.run World.act w others
  match search.bind fun result => result.elim .raised validate with
  -- the cancellation is recorded and raised again
  | .cancelled => { world := w, cached := true, exit := .raised }
  | .raised =>
    searchEndpoint.finish s u tid
      (searchEndpoint.errorPayload (searchEndpoint.executionFailed s.replyZh)) others' w
  | .returned payload => searchEndpoint.finish s u tid payload others' w

/-! ### The turn of a handler -/

/-- What others do: they neither finalise the turn nor fail it by its id. -/
def Foreign (tid : Id) : Action → Prop
  | .finalizeRequestTurn _ _ t _ => t ≠ tid
  | .failTurn _ _ t => t ≠ tid
  | _ => True

/-- The turn belongs to `u`, as long as it is there. -/
def Owned (u : UserId) (tid : Id) (w : World) : Prop :=
  tid < w.nextId ∧ ∀ t ∈ w.db.turns, t.id = tid → t.userId = u

/-- The turn has not been completed. -/
def Unfinished (tid : Id) (w : World) : Prop :=
  tid ∉ w.history.completed ∧ ∀ t ∈ w.db.turns, t.id = tid → t.status ≠ .completed

section Turn

variable {u : UserId} {tid : Id} {w : World}

lemma Owned.move {T : Terms} {w' : World} (h : Owned u tid w) (hmove : Move T w w') :
    Owned u tid w' := by
  obtain ⟨hlt, hown⟩ := h
  refine ⟨lt_of_lt_of_le hlt hmove.nextId_le, fun t' ht' hid => ?_⟩
  rcases hmove.turnOrigin ht' with hnew | ⟨t, ht, hid', hu, -, -⟩
  · exact absurd hlt (not_lt.2 (hid ▸ hnew))
  · exact hu ▸ hown t ht (hid'.trans hid)

lemma Owned.act (h : Owned u tid w) (a : Action) : Owned u tid (w.act a) :=
  Moves.preserve (fun _ _ hw hmove => hw.move hmove) (act_moves (w.meets_any a)) h

/-- The turn `tid` is completed by nobody. -/
def without (tid : Id) : Terms := ⟨True, False, fun t => t ≠ tid⟩

lemma Unfinished.move {w' : World} (hown : Owned u tid w) (h : Unfinished tid w)
    (hmove : Move (without tid) w w') : Unfinished tid w' := by
  obtain ⟨hhistory, hturns⟩ := h
  refine ⟨fun hmem => ?_, fun t' ht' hid hdone => ?_⟩
  · rcases hmove.completedGrow.2 tid hmem with hold | hnot
    · exact hhistory hold
    · exact hnot rfl
  · rcases hmove.turnOrigin ht' with hnew | ⟨t, ht, hid', -, hstatus, -⟩
    · exact absurd hown.1 (not_lt.2 (hid ▸ hnew))
    · rcases hstatus hdone with hold | hnot
      · exact hturns t ht (hid'.trans hid) hold
      · exact hnot hid

lemma Foreign.meets {a : Action} (h : Foreign tid a) : w.Meets (without tid) a := by
  cases a with
  | finalizeRequestTurn now u t f => exact fun _ => h
  | startRequestTurn => exact fun h => h.elim
  | failTurn => trivial
  | _ => trivial

lemma Unfinished.act (hown : Owned u tid w) (h : Unfinished tid w) {a : Action}
    (ha : Foreign tid a) : Unfinished tid (w.act a) :=
  (Moves.preserve (I := fun w => Owned u tid w ∧ Unfinished tid w)
    (fun _ _ hw hmove => ⟨hw.1.move hmove, hw.2.move hw.1 hmove⟩)
    (act_moves (w := w) (T := without tid) ha.meets) ⟨hown, h⟩).2

/-- Others leave the turn unfinished. -/
lemma Unfinished.run (hown : Owned u tid w) (h : Unfinished tid w) {others : List Action}
    (hothers : ∀ a ∈ others, Foreign tid a) :
    Owned u tid (Runs.run World.act w others) ∧ Unfinished tid (Runs.run World.act w others) :=
  Runs.run_preserves_along (I := fun w => Owned u tid w ∧ Unfinished tid w)
    (fun _ a hw ha => ⟨hw.1.act a, hw.2.act hw.1 ha⟩) ⟨hown, h⟩
    (Runs.along_of_forall World.act _ hothers)

/-- What was completed stays in the history. -/
lemma completed_run (h : tid ∈ w.history.completed) (as : List Action) :
    tid ∈ (Runs.run World.act w as).history.completed :=
  Runs.run_preserves (I := fun w : World => tid ∈ w.history.completed)
    (fun w a hw => Moves.preserve (fun _ _ hw hmove => hmove.completedGrow.1 hw)
      (act_moves (w.meets_any a)) hw) h as

/-! ### The two transactions -/

/-- A finish that does not close the turn changes nothing. -/
lemma finalize_of_not_closes {now : Instant} {f : FinalizeArgs} (h : w.closes now u tid f = false)
    (hdb : (finalizeRequestTurn now u tid f w.db).2 = w.db) :
    w.act (.finalizeRequestTurn now u tid f) = w := by
  simp only [World.act, World.finalize, h, hdb]
  simp

/-- What a call of `finalize_request_turn` does: it raises and changes nothing, finds the turn
ended and changes nothing, or ends the turn with the status it was given. -/
inductive Finalized (u : UserId) (tid : Id) (now : Instant) (f : FinalizeArgs) (w : World) : Prop
  | raised (hok : (finalizeRequestTurn now u tid f w.db).1.isOk = false)
      (hact : w.act (.finalizeRequestTurn now u tid f) = w)
  | ended (hok : (finalizeRequestTurn now u tid f w.db).1.isOk = true)
      (hact : w.act (.finalizeRequestTurn now u tid f) = w)
      (hended : ∃ t, w.db.turnOf u tid = some t ∧ t.status ≠ .running)
  | closed (hok : (finalizeRequestTurn now u tid f w.db).1.isOk = true)
      (hrun : ∃ t, w.db.turnOf u tid = some t ∧ t.status = .running)
      (hthere : ∃ t ∈ (w.act (.finalizeRequestTurn now u tid f)).db.turns, t.id = tid)
      (hstatus : ∀ t ∈ (w.act (.finalizeRequestTurn now u tid f)).db.turns, t.id = tid →
        t.status = f.status)
      (hhistory : (w.act (.finalizeRequestTurn now u tid f)).history.completed
        = w.history.completed ++ if f.status = .completed then [tid] else [])

lemma finalized (u : UserId) (tid : Id) (hflight : Flight w.nextId w.db) (now : Instant) (f : FinalizeArgs) :
    Finalized u tid now f w := by
  rcases finalizeRequestTurn_cases now u tid f w.db with
    ⟨e, h⟩ | ⟨turn, hturn, hclosed, h⟩ | ⟨turn, m, db, hfin, h⟩
  · have hok : (finalizeRequestTurn now u tid f w.db).1.isOk = false := by rw [h]; rfl
    exact .raised hok (finalize_of_not_closes (by simp [World.closes, hok]) (by rw [h]))
  · have hok : (finalizeRequestTurn now u tid f w.db).1.isOk = true := by rw [h]; rfl
    exact .ended hok (finalize_of_not_closes (by simp [World.closes, hturn, hclosed]) (by rw [h]))
      ⟨turn, hturn, hclosed⟩
  · have hok : (finalizeRequestTurn now u tid f w.db).1.isOk = true := by rw [h]; rfl
    have hcloses : w.closes now u tid f = true := by
      simp [World.closes, hfin.named, hfin.running, hok]
    obtain ⟨db₃, hpersist, rfl⟩ := hfin.persisted
    obtain ⟨snapshots, jobs, next, rfl⟩ := persistCompletion_ok hpersist
    obtain ⟨hu, hid⟩ := Rows.selectOne_holds hfin.named
    have hturns : (w.act (.finalizeRequestTurn now u tid f)).db.turns = Rows.updateWhere
        (fun t : Turn => t.userId = u ∧ t.id = tid ∧ t.status = .running)
        (fun t => { t with status := f.status, completedAt := some now,
                           assistantMessageId := some w.db.nextMessageId }) w.db.turns := by
      simp only [World.act, World.finalize, h]
      rfl
    refine .closed hok ⟨turn, hfin.named, hfin.running⟩ ?_ ?_ ?_
    · rw [hturns]
      refine ⟨_, Rows.mem_updateWhere.2 ⟨turn, Rows.selectOne_mem hfin.named, rfl⟩, ?_⟩
      rw [if_pos ⟨hu, hid, hfin.running⟩]
      exact hid
    · rw [hturns]
      intro t ht htid
      rcases Rows.mem_updateWhere_cases ht with ⟨hold, hnot⟩ | ⟨t₀, -, -, rfl⟩
      · -- the turn of that id is the one that is closed
        obtain rfl := hflight.turnIds.eq hold (Rows.selectOne_mem hfin.named) (htid.trans hid.symm)
        exact absurd ⟨hu, hid, hfin.running⟩ hnot
      · rfl
    · simp only [World.act, World.finalize, hcloses, true_and]

/-- After `fail_turn` of a turn of the user, it is not running and not completed. -/
lemma failed_act (hown : Owned u tid w) (now : Instant) :
    ∀ t ∈ (w.act (.failTurn now u tid)).db.turns, t.id = tid → t.status = .failed := by
  intro t ht hid
  rcases Rows.mem_updateWhere_cases ht with ⟨hold, hnot⟩ | ⟨t₀, ht₀, hp, rfl⟩
  · exact absurd ⟨hown.2 t hold hid, hid⟩ hnot
  · rfl

/-! ### How a handler is left -/

/-- The handler has ended its turn: it does not run, no lease names it, it is completed exactly if
`finalize_request_turn` committed it as completed, and unless it is, the slice of the conversation
has been dropped from the session cache. -/
structure Left (tid : Id) (x : Handled) : Prop where
  ended : ∀ t ∈ x.world.db.turns, t.id = tid → t.status ≠ .running
  unleased : ∀ l ∈ x.world.db.leases, l.turnId ≠ tid
  completed : (∃ t ∈ x.world.db.turns, t.id = tid ∧ t.status = .completed) ↔
    tid ∈ x.world.history.completed
  dropped : (∃ t ∈ x.world.db.turns, t.id = tid ∧ t.status = .completed) ∨ x.cached = false

/-- A failed turn whose slice was dropped. -/
lemma left_of_failed {x : Handled} (hw : x.world.Coherent)
    (hfailed : ∀ t ∈ x.world.db.turns, t.id = tid → t.status = .failed)
    (hhistory : tid ∉ x.world.history.completed) (hcached : x.cached = false) : Left tid x where
  ended := by
    intro t ht hid
    rw [hfailed t ht hid]
    decide
  unleased := by
    intro l hl hid
    obtain ⟨t, ht, htid, -, -, hrun⟩ := hw.flight.held l hl
    rw [hfailed t ht (htid.trans hid)] at hrun
    cases hrun
  completed := by
    refine ⟨?_, fun h => absurd h hhistory⟩
    rintro ⟨t, ht, hid, hdone⟩
    rw [hfailed t ht hid] at hdone
    cases hdone
  dropped := .inr hcached

/-- A turn that is left unfinished with its slice in the cache is not ended. -/
lemma not_left_of_unfinished {x : Handled} (h : Unfinished tid x.world) (hcached : x.cached = true) :
    ¬ Left tid x := by
  intro hleft
  rcases hleft.dropped with ⟨t, ht, hid, hdone⟩ | hdropped
  · exact h.2 t ht hid hdone
  · rw [hcached] at hdropped
    cases hdropped

lemma persist_returned {s : Script} {f : FinalizeArgs} {others : List Action}
    (hfault : s.fault = .none) (hok : (finalizeRequestTurn s.finalizeAt u tid f w.db).1.isOk = true) :
    persist s u tid f others w = (true, w.act (.finalizeRequestTurn s.finalizeAt u tid f)) := by
  simp only [persist, callFinalize, hfault, hok]

lemma persist_raised {s : Script} {f : FinalizeArgs} {others : List Action}
    (hfault : s.fault = .none)
    (hok : (finalizeRequestTurn s.finalizeAt u tid f w.db).1.isOk = false) :
    persist s u tid f others w = (false, (Runs.run World.act
      (w.act (.finalizeRequestTurn s.finalizeAt u tid f)) others).act (.failTurn s.failAt u tid)) := by
  simp only [persist, callFinalize, hfault, hok]

lemma persist_beforeCommit {s : Script} {f : FinalizeArgs} {others : List Action}
    (hfault : s.fault = .beforeCommit) : persist s u tid f others w
      = (false, (Runs.run World.act w others).act (.failTurn s.failAt u tid)) := by
  simp only [persist, callFinalize, hfault]

lemma persist_afterCommit {s : Script} {f : FinalizeArgs} {others : List Action}
    (hfault : s.fault = .afterCommit) :
    persist s u tid f others w = (false, (Runs.run World.act
      (w.act (.finalizeRequestTurn s.finalizeAt u tid f)) others).act (.failTurn s.failAt u tid)) := by
  simp only [persist, callFinalize, hfault]

/-- Where `finalize_request_turn` is called to complete the turn: the turn, if it is there, is still
running; or the call raises and has not committed. -/
def Script.Clean (s : Script) (u : UserId) (tid : Id) (f : FinalizeArgs) (w : World) : Prop :=
  match s.fault with
  | .none => ∀ t, w.db.turnOf u tid = some t → t.status = .running
  | .beforeCommit => True
  | .afterCommit => w.closes s.finalizeAt u tid f = false

/-- `fail_turn` after others have acted on a store in which the turn is unfinished. -/
lemma cleanup_spec (hw : w.Coherent) (hown : Owned u tid w) (hun : Unfinished tid w)
    {others : List Action} (hothers : ∀ a ∈ others, Foreign tid a) (now : Instant) :
    ((Runs.run World.act w others).act (.failTurn now u tid)).Coherent ∧
    (∀ t ∈ ((Runs.run World.act w others).act (.failTurn now u tid)).db.turns, t.id = tid →
      t.status = .failed) ∧
    tid ∉ ((Runs.run World.act w others).act (.failTurn now u tid)).history.completed := by
  obtain ⟨hown', hun'⟩ := hun.run hown hothers
  have hw' : (Runs.run World.act w others).Coherent :=
    Runs.run_preserves (fun _ a h => h.act a) hw others
  exact ⟨hw'.act _, failed_act hown' now, hun'.1⟩

/-- A turn that is to fail has failed after its last transaction. -/
lemma persist_failed {s : Script} {f : FinalizeArgs} (hw : w.Coherent) (hown : Owned u tid w)
    (hun : Unfinished tid w) {others : List Action} (hothers : ∀ a ∈ others, Foreign tid a)
    (hf : f.status = .failed) :
    (persist s u tid f others w).2.Coherent ∧
    (∀ t ∈ (persist s u tid f others w).2.db.turns, t.id = tid → t.status = .failed) ∧
    tid ∉ (persist s u tid f others w).2.history.completed := by
  have hclosed : ∀ now, (w.act (.finalizeRequestTurn now u tid f)).Coherent ∧
      Owned u tid (w.act (.finalizeRequestTurn now u tid f)) ∧
      Unfinished tid (w.act (.finalizeRequestTurn now u tid f)) := by
    intro now
    refine ⟨hw.act _, hown.act _, ?_⟩
    cases finalized u tid hw.flight now f with
    | raised hok hact => rw [hact]; exact hun
    | ended hok hact => rw [hact]; exact hun
    | closed hok hrun hthere hstatus hhistory =>
      rw [hf] at hstatus hhistory
      refine ⟨?_, fun t ht hid => ?_⟩
      · rw [hhistory]
        simpa using hun.1
      · rw [hstatus t ht hid]
        decide
  cases hfault : s.fault with
  | beforeCommit =>
    rw [persist_beforeCommit hfault]
    exact cleanup_spec hw hown hun hothers s.failAt
  | afterCommit =>
    obtain ⟨hw', hown', hun'⟩ := hclosed s.finalizeAt
    rw [persist_afterCommit hfault]
    exact cleanup_spec hw' hown' hun' hothers s.failAt
  | none =>
    cases finalized u tid hw.flight s.finalizeAt f with
    | raised hok hact =>
      rw [persist_raised hfault hok, hact]
      exact cleanup_spec hw hown hun hothers s.failAt
    | ended hok hact hended =>
      rw [persist_returned hfault hok, hact]
      refine ⟨hw, fun t ht hid => ?_, hun.1⟩
      obtain ⟨t', ht', hnot⟩ := hended
      obtain rfl := hw.flight.turnIds.eq ht (Rows.selectOne_mem ht')
        (hid.trans (Rows.selectOne_holds ht').2.symm)
      have hdone := hun.2 t ht hid
      cases hs : t.status with
      | running => exact absurd hs hnot
      | completed => exact absurd hs hdone
      | failed => rfl
    | closed hok hrun hthere hstatus hhistory =>
      obtain ⟨hw', -, hun'⟩ := hclosed s.finalizeAt
      rw [persist_returned hfault hok]
      exact ⟨hw', fun t ht hid => (hstatus t ht hid).trans hf, hun'.1⟩

/-- A turn that is to be completed is, or has failed with the call that was to complete it. -/
lemma persist_clean {s : Script} {f : FinalizeArgs} (hw : w.Coherent) (hown : Owned u tid w)
    (hun : Unfinished tid w) {others : List Action} (hothers : ∀ a ∈ others, Foreign tid a)
    (hf : f.status = .completed) (hclean : s.Clean u tid f w) :
    (persist s u tid f others w).2.Coherent ∧
    (((persist s u tid f others w).1 = true ∧
        (∃ t ∈ (persist s u tid f others w).2.db.turns, t.id = tid) ∧
        (∀ t ∈ (persist s u tid f others w).2.db.turns, t.id = tid → t.status = .completed) ∧
        tid ∈ (persist s u tid f others w).2.history.completed) ∨
      ((persist s u tid f others w).1 = false ∧
        (∀ t ∈ (persist s u tid f others w).2.db.turns, t.id = tid → t.status = .failed) ∧
        tid ∉ (persist s u tid f others w).2.history.completed)) := by
  have hcleanup := cleanup_spec hw hown hun hothers s.failAt
  unfold Script.Clean at hclean
  cases hfault : s.fault with
  | beforeCommit =>
    rw [persist_beforeCommit hfault]
    exact ⟨hcleanup.1, .inr ⟨rfl, hcleanup.2⟩⟩
  | afterCommit =>
    simp only [hfault] at hclean
    have hact : w.act (.finalizeRequestTurn s.finalizeAt u tid f) = w := by
      cases finalized u tid hw.flight s.finalizeAt f with
      | raised hok hact => exact hact
      | ended hok hact => exact hact
      | closed hok hrun =>
        obtain ⟨t, ht, hr⟩ := hrun
        simp [World.closes, hok, ht, hr] at hclean
    rw [persist_afterCommit hfault, hact]
    exact ⟨hcleanup.1, .inr ⟨rfl, hcleanup.2⟩⟩
  | none =>
    simp only [hfault] at hclean
    cases finalized u tid hw.flight s.finalizeAt f with
    | raised hok hact =>
      rw [persist_raised hfault hok, hact]
      exact ⟨hcleanup.1, .inr ⟨rfl, hcleanup.2⟩⟩
    | ended hok hact hended =>
      obtain ⟨t, ht, hnot⟩ := hended
      exact absurd (hclean t ht) hnot
    | closed hok hrun hthere hstatus hhistory =>
      rw [persist_returned hfault hok]
      refine ⟨hw.act (.finalizeRequestTurn s.finalizeAt u tid f), .inl ⟨rfl, hthere,
        fun t ht hid => (hstatus t ht hid).trans hf, ?_⟩⟩
      rw [hhistory, hf]
      simp

/-- Otherwise the call returns and has changed nothing, or the turn it has completed fails after
all. -/
lemma persist_unclean {s : Script} {f : FinalizeArgs} (others : List Action) (hw : w.Coherent)
    (hown : Owned u tid w) (hf : f.status = .completed) (hsnapshot : f.snapshot.isSome)
    {recommendations : Option Json} (hdumps : dumpsOption f.recommendations = .ok recommendations)
    (hclean : ¬ s.Clean u tid f w) :
    ((persist s u tid f others w).1 = true ∧ (persist s u tid f others w).2 = w) ∨
    ((persist s u tid f others w).1 = false ∧
      (∀ t ∈ (persist s u tid f others w).2.db.turns, t.id = tid → t.status = .failed) ∧
      tid ∈ (persist s u tid f others w).2.history.completed) := by
  unfold Script.Clean at hclean
  cases hfault : s.fault with
  | beforeCommit => simp [hfault] at hclean
  | afterCommit =>
    simp only [hfault] at hclean
    rw [persist_afterCommit hfault]
    refine .inr ⟨rfl, ?_⟩
    cases finalized u tid hw.flight s.finalizeAt f with
    | raised hok hact => simp [World.closes, hok] at hclean
    | ended hok hact hended =>
      obtain ⟨t, ht, hnot⟩ := hended
      simp [World.closes, ht, hnot] at hclean
    | closed hok hrun hthere hstatus hhistory =>
      have hown' : Owned u tid (Runs.run World.act
          (w.act (.finalizeRequestTurn s.finalizeAt u tid f)) others) :=
        Runs.run_preserves (fun _ a h => h.act a) (hown.act _) others
      refine ⟨failed_act hown' s.failAt, completed_run ?_ others⟩
      rw [hhistory, hf]
      simp
  | none =>
    simp only [hfault, not_forall] at hclean
    obtain ⟨t, ht, hnot⟩ := hclean
    cases finalized u tid hw.flight s.finalizeAt f with
    | raised hok hact =>
      -- the arguments pass, and the turn that has ended is returned
      have hreturns : finalizeRequestTurn s.finalizeAt u tid f w.db = (.ok (some t), w.db) := by
        have hsome : f.snapshot.isNone = false := Option.isNone_eq_false_iff.2 hsnapshot
        simp only [finalizeRequestTurn, hf, hdumps, finalizeBody, ht, if_pos hnot, transaction]
        simp [hsome]
      rw [hreturns] at hok
      cases hok
    | ended hok hact hended =>
      rw [persist_returned hfault hok, hact]
      exact .inl ⟨rfl, rfl⟩
    | closed hok hrun hthere hstatus hhistory =>
      obtain ⟨t', ht', hr⟩ := hrun
      rw [ht] at ht'
      exact absurd (Option.some.inj ht' ▸ hr) hnot

/-- When the last part of a handler ends the turn: the turn is to fail; or `view_state` does not
raise, and the call of `finalize_request_turn` goes as it should. -/
def Endpoint.Orderly (e : Endpoint) (s : Script) (u : UserId) (tid : Id) (p : Payload) (w : World) :
    Prop :=
  (e.conclude s p).terminalFailed = true ∨ s.viewStateRaises = false ∧
    s.Clean u tid (e.finalizeArgs s (e.conclude s p)) w

/-- A conclusion that is not a failure has a snapshot, and recommendations to store. -/
lemma Endpoint.conclude_cases (e : Endpoint) (s : Script) (p : Payload) :
    ((e.conclude s p).terminalFailed = true ∧ (e.conclude s p).snapshot = none) ∨
    ((e.conclude s p).terminalFailed = false ∧ (e.conclude s p).snapshot.isSome = true ∧
      (e.conclude s p).payload = p ∧ p.serialisable = true ∧ p.responseType ≠ errorType) := by
  unfold Endpoint.conclude
  cases hguard : e.guardPayload s p with
  | none => exact .inl ⟨rfl, rfl⟩
  | some guarded =>
    obtain ⟨payload, blocked⟩ := guarded
    dsimp only
    by_cases hfailed : blocked = true ∨ payload.responseType = errorType
    · rw [if_pos hfailed]
      exact .inl ⟨rfl, rfl⟩
    · rw [if_neg hfailed]
      cases s.snapshot with
      | none => exact .inl ⟨rfl, rfl⟩
      | some snapshot =>
        have hpassed : p.serialisable = true ∧ (payload = p ∨ blocked = true) := by
          unfold Endpoint.guardPayload at hguard
          cases hser : p.serialisable with
          | false => simp [hser] at hguard
          | true =>
            cases hscan : s.scanHit with
            | true =>
              simp only [hser, hscan] at hguard
              cases hguard
              exact ⟨rfl, .inr rfl⟩
            | false =>
              simp only [hser, hscan] at hguard
              cases hguard
              exact ⟨rfl, .inl rfl⟩
        obtain ⟨hnot, htype⟩ := not_or.1 hfailed
        obtain rfl := hpassed.2.resolve_right hnot
        exact .inr ⟨rfl, rfl, rfl, hpassed.1, htype⟩

lemma dumpsOption_of_serialisable {o : Option PyObj} (h : o.all serialisable = true) :
    ∃ j, dumpsOption o = .ok j := by
  cases o with
  | none => exact ⟨none, rfl⟩
  | some o =>
    cases o with
    | json j => exact ⟨some j, rfl⟩
    | unserialisable => simp [serialisable] at h

/-- The last part of a handler ends the turn exactly where it is orderly. -/
theorem Endpoint.finish_left (e : Endpoint) (s : Script) (p : Payload) (hw : w.Coherent)
    (hown : Owned u tid w) (hun : Unfinished tid w) {others : List Action}
    (hothers : ∀ a ∈ others, Foreign tid a) :
    Left tid (e.finish s u tid p others w) ↔ e.Orderly s u tid p w := by
  unfold Endpoint.finish Endpoint.Orderly
  rcases e.conclude_cases s p with ⟨hfailed, hnone⟩ | ⟨hgood, hsome, hpayload, hser, -⟩
  · -- the turn is to fail
    simp only [hfailed, hnone, Option.isSome_none, Bool.false_eq_true, false_and, if_false, true_or,
      iff_true]
    obtain ⟨hw', hturns, hhistory⟩ := persist_failed (s := s)
      (f := e.finalizeArgs s (e.conclude s p)) hw hown hun hothers (by simp [finalizeArgs, hfailed])
    generalize persist s u tid (e.finalizeArgs s (e.conclude s p)) others w = r at *
    obtain ⟨returned, w'⟩ := r
    cases returned with
    | false => exact left_of_failed hw' hturns hhistory rfl
    | true => exact left_of_failed hw' hturns hhistory rfl
  · simp only [hgood, hsome, Bool.false_eq_true, false_or, true_and]
    by_cases hview : s.viewStateRaises = true
    · rw [if_pos hview]
      refine iff_of_false (not_left_of_unfinished hun rfl) fun h => ?_
      rw [hview] at h
      exact absurd h.1 (by decide)
    · rw [if_neg hview]
      have hf : (e.finalizeArgs s (e.conclude s p)).status = .completed := by
        simp [finalizeArgs, hgood]
      by_cases hclean : s.Clean u tid (e.finalizeArgs s (e.conclude s p)) w
      · refine iff_of_true ?_ ⟨by simpa using hview, hclean⟩
        obtain ⟨hw', hcases⟩ := persist_clean hw hown hun hothers hf hclean
        generalize persist s u tid (e.finalizeArgs s (e.conclude s p)) others w = r at *
        obtain ⟨returned, w'⟩ := r
        rcases hcases with ⟨hret, ⟨t, ht, hid⟩, hdone, hmem⟩ | ⟨hret, hturns, hhistory⟩
        · obtain rfl : returned = true := hret
          have hdone' : ∃ t ∈ w'.db.turns, t.id = tid ∧ t.status = .completed :=
            ⟨t, ht, hid, hdone t ht hid⟩
          refine ⟨fun t ht hid => ?_, fun l hl hid => ?_, iff_of_true hdone' hmem, .inl hdone'⟩
          · rw [hdone t ht hid]
            decide
          · obtain ⟨t, ht, htid, -, -, hrun⟩ := hw'.flight.held l hl
            rw [hdone t ht (htid.trans hid)] at hrun
            cases hrun
        · obtain rfl : returned = false := hret
          exact left_of_failed hw' hturns hhistory rfl
      · refine iff_of_false ?_ fun h => hclean h.2
        have hargs : (e.finalizeArgs s (e.conclude s p)).recommendations = p.recommendations := by
          simp [finalizeArgs, hpayload]
        obtain ⟨j, hdumps⟩ := dumpsOption_of_serialisable (o := p.recommendations)
          (by simp only [Payload.serialisable, Bool.and_eq_true] at hser; exact hser.1.1)
        rcases persist_unclean others hw hown hf hsome (hargs ▸ hdumps) hclean with
          ⟨hret, hsame⟩ | ⟨hret, hturns, hmem⟩
        · generalize persist s u tid (e.finalizeArgs s (e.conclude s p)) others w = r at *
          obtain ⟨returned, w'⟩ := r
          obtain rfl : returned = true := hret
          obtain rfl : w' = w := hsame
          exact not_left_of_unfinished hun (by simp)
        · generalize persist s u tid (e.finalizeArgs s (e.conclude s p)) others w = r at *
          obtain ⟨returned, w'⟩ := r
          obtain rfl : returned = false := hret
          intro hleft
          obtain ⟨t, ht, hid, hdone⟩ := hleft.completed.2 hmem
          rw [hturns t ht hid] at hdone
          cases hdone

end Turn

/-! ### Every exit -/

/-- The history names drawn ids only. -/
lemma completed_below (as : List Action) :
    ∀ tid ∈ (World.after as).history.completed, tid < (World.after as).nextId := by
  refine (Runs.run_preserves (I := fun w : World => w.Coherent ∧
    ∀ tid ∈ w.history.completed, tid < w.nextId) ?_ ⟨World.coherent_empty, by simp [World.empty]⟩
    as).2
  intro w a hw
  refine Moves.preserve (I := fun w : World => w.Coherent ∧
    ∀ tid ∈ w.history.completed, tid < w.nextId) ?_ (act_moves (w.meets_any a)) hw
  rintro w w' ⟨hc, hbelow⟩ hmove
  refine ⟨hc.move hmove, fun tid h => lt_of_lt_of_le ?_ hmove.nextId_le⟩
  cases hmove with
  | quiet hsame => exact hbelow tid (hsame.completed ▸ h)
  | @finish now u t f turn m recommendations metadata hturn hrun hstatus hT hm =>
    rcases List.mem_append.1 h with h | h
    · exact hbelow tid h
    · split at h
      · obtain rfl := List.mem_singleton.1 h
        have hlt := hc.flight.turnsBelow turn (Rows.selectOne_mem hturn)
        rwa [(Rows.selectOne_holds hturn).2] at hlt
      · cases h
  | _ => exact hbelow tid h

/-- A fresh turn belongs to its user and is unfinished. -/
lemma unfinished_of_fresh {as : List Action} {p : Process} {now : Instant} {a : StartArgs}
    {s : StartedTurn} {db : Db} (hstart : startRequestTurn p now (World.after as).nextId a
      (World.after as).db = (.ok s, db)) (hfresh : s.replayed = false) :
    Owned a.userId s.turn.id ((World.after as).act (.startRequestTurn p now a)) ∧
      Unfinished s.turn.id ((World.after as).act (.startRequestTurn p now a)) := by
  obtain ⟨hdb, hhistory, hmem, hid, hu, hrun⟩ := start_fresh hstart hfresh
  have hw := (coherent_after as).act (.startRequestTurn p now a)
  have hturn : s.turn ∈ ((World.after as).act (.startRequestTurn p now a)).db.turns := hdb ▸ hmem
  have honly : ∀ t ∈ ((World.after as).act (.startRequestTurn p now a)).db.turns,
      t.id = s.turn.id → t = s.turn := fun t ht => hw.flight.turnIds.eq ht hturn
  refine ⟨⟨hw.flight.turnsBelow _ hturn, fun t ht htid => honly t ht htid ▸ hu⟩, fun h => ?_,
    fun t ht htid hdone => ?_⟩
  · rw [World.act, hhistory] at h
    exact lt_irrefl _ (hid ▸ completed_below as _ h)
  · rw [honly t ht htid, hrun] at hdone
    cases hdone

/-- An error payload ends as a failure. -/
lemma Endpoint.orderly_error (e : Endpoint) (s : Script) (u : UserId) (tid : Id) (w : World)
    (message : Text) : e.Orderly s u tid (e.errorPayload message) w := by
  rcases e.conclude_cases s (e.errorPayload message) with ⟨hfailed, -⟩ | ⟨-, -, -, -, hno⟩
  · exact .inl hfailed
  · exact absurd rfl hno

/-- `api_alex` ends the turn it has started on every exit, unless its agent has returned a payload
and the completion of the turn is not orderly. `api_search_direct` does under the same condition and
if its work is not cancelled. -/
theorem handlers_end_turn {as : List Action} {p : Process} {now : Instant} {a : StartArgs}
    {started : StartedTurn} {db : Db} (hstart : startRequestTurn p now (World.after as).nextId a
      (World.after as).db = (.ok started, db)) (hfresh : started.replayed = false) (s : Script)
    {others others' : List Action} (hothers : ∀ b ∈ others, Foreign started.turn.id b)
    (hothers' : ∀ b ∈ others', Foreign started.turn.id b) :
    (∀ agent, Left started.turn.id (apiAlex a.userId started.turn.id agent s others others'
        ((World.after as).act (.startRequestTurn p now a))) ↔
      ∀ payload, agent = .returned payload → alexEndpoint.Orderly s a.userId started.turn.id payload
        (Runs.run World.act ((World.after as).act (.startRequestTurn p now a)) others)) ∧
    ∀ search validate, Left started.turn.id (apiSearchDirect a.userId started.turn.id search validate
        s others others' ((World.after as).act (.startRequestTurn p now a))) ↔
      (search.bind fun result => result.elim .raised validate) ≠ .cancelled ∧
      ∀ payload, (search.bind fun result => result.elim .raised validate) = .returned payload →
        searchEndpoint.Orderly s a.userId started.turn.id payload
          (Runs.run World.act ((World.after as).act (.startRequestTurn p now a)) others) := by
  obtain ⟨hown₀, hun₀⟩ := unfinished_of_fresh hstart hfresh
  obtain ⟨hown, hun⟩ := hun₀.run hown₀ hothers
  have hw : (Runs.run World.act ((World.after as).act (.startRequestTurn p now a)) others).Coherent :=
    Runs.run_preserves (fun _ b h => h.act b) ((coherent_after as).act _) others
  constructor
  · intro agent
    unfold apiAlex
    cases agent with
    | returned payload =>
      refine (alexEndpoint.finish_left s payload hw hown hun hothers').trans ?_
      exact ⟨fun h p hp => by cases hp; exact h, fun h => h payload rfl⟩
    | raised =>
      refine (alexEndpoint.finish_left s _ hw hown hun hothers').trans (iff_of_true ?_ ?_)
      · exact alexEndpoint.orderly_error s _ _ _ _
      · exact fun payload h => by cases h
    | cancelled =>
      refine iff_of_true ?_ fun payload h => by cases h
      obtain ⟨hw', hturns, hhistory⟩ := persist_failed (s := s)
        (f := cancellationArgs s.replyZh) hw hown hun hothers' rfl
      exact left_of_failed hw' hturns hhistory rfl
  · intro search validate
    unfold apiSearchDirect
    cases search.bind fun result => result.elim .raised validate with
    | returned payload =>
      refine (searchEndpoint.finish_left s payload hw hown hun hothers').trans ?_
      exact ⟨fun h => ⟨by simp, fun p hp => by cases hp; exact h⟩, fun h => h.2 payload rfl⟩
    | raised =>
      refine (searchEndpoint.finish_left s _ hw hown hun hothers').trans (iff_of_true ?_ ?_)
      · exact searchEndpoint.orderly_error s _ _ _ _
      · exact ⟨by simp, fun payload h => by cases h⟩
    | cancelled =>
      refine iff_of_false (not_left_of_unfinished hun rfl) fun h => h.1 rfl

/-- A run without faults, its snapshot that of the turn. -/
def sampleScript (tid : Id) : Script where
  replyZh := false
  scanHit := false
  snapshot := some (.dict (sampleSnapshot tid))
  backgroundJobs := []
  viewStateRaises := false
  fault := .none
  finalizeAt := 1
  failAt := 2
  responseRaises := false

def samplePayload : Payload where
  responseType := Text.ofString "search"
  message := Text.ofString "Found 1 matching properties."
  recommendations := some (.json (.arr [.null]))
  responseMetadata := none
  rest := .json (.obj [])

/-- The first turn of a conversation, answered by either handler. -/
theorem handlers_end_turn_sample :
    Left 0 (apiAlex sampleStart.userId 0 (.returned samplePayload) (sampleScript 0) [] []
      ((World.after []).act (.startRequestTurn sampleProcess 0 sampleStart))) ∧
    Left 0 (apiSearchDirect sampleStart.userId 0 (.returned (some .null))
      (fun _ => .returned samplePayload) (sampleScript 0) [] []
      ((World.after []).act (.startRequestTurn sampleProcess 0 sampleStart))) := by
  obtain ⟨started, db, hstart, hfresh, hid⟩ : ∃ started db,
      startRequestTurn sampleProcess 0 (World.after []).nextId sampleStart (World.after []).db
        = (.ok started, db) ∧ started.replayed = false ∧ started.turn.id = 0 :=
    ⟨_, _, rfl, rfl, rfl⟩
  have hnone : ∀ b ∈ ([] : List Action), Foreign started.turn.id b := by simp
  have hend := handlers_end_turn hstart hfresh (sampleScript 0) hnone hnone
  rw [hid] at hend
  have hrun : ((((World.after []).act (.startRequestTurn sampleProcess 0 sampleStart)).db.turnOf
      sampleStart.userId 0).all fun t => t.status = .running) = true := by decide
  have hclean : ∀ f, (sampleScript 0).Clean sampleStart.userId 0 f
      ((World.after []).act (.startRequestTurn sampleProcess 0 sampleStart)) := by
    intro f t ht
    rw [ht] at hrun
    exact of_decide_eq_true hrun
  constructor
  · refine (hend.1 _).2 fun payload h => ?_
    cases h
    exact .inr ⟨rfl, hclean _⟩
  · refine (hend.2 _ _).2 ⟨by simp [Awaited.bind], fun payload h => ?_⟩
    cases h
    exact .inr ⟨rfl, hclean _⟩

/-- A cancelled search leaves its turn running. -/
theorem search_direct_cancelled :
    ¬ Left 0 (apiSearchDirect sampleStart.userId 0 .cancelled (fun _ => .raised) (sampleScript 0) []
      [] ((World.after []).act (.startRequestTurn sampleProcess 0 sampleStart))) := by
  intro hleft
  obtain ⟨t, ht, hid, hrun⟩ :
      ∃ t ∈ ((World.after []).act (.startRequestTurn sampleProcess 0 sampleStart)).db.turns,
        t.id = 0 ∧ t.status = .running := by decide
  exact hleft.ended t ht hid hrun

end RentCompass.Web
