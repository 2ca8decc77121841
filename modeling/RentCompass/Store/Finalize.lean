import RentCompass.Transactions
import RentCompass.Store.Moves

/-!
# Finishing a turn, statement by statement

`finalize_request_turn` writes five tables, with checks between the writes, and any of its
statements may raise. Here it is run on the connection all users share: whichever statement
raises, either all of the finish is committed or none of it, and a turn that is closed already is
answered with what is stored. Without faults the call is the transaction `finalizeRequestTurn`
of the model of the store.
-/

namespace RentCompass.Store

open Transactions

/-- A write of a transaction, with the checks before it. -/
abbrev Write := Db → Except StoreError Db

/-- `UPDATE messages SET response_metadata_json=? WHERE id=?`. -/
def Db.setResponseMetadata (db : Db) (mid : Nat) (metadata : Json) : Db :=
  { db with
    messages := Rows.updateWhere (fun m : Message => m.id = mid)
      (fun m => { m with responseMetadataJson := some metadata }) db.messages }

/-- The assistant message goes in without its metadata, which are written into the row next. -/
def answerWrites (turn : Turn) (f : FinalizeArgs) (recommendations : Option Json) (mid : Nat)
    (now : Instant) : List Write :=
  (fun db => .ok (db.insertMessage (assistantMessage turn f recommendations none now))) ::
    match f.responseMetadata.filter PyObj.truthy with
    | none => []
    | some metadata => [fun db => (dumps metadata).map (db.setResponseMetadata mid)]

/-- `UPDATE turns …`, and the check of its row count. -/
def closeWrite (u : UserId) (tid : Id) (status : TurnStatus) (mid : Nat) (now : Instant) : Write :=
  fun db =>
    if db.turns.countP (fun t => t.userId = u ∧ t.id = tid ∧ t.status = .running) ≠ 1 then
      .error (.runtimeError "turn lost its running state during finalize")
    else .ok (db.closeTurn u tid status mid now)

/-- `INSERT OR REPLACE INTO turn_snapshots`. -/
def snapshotWrite (turn : Turn) (f : FinalizeArgs) (now : Instant) : Write :=
  fun db => match f.snapshot with
    | some (.dict snapshot) =>
      .ok (db.putSnapshot
        { turnId := turn.id, userId := turn.userId, conversationId := turn.conversationId,
          schemaVersion := f.snapshotSchemaVersion, snapshotJson := snapshot, createdAt := now })
    | _ => .error .typeError

/-- The snapshot and the jobs, one statement each. -/
def completionWrites (turn : Turn) (f : FinalizeArgs) (now : Instant) : List Write :=
  if f.status ≠ .completed then []
  else snapshotWrite turn f now ::
    f.backgroundJobs.map fun job => enqueueJobs turn.userId turn.conversationId turn.id now [job]

/-- The writes of a finish, in the order of the source. -/
def finalizeWrites (now : Instant) (u : UserId) (tid : Id) (f : FinalizeArgs)
    (recommendations : Option Json) (turn : Turn) (mid : Nat) : List Write :=
  answerWrites turn f recommendations mid now ++
    closeWrite u tid f.status mid now :: (completionWrites turn f now ++
      [fun db => .ok (db.releaseTurn u tid), fun db => .ok (db.touch u turn.conversationId now)])

/-- What the transaction writes, given what it reads first. -/
def finalizeStatements (now : Instant) (u : UserId) (tid : Id) (f : FinalizeArgs)
    (recommendations : Option Json) (db : Db) : Except StoreError (List Write) :=
  match db.turnOf u tid with
  | none => .error (.turnNotFound tid)
  | some turn =>
    if turn.status ≠ .running then .ok []
    else .ok (finalizeWrites now u tid f recommendations turn db.nextMessageId)

/-- `finalize_request_turn` on the shared connection: the checks before the lock, the critical
section, and `get_turn`. -/
def finalizeCall (faults : Nat → Option StoreError) (now : Instant) (u : UserId) (tid : Id)
    (f : FinalizeArgs) (k : Connection Db) : Except StoreError (Option Turn) × Connection Db :=
  if f.status = .running then (.error (.valueError "status must be completed or failed"), k)
  else if f.status = .completed ∧ f.snapshot.isNone then
    (.error (.valueError "completed request turns require a snapshot"), k)
  else match dumpsOption f.recommendations with
    | .error e => (.error e, k)
    | .ok recommendations =>
      match transact faults (finalizeStatements now u tid f recommendations) k with
      | (.error e, k') => (.error e, k')
      | (.ok _, k') => (.ok (k'.committed.turnOf u tid), k')

/-! ### What the writes come to -/

/-- The database with the assistant message. -/
def Db.answer (db : Db) (turn : Turn) (f : FinalizeArgs) (recommendations metadata : Option Json)
    (now : Instant) : Db :=
  let answered := db.insertMessage (assistantMessage turn f recommendations none now)
  match metadata with
  | none => answered
  | some json => answered.setResponseMetadata db.nextMessageId json

/-- The message an answer inserts is there with its metadata. -/
lemma Db.mem_answer (db : Db) (turn : Turn) (f : FinalizeArgs)
    (recommendations metadata : Option Json) (now : Instant) :
    { assistantMessage turn f recommendations metadata now with id := db.nextMessageId } ∈
      (db.answer turn f recommendations metadata now).messages := by
  unfold Db.answer
  cases metadata with
  | none => simp [Db.insertMessage]
  | some json =>
    refine Rows.mem_updateWhere.2 ⟨_, List.mem_append_right _ (List.mem_singleton.2 rfl), ?_⟩
    simp [assistantMessage]

/-- An answer touches messages. -/
lemma Db.answer_fields (db : Db) (turn : Turn) (f : FinalizeArgs)
    (recommendations metadata : Option Json) (now : Instant) :
    ∃ messages next, db.answer turn f recommendations metadata now =
      { db with messages := messages, nextMessageId := next } := by
  unfold Db.answer
  cases metadata with
  | none => exact ⟨_, _, rfl⟩
  | some json => exact ⟨_, _, rfl⟩

/-- Where message keys are below the next one, writing the metadata afterwards is inserting the
message with them. -/
lemma Db.answer_eq {db : Db} (hids : ∀ m ∈ db.messages, m.id < db.nextMessageId) (turn : Turn)
    (f : FinalizeArgs) (recommendations metadata : Option Json) (now : Instant) :
    db.answer turn f recommendations metadata now =
      db.insertMessage (assistantMessage turn f recommendations metadata now) := by
  unfold Db.answer
  cases metadata with
  | none => rfl
  | some json =>
    have hold : Rows.updateWhere (fun m : Message => m.id = db.nextMessageId)
        (fun m => { m with responseMetadataJson := some json }) db.messages = db.messages :=
      Rows.updateWhere_eq_self fun m hm => (hids m hm).ne
    simp only [Db.setResponseMetadata, Db.insertMessage, Rows.updateWhere, List.map_append]
    rw [Rows.updateWhere] at hold
    rw [hold]
    simp [assistantMessage]

lemma applyWrites_answer (db : Db) (turn : Turn) (f : FinalizeArgs)
    (recommendations : Option Json) (now : Instant) :
    applyWrites (answerWrites turn f recommendations db.nextMessageId now) db =
      (dumpsOption (f.responseMetadata.filter PyObj.truthy)).map
        (db.answer turn f recommendations · now) := by
  rw [answerWrites, applyWrites_cons]
  cases f.responseMetadata.filter PyObj.truthy with
  | none => rfl
  | some metadata =>
    simp only [Except.bind, applyWrites_cons, dumpsOption]
    cases dumps metadata with
    | error e => rfl
    | ok json => rfl

lemma enqueueJobs_cons (u : UserId) (cid tid : Id) (now : Instant) (job : JobSpec)
    (jobs : List JobSpec) (db : Db) :
    enqueueJobs u cid tid now (job :: jobs) db =
      (enqueueJobs u cid tid now [job] db).bind (enqueueJobs u cid tid now jobs) := by
  cases job with
  | notObject => rfl
  | badPayload kind => simp only [enqueueJobs]; split <;> rfl
  | job kind payload key =>
    simp only [enqueueJobs]
    split
    · rfl
    · cases dumps payload <;> rfl

lemma applyWrites_jobs (u : UserId) (cid tid : Id) (now : Instant) (jobs : List JobSpec) (db : Db) :
    applyWrites (jobs.map fun job => enqueueJobs u cid tid now [job]) db =
      enqueueJobs u cid tid now jobs db := by
  induction jobs generalizing db with
  | nil => rfl
  | cons job jobs ih =>
    rw [List.map_cons, applyWrites_cons, enqueueJobs_cons u cid tid now job jobs]
    cases enqueueJobs u cid tid now [job] db with
    | error e => rfl
    | ok db' => exact ih db'

lemma applyWrites_completion (turn : Turn) (f : FinalizeArgs) (now : Instant) (db : Db) :
    applyWrites (completionWrites turn f now) db = persistCompletion turn f now db := by
  unfold completionWrites persistCompletion
  split
  · rfl
  · rw [applyWrites, snapshotWrite]
    cases f.snapshot with
    | none => rfl
    | some s =>
      cases s with
      | unserialisable => rfl
      | dict snapshot => exact applyWrites_jobs _ _ _ _ _ _

/-- The writes of a finish are those of the transaction of the model, but for the check of the
row count. -/
lemma applyWrites_finalize (now : Instant) (u : UserId) (tid : Id) (f : FinalizeArgs)
    (recommendations : Option Json) (turn : Turn) (db : Db) :
    applyWrites (finalizeWrites now u tid f recommendations turn db.nextMessageId) db = do
      let metadata ← dumpsOption (f.responseMetadata.filter PyObj.truthy)
      let db₂ ← closeWrite u tid f.status db.nextMessageId now
        (db.answer turn f recommendations metadata now)
      let db₃ ← persistCompletion turn f now db₂
      return (db₃.releaseTurn u tid).touch u turn.conversationId now := by
  rw [finalizeWrites, applyWrites_append, applyWrites_answer]
  simp only [bind, Except.bind, pure, Except.pure]
  cases dumpsOption (f.responseMetadata.filter PyObj.truthy) with
  | error e => rfl
  | ok metadata =>
    simp only [Except.map]
    rw [applyWrites]
    cases closeWrite u tid f.status db.nextMessageId now
        (db.answer turn f recommendations metadata now) with
    | error e => rfl
    | ok db₂ =>
      simp only
      rw [applyWrites_append, applyWrites_completion]
      cases persistCompletion turn f now db₂ with
      | error e => rfl
      | ok db₃ => rfl

/-! ### What one commit holds -/

/-- A turn as a finish leaves it. -/
def Turn.close (t : Turn) (status : TurnStatus) (mid : Nat) (now : Instant) : Turn :=
  { t with status := status, completedAt := some now, assistantMessageId := some mid }

/-- The key a job is asked to be stored under. -/
def JobSpec.key (tid : Id) : JobSpec → Option Text
  | .job kind _ key => some (dedupeKeyOf tid (Text.strip kind) key)
  | _ => none

/-- The row of the outbox is the one the job asks for: pending, not tried yet. -/
def JobSpec.QueuedAs (turn : Turn) (now : Instant) (j : Job) : JobSpec → Prop
  | .job kind (.json payload) key =>
    j = { id := j.id, userId := turn.userId, conversationId := turn.conversationId,
          turnId := turn.id, kind := safeText (Text.strip kind),
          dedupeKey := dedupeKeyOf turn.id (Text.strip kind) key, payloadJson := payload,
          resultJson := none, status := .pending, attempts := 0, availableAt := now,
          claimedBy := none, leaseExpires := none, lastError := none, createdAt := now,
          updatedAt := now }
  | _ => False

/-- The outbox after a list of jobs: nothing is lost, every job of the list stands there under
its key, and what is new was asked for by the list. -/
structure Queued (turn : Turn) (now : Instant) (specs : List JobSpec) (jobs jobs' : List Job) :
    Prop where
  kept : jobs <+: jobs'
  every : ∀ spec ∈ specs, ∃ j ∈ jobs', j.userId = turn.userId ∧ spec.key turn.id = some j.dedupeKey
  added : ∀ j ∈ jobs', j ∈ jobs ∨ ∃ spec ∈ specs, spec.QueuedAs turn now j

/-- Everything a finish leaves in its one commit. -/
structure Committed (now : Instant) (f : FinalizeArgs) (turn : Turn) (db db' : Db) : Prop where
  message : ∃ recommendations metadata,
    dumpsOption f.recommendations = .ok recommendations ∧
    dumpsOption (f.responseMetadata.filter PyObj.truthy) = .ok metadata ∧
    { assistantMessage turn f recommendations metadata now with id := db.nextMessageId } ∈
      db'.messages
  closed : db'.turnOf turn.userId turn.id = some (turn.close f.status db.nextMessageId now)
  lease : ∀ l ∈ db'.leases, ¬ (l.userId = turn.userId ∧ l.turnId = turn.id)
  snapshot : f.status = .completed → ∃ snapshot, f.snapshot = some (.dict snapshot) ∧
    Rows.selectOne (fun s : TurnSnapshot => s.turnId = turn.id) db'.snapshots =
      some { turnId := turn.id, userId := turn.userId, conversationId := turn.conversationId,
             schemaVersion := f.snapshotSchemaVersion, snapshotJson := snapshot, createdAt := now }
  jobs : f.status = .completed → Queued turn now f.backgroundJobs db.jobs db'.jobs
  failed : f.status = .failed → db'.snapshots = db.snapshots ∧ db'.jobs = db.jobs

lemma Queued.nil (turn : Turn) (now : Instant) (jobs : List Job) : Queued turn now [] jobs jobs where
  kept := List.prefix_rfl
  every := by simp
  added := fun j hj => .inl hj

/-- One statement of the loop over the jobs. -/
lemma queued_enqueue (turn : Turn) (now : Instant) (kind : Text) (payload : Json)
    (key : Option Text) (db : Db) :
    Queued turn now [.job kind (.json payload) key] db.jobs
      (db.enqueue turn.userId turn.conversationId turn.id (safeText (Text.strip kind))
        (dedupeKeyOf turn.id (Text.strip kind) key) payload now).jobs := by
  unfold Db.enqueue
  split
  · next htaken =>
    obtain ⟨j, hj, hkey⟩ := List.any_eq_true.1 htaken
    simp only [decide_eq_true_eq] at hkey
    refine ⟨List.prefix_rfl, fun spec hspec => ?_, fun j hj => .inl hj⟩
    obtain rfl := List.mem_singleton.1 hspec
    exact ⟨j, hj, hkey.1, by rw [JobSpec.key, hkey.2]⟩
  · refine ⟨List.prefix_append _ _, fun spec hspec => ?_, fun j hj => ?_⟩
    · obtain rfl := List.mem_singleton.1 hspec
      exact ⟨_, List.mem_append_right _ (List.mem_singleton.2 rfl), rfl, rfl⟩
    · rcases List.mem_append.1 hj with hj | hj
      · exact .inl hj
      · refine .inr ⟨_, List.mem_singleton.2 rfl, ?_⟩
        obtain rfl := List.mem_singleton.1 hj
        rfl

lemma Queued.append {turn : Turn} {now : Instant} {specs specs' : List JobSpec}
    {jobs jobs' jobs'' : List Job} (h : Queued turn now specs jobs jobs')
    (h' : Queued turn now specs' jobs' jobs'') : Queued turn now (specs ++ specs') jobs jobs'' where
  kept := h.kept.trans h'.kept
  every := fun spec hspec => by
    rcases List.mem_append.1 hspec with hspec | hspec
    · obtain ⟨j, hj, hkey⟩ := h.every spec hspec
      exact ⟨j, h'.kept.subset hj, hkey⟩
    · exact h'.every spec hspec
  added := fun j hj => by
    rcases h'.added j hj with hj | ⟨spec, hspec, hasked⟩
    · rcases h.added j hj with hj | ⟨spec, hspec, hasked⟩
      · exact .inl hj
      · exact .inr ⟨spec, List.mem_append_left _ hspec, hasked⟩
    · exact .inr ⟨spec, List.mem_append_right _ hspec, hasked⟩

lemma enqueueJobs_queued {turn : Turn} {now : Instant} {specs : List JobSpec} {db db' : Db}
    (h : enqueueJobs turn.userId turn.conversationId turn.id now specs db = .ok db') :
    Queued turn now specs db.jobs db'.jobs := by
  induction specs generalizing db with
  | nil =>
    obtain rfl := Except.ok.inj h
    exact .nil turn now db.jobs
  | cons spec specs ih =>
    cases spec with
    | notObject => cases h
    | badPayload kind => simp only [enqueueJobs] at h; split at h <;> cases h
    | job kind payload key =>
      simp only [enqueueJobs] at h
      split at h
      · cases h
      · cases payload with
        | unserialisable => cases h
        | json payload => exact (queued_enqueue turn now kind payload key db).append (ih h)

/-- The turn a finish closes is found closed. -/
lemma turnOf_closeTurn {db : Db} {turn : Turn} {u : UserId} {tid : Id} (status : TurnStatus)
    (mid : Nat) (now : Instant) (hturn : db.turnOf u tid = some turn)
    (hrun : turn.status = .running) :
    (db.closeTurn u tid status mid now).turnOf u tid = some (turn.close status mid now) := by
  have hsel := Rows.selectOne_updateWhere (t := db.turns)
    (p := fun t : Turn => t.userId = u ∧ t.id = tid ∧ t.status = .running)
    (f := fun t => t.close status mid now) (q := fun t : Turn => t.userId = u ∧ t.id = tid)
    fun t => Iff.rfl
  rw [Db.turnOf] at hturn
  obtain ⟨hu, hid⟩ := Rows.selectOne_holds (p := fun t : Turn => t.userId = u ∧ t.id = tid) hturn
  refine hsel.trans ?_
  rw [hturn]
  simp [hu, hid, hrun]

/-- What a completed finish adds beside the message: its snapshot and its jobs. -/
lemma persistCompletion_completed {turn : Turn} {f : FinalizeArgs} {now : Instant} {db db' : Db}
    (hstatus : f.status = .completed) (h : persistCompletion turn f now db = .ok db') :
    ∃ snapshot, f.snapshot = some (.dict snapshot) ∧
      Rows.selectOne (fun s : TurnSnapshot => s.turnId = turn.id) db'.snapshots =
        some { turnId := turn.id, userId := turn.userId, conversationId := turn.conversationId,
               schemaVersion := f.snapshotSchemaVersion, snapshotJson := snapshot,
               createdAt := now } ∧
      Queued turn now f.backgroundJobs db.jobs db'.jobs := by
  unfold persistCompletion at h
  rw [if_neg (not_not.2 hstatus)] at h
  split at h
  · next snapshot hsnapshot =>
    have hqueued := enqueueJobs_queued h
    refine ⟨snapshot, hsnapshot, ?_, hqueued⟩
    obtain ⟨jobs, next, rfl⟩ := enqueueJobs_ok h
    exact Rows.selectOne_replaced rfl
  · cases h

/-- Writes that all went through leave everything a finish is to leave. -/
lemma committed_of_applyWrites {now : Instant} {u : UserId} {tid : Id} {f : FinalizeArgs}
    {recommendations : Option Json} {turn : Turn} {db db' : Db}
    (hrec : dumpsOption f.recommendations = .ok recommendations)
    (hturn : db.turnOf u tid = some turn) (hrun : turn.status = .running)
    (h : applyWrites (finalizeWrites now u tid f recommendations turn db.nextMessageId) db
      = .ok db') :
    Committed now f turn db db' := by
  rw [applyWrites_finalize] at h
  obtain ⟨hu, hid⟩ := Rows.selectOne_holds (p := fun t : Turn => t.userId = u ∧ t.id = tid) hturn
  subst hu hid
  simp only [bind, Except.bind, pure, Except.pure] at h
  split at h
  · cases h
  next metadata hmeta =>
  split at h
  · cases h
  next db₂ hclose =>
  split at h
  · cases h
  next db₃ hpersist =>
  obtain rfl := Except.ok.inj h
  have hdb₂ : db₂ = (db.answer turn f recommendations metadata now).closeTurn turn.userId turn.id
      f.status db.nextMessageId now := by
    unfold closeWrite at hclose
    split at hclose
    · cases hclose
    · exact (Except.ok.inj hclose).symm
  obtain ⟨messages, nextId, hanswer⟩ := db.answer_fields turn f recommendations metadata now
  have hmem := db.mem_answer turn f recommendations metadata now
  have hturns : db₂.turnOf turn.userId turn.id
      = some (turn.close f.status db.nextMessageId now) := by
    rw [hdb₂, hanswer]
    exact turnOf_closeTurn _ _ _ hturn hrun
  obtain ⟨snapshots, jobs, next, hdb₃⟩ := persistCompletion_ok hpersist
  constructor
  case message =>
    refine ⟨recommendations, metadata, hrec, hmeta, ?_⟩
    rw [hdb₃, hdb₂]
    exact hmem
  case closed =>
    rw [hdb₃]
    exact hturns
  case lease => exact fun l hl => (Rows.mem_deleteWhere.1 hl).2
  case snapshot =>
    intro hstatus
    obtain ⟨snapshot, hgiven, hrow, -⟩ := persistCompletion_completed hstatus hpersist
    exact ⟨snapshot, hgiven, hrow⟩
  case jobs =>
    intro hstatus
    obtain ⟨-, -, -, hjobs⟩ := persistCompletion_completed hstatus hpersist
    rw [hdb₂, hanswer] at hjobs
    exact hjobs
  case failed =>
    intro hstatus
    rw [persistCompletion, if_pos (by simp [hstatus])] at hpersist
    obtain rfl := Except.ok.inj hpersist
    rw [hdb₂, hanswer]
    exact ⟨rfl, rfl⟩

/-- The arguments pass the checks made before the turn is read. -/
def FinalizeArgs.Checked (f : FinalizeArgs) : Prop :=
  f.status ≠ .running ∧ (f.status = .completed → f.snapshot.isSome) ∧
    (dumpsOption f.recommendations).isOk

instance (f : FinalizeArgs) : Decidable f.Checked := by
  unfold FinalizeArgs.Checked
  infer_instance

/-- The call raises and commits nothing, or its critical section ran to its end. -/
lemma finalizeCall_cases (faults : Nat → Option StoreError) (now : Instant) (u : UserId) (tid : Id)
    (f : FinalizeArgs) (k : Connection Db) :
    (∃ e k', finalizeCall faults now u tid f k = (.error e, k') ∧ k'.committed = k.committed) ∨
    ∃ recommendations ws db', dumpsOption f.recommendations = .ok recommendations ∧
      f.status ≠ .running ∧
      finalizeStatements now u tid f recommendations k.committed = .ok ws ∧
      applyWrites ws k.committed = .ok db' ∧
      finalizeCall faults now u tid f k =
        (.ok (db'.turnOf u tid), { committed := db', working := none }) := by
  unfold finalizeCall
  split
  · exact .inl ⟨_, k, rfl, rfl⟩
  next hstatus =>
  split
  · exact .inl ⟨_, k, rfl, rfl⟩
  split
  · exact .inl ⟨_, k, rfl, rfl⟩
  next recommendations hrec =>
  rcases transact_cases faults (finalizeStatements now u tid f recommendations) k with
    ⟨ws, db', hws, happly, heq⟩ | ⟨e, heq⟩
  · rw [heq]
    exact .inr ⟨recommendations, ws, db', hrec, hstatus, hws, happly, rfl⟩
  · rw [heq]
    exact .inl ⟨e, k.rollback, rfl, rfl⟩

/-- A call for a turn that is closed answers with what is stored. -/
lemma finalizeCall_closed {now : Instant} {u : UserId} {tid : Id} {f : FinalizeArgs}
    {k : Connection Db} {turn : Turn} (hturn : k.committed.turnOf u tid = some turn)
    (hclosed : turn.status ≠ .running) (hf : f.Checked) :
    finalizeCall noFaults now u tid f k =
      (.ok (some turn), { committed := k.committed, working := none }) := by
  obtain ⟨hstatus, hsnapshot, hrec⟩ := hf
  unfold finalizeCall
  rw [if_neg hstatus, if_neg]
  case hnc =>
    rintro ⟨hcompleted, hnone⟩
    simpa [Option.isNone_iff_eq_none.1 hnone] using hsnapshot hcompleted
  cases h : dumpsOption f.recommendations with
  | error e => simp [h, Except.isOk, Except.toBool] at hrec
  | ok recommendations =>
    have hws : finalizeStatements now u tid f recommendations k.committed = .ok [] := by
      simp [finalizeStatements, hturn, hclosed]
    simp [transact_noFaults, hws, Except.bind, applyWrites, hturn]

/-- On a store as the system keeps it, a call without faults is the transaction of the model. -/
theorem finalizeCall_eq {db : Db} (hids : Rows.Keyed (fun t : Turn => t.id) db.turns)
    (hmessages : ∀ m ∈ db.messages, m.id < db.nextMessageId) (now : Instant) (u : UserId)
    (tid : Id) (f : FinalizeArgs) :
    finalizeCall noFaults now u tid f { committed := db, working := none } =
      ((finalizeRequestTurn now u tid f db).1,
        { committed := (finalizeRequestTurn now u tid f db).2, working := none }) := by
  unfold finalizeCall finalizeRequestTurn
  split
  · rfl
  split
  · rfl
  cases dumpsOption f.recommendations with
  | error e => rfl
  | ok recommendations =>
    simp only [transact_noFaults, finalizeStatements, finalizeBody]
    cases hturn : db.turnOf u tid with
    | none => rfl
    | some turn =>
      by_cases hrun : turn.status = .running
      · have hone : ∀ metadata, closeWrite u tid f.status db.nextMessageId now
            (db.answer turn f recommendations metadata now) =
              .ok ((db.insertMessage (assistantMessage turn f recommendations metadata now)).closeTurn
                u tid f.status db.nextMessageId now) := by
          intro metadata
          rw [Db.answer_eq hmessages, closeWrite, if_neg]
          obtain ⟨hu, hid⟩ :=
            Rows.selectOne_holds (p := fun t : Turn => t.userId = u ∧ t.id = tid) hturn
          rw [not_not]
          exact hids.countP_eq_one (r := turn) (Rows.selectOne_mem hturn) ⟨hu, hid, hrun⟩
            fun t _ ht => ht.2.1.trans hid.symm
        simp only [hrun, ne_eq, not_true_eq_false, if_false, Except.bind, applyWrites_finalize,
          bind, pure, Except.pure]
        cases dumpsOption (f.responseMetadata.filter PyObj.truthy) with
        | error e => rfl
        | ok metadata =>
          simp only [hone]
          cases persistCompletion turn f now ((db.insertMessage
              (assistantMessage turn f recommendations metadata now)).closeTurn u tid f.status
                db.nextMessageId now) with
          | error e => rfl
          | ok db₃ => rfl
      · simp [hrun, Except.bind, applyWrites, hturn]

/-- Whatever call is made in whatever state, and whichever of its statements raise: it raises and
what is committed stays, or it finds the turn closed, leaves everything and answers with the turn
as it is stored, or it closes the turn and commits the message, the status, the snapshot, the
release of the lease and the jobs together. A further call changes nothing, and answers the same
unless its arguments are refused before the turn is read. -/
theorem finalize_all_or_nothing (faults : Nat → Option StoreError) (now : Instant) (u : UserId)
    (tid : Id) (f : FinalizeArgs) (k : Connection Db) :
    ((∃ e, (finalizeCall faults now u tid f k).1 = .error e ∧
        (finalizeCall faults now u tid f k).2.committed = k.committed) ∨
      (∃ turn, k.committed.turnOf u tid = some turn ∧ turn.status ≠ .running ∧
        finalizeCall faults now u tid f k =
          (.ok (some turn), { committed := k.committed, working := none })) ∨
      ∃ turn db', k.committed.turnOf u tid = some turn ∧ turn.status = .running ∧
        f.status ≠ .running ∧ Committed now f turn k.committed db' ∧
        finalizeCall faults now u tid f k =
          (.ok (some (turn.close f.status k.committed.nextMessageId now)),
            { committed := db', working := none }) ∧
        ∀ now' f', f'.Checked →
          finalizeCall noFaults now' u tid f' (finalizeCall faults now u tid f k).2 =
            finalizeCall faults now u tid f k) ∧
    ∀ turn, k.committed.turnOf u tid = some turn → turn.status ≠ .running →
      (finalizeCall faults now u tid f k).2.committed = k.committed ∧
      (f.Checked → finalizeCall noFaults now u tid f k =
        (.ok (some turn), { committed := k.committed, working := none })) := by
  have hcall : (∃ e, (finalizeCall faults now u tid f k).1 = .error e ∧
        (finalizeCall faults now u tid f k).2.committed = k.committed) ∨
      (∃ turn, k.committed.turnOf u tid = some turn ∧ turn.status ≠ .running ∧
        finalizeCall faults now u tid f k =
          (.ok (some turn), { committed := k.committed, working := none })) ∨
      ∃ turn db', k.committed.turnOf u tid = some turn ∧ turn.status = .running ∧
        f.status ≠ .running ∧ Committed now f turn k.committed db' ∧
        finalizeCall faults now u tid f k =
          (.ok (some (turn.close f.status k.committed.nextMessageId now)),
            { committed := db', working := none }) := by
    rcases finalizeCall_cases faults now u tid f k with
      ⟨e, k', heq, hsame⟩ | ⟨recommendations, ws, db', hrec, hstatus, hws, happly, heq⟩
    · exact .inl ⟨e, by rw [heq], by rw [heq, hsame]⟩
    · unfold finalizeStatements at hws
      split at hws
      · cases hws
      next turn hturn =>
      split at hws
      · next hclosed =>
        obtain rfl := Except.ok.inj hws
        obtain rfl : k.committed = db' := Except.ok.inj happly
        exact .inr (.inl ⟨turn, hturn, hclosed, by rw [heq, hturn]⟩)
      · next hrun =>
        obtain rfl := Except.ok.inj hws
        have hrun : turn.status = .running := not_not.1 hrun
        have hcommitted := committed_of_applyWrites hrec hturn hrun happly
        obtain ⟨hu, hid⟩ :=
          Rows.selectOne_holds (p := fun t : Turn => t.userId = u ∧ t.id = tid) hturn
        refine .inr (.inr ⟨turn, db', hturn, hrun, hstatus, hcommitted, ?_⟩)
        rw [heq, ← hcommitted.closed, hu, hid]
  refine ⟨?_, fun turn hturn hclosed => ⟨?_, finalizeCall_closed hturn hclosed⟩⟩
  · rcases hcall with herr | hclosed | ⟨turn, db', hturn, hrun, hstatus, hcommitted, heq⟩
    · exact .inl herr
    · exact .inr (.inl hclosed)
    · refine .inr (.inr ⟨turn, db', hturn, hrun, hstatus, hcommitted, heq, fun now' f' hf' => ?_⟩)
      obtain ⟨hu, hid⟩ :=
        Rows.selectOne_holds (p := fun t : Turn => t.userId = u ∧ t.id = tid) hturn
      have hstored := hcommitted.closed
      rw [hu, hid] at hstored
      rw [heq]
      exact finalizeCall_closed hstored hstatus hf'
  · rcases hcall with ⟨e, -, hsame⟩ | ⟨_, -, -, heq⟩ | ⟨turn', _, hturn', hrun, -⟩
    · exact hsame
    · rw [heq]
    · rw [hturn] at hturn'
      obtain rfl := Option.some.inj hturn'
      exact absurd hrun hclosed

/-- Two jobs asked for under one key. -/
def sampleJobs : List JobSpec :=
  [.job (Text.ofString "remember") (.json (.obj [])) (some (Text.ofString "turn:0")),
   .job (Text.ofString "summarise") (.json (.obj [])) (some (Text.ofString "turn:0"))]

/-- The first turn of a conversation, answered with these jobs. -/
def sampleFinish : Except StoreError (Option Turn) × Connection Db :=
  finalizeCall noFaults 1 sampleStart.userId 0 { sampleAnswer 0 with backgroundJobs := sampleJobs }
    { committed := (World.after [.startRequestTurn sampleProcess 0 sampleStart]).db, working := none }

/-- A finish that commits does not add a job whose key is taken, and a second finish of the
completed turn raises when it comes without a snapshot. -/
theorem taken_key_adds_no_job :
    sampleFinish.1.isOk = true ∧
    Text.ofString "summarise" ∉ sampleFinish.2.committed.jobs.map (·.kind) ∧
    (finalizeCall noFaults 2 sampleStart.userId 0 { sampleAnswer 0 with snapshot := none }
      sampleFinish.2).1 =
        .error (.valueError "completed request turns require a snapshot") :=
  ⟨by decide +kernel, by decide +kernel, rfl⟩

end RentCompass.Store
