import RentCompass.Store.Lease

/-!
# Turns: start, finish, fail, recover

The transactions that open and close a turn. Each takes the instant `_now_iso` returned and,
where it draws ids, the first id not drawn yet.
-/

namespace RentCompass.Store

/-- `SELECT * FROM turns WHERE user_id=? AND id=?`. -/
def Db.turnOf (db : Db) (u : UserId) (tid : Id) : Option Turn :=
  Rows.selectOne (fun t : Turn => t.userId = u ∧ t.id = tid) db.turns

/-- `SELECT * FROM messages WHERE user_id=? AND id=?`. -/
def Db.messageOf (db : Db) (u : UserId) (mid : Nat) : Option Message :=
  Rows.selectOne (fun m : Message => m.userId = u ∧ m.id = mid) db.messages

/-- `SELECT * FROM conversations WHERE user_id=? AND id=?`. -/
def Db.conversationOf (db : Db) (u : UserId) (cid : Id) : Option Conversation :=
  Rows.selectOne (fun c : Conversation => c.userId = u ∧ c.id = cid) db.conversations

/-- `get_request_turn`: the turn a request id names. -/
def getRequestTurn (db : Db) (u : UserId) (rid : Text) : Option Turn :=
  (Rows.selectOne (fun r : TurnRequest => r.userId = u ∧ r.requestId = rid) db.turnRequests).bind
    fun r => Rows.selectOne (fun t : Turn => t.id = r.turnId ∧ t.userId = r.userId) db.turns

/-- A message that tells the user the turn was cancelled, and nothing else. -/
def Message.isCancellation (m : Message) : Bool :=
  m.responseType = some errorType ∧ Text.strip m.content ∈ cancelledTurnTexts

/-- `_never_delivered`: a failed turn that produced no answer. -/
def neverDelivered (db : Db) (u : UserId) (t : Turn) : Bool :=
  match t.assistantMessageId with
  | none => true
  | some mid => (db.messageOf u mid).any (·.isCancellation)

/-- `request_turn_replays`. -/
def requestTurnReplays (db : Db) (u : UserId) (t : Turn) : Bool :=
  match t.status with
  | .completed => true
  | .running => false
  | .failed => (db.turnOf u t.id).any fun row => !neverDelivered db u row

/-- `request_message_differs`: a request id is reused for another message. The stored text is
compared with the text as the caller gave it. -/
def requestMessageDiffers (db : Db) (u : UserId) (t : Turn) (userContent : Text) : Bool :=
  match t.userMessageId with
  | none => false
  | some mid => (db.messageOf u mid).any fun m => m.content ≠ userContent

/-! ### Starting a turn -/

/-- The arguments of `start_request_turn`. -/
structure StartArgs where
  userId : UserId
  conversationId : Option Id
  requestId : Text
  userContent : Text
  leaseSeconds : Int
  createTitle : Option Text
  agentArch : Text
  agentVersion : Text
  strict : Bool

/-- The request id as it is bound to the statements: stripped and encodable. -/
def StartArgs.key (a : StartArgs) : Text := safeText (Text.strip a.requestId)

/-- The dictionary `start_request_turn` returns. -/
structure StartedTurn where
  turn : Turn
  replayed : Bool
  conversationCreated : Bool
deriving DecidableEq

def Db.erasing (db : Db) (u : UserId) : Bool := db.erasureLocks.any (·.userId = u)

/-- What the replay branch decides: answer with a stored turn, or start one in a conversation. -/
inductive Replay where
  | replayed (turn : Turn)
  | start (cid : Option Id)

/-- A running turn that no live lease protects is marked failed before it is replayed. -/
def endAbandoned (p : Process) (now : Instant) (u : UserId) (replay : Turn) (db : Db) :
    Turn × Db :=
  if replay.status = .running then
    let lease := Rows.selectOne (fun l : Lease => l.userId = u ∧ l.turnId = replay.id) db.leases
    if lease.any fun l => leaseBlocks p db (db.leaseView l) now then (replay, db)
    else
      let db₁ := db.failRunning u replay.id now
      let db₂ := if lease.isSome then db₁.releaseTurn u replay.id else db₁
      ((db₂.turnOf u replay.id).getD replay, db₂)
  else (replay, db)

/-- The replay branch of `start_request_turn`. -/
def replayBranch (p : Process) (now : Instant) (a : StartArgs) (db : Db) :
    Except StoreError (Replay × Db) :=
  match getRequestTurn db a.userId a.key with
  | none => .ok (.start a.conversationId, db)
  | some named =>
    if requestMessageDiffers db a.userId named a.userContent then
      .error (.idempotencyKeyReused (Text.strip a.requestId))
    else
      let (replay, db₁) := endAbandoned p now a.userId named db
      if replay.status = .failed ∧ neverDelivered db₁ a.userId replay then
        -- the id is released and the message runs again as a new turn
        .ok (.start (a.conversationId <|> some replay.conversationId),
          db₁.releaseRequest a.userId a.key)
      else .ok (.replayed replay, db₁)

/-- `INSERT INTO conversations` of an implicitly created conversation. -/
def Db.insertConversation (db : Db) (c : Conversation) : Db :=
  { db with conversations := db.conversations ++ [c] }

/-- The row of a conversation created with no parent. -/
def rootConversation (u : UserId) (title : Option Text) (agentArch agentVersion : Text)
    (strict : Bool) (cid : Id) (now : Instant) : Conversation where
  userId := u
  id := cid
  title := boundedTitle title newChat []
  createdAt := now
  updatedAt := now
  parentConversationId := none
  forkedFromTurnId := none
  rootConversationId := some cid
  branchDepth := 0
  contextSchemaVersion := 1
  forkReason := none
  editedSlotTurnId := none
  agentArch := agentArch
  agentVersion := agentVersion
  strict := strict

/-- `create_conversation`. It draws one id. -/
def createConversation (now : Instant) (fresh : Id) (u : UserId) (title : Option Text)
    (agentArch agentVersion : Text) (strict : Bool) (db : Db) : Db :=
  db.insertConversation (rootConversation u title agentArch agentVersion strict fresh now)

/-- The conversation the turn runs in: the one named, which must exist, or a new one. -/
def resolveConversation (a : StartArgs) (now : Instant) (newCid : Id) (cid : Option Id)
    (db : Db) : Except StoreError (Id × Db) :=
  match cid with
  | some cid =>
    if (db.conversationOf a.userId cid).isSome then .ok (cid, db)
    else .error (.conversationNotFound cid)
  | none => .ok (newCid, db.insertConversation (rootConversation a.userId a.createTitle
      a.agentArch a.agentVersion a.strict newCid now))

/-- The lease of the conversation must not block; one that does not is reclaimed and its turn
marked failed. -/
def evictLease (p : Process) (now : Instant) (u : UserId) (cid : Id) (db : Db) :
    Except StoreError Db :=
  match db.leaseOf u cid with
  | none => .ok db
  | some l =>
    if leaseBlocks p db (db.leaseView l) now then .error (busyWith (db.leaseView l) now)
    else .ok ((db.failRunning u l.turnId now).releaseConversation u cid)

/-- Titles a first message may replace. -/
def placeholderTitles : List Text :=
  [newChat, Text.ofString "新会话", Text.ofString "New conversation"]

/-- The title of an empty conversation that still has a placeholder follows the message. -/
def Db.retitle (db : Db) (u : UserId) (cid : Id) (createTitle : Option Text) : Db :=
  if createTitle.getD [] = [] then db
  else
    { db with
      conversations := Rows.updateWhere
        (fun c : Conversation => c.userId = u ∧ c.id = cid ∧ c.title ∈ placeholderTitles ∧
          (db.messages.any fun m => m.userId = u ∧ m.conversationId = cid) = false)
        (fun c => { c with title := boundedTitle createTitle newChat [] }) db.conversations }

/-- `INSERT INTO messages`; the row gets the next key. -/
def Db.insertMessage (db : Db) (m : Message) : Db :=
  { db with
    messages := db.messages ++ [{ m with id := db.nextMessageId }]
    nextMessageId := db.nextMessageId + 1 }

/-- The turn row a fresh start inserts. -/
def freshTurn (a : StartArgs) (now : Instant) (tid cid : Id) (mid : Nat) : Turn where
  id := tid
  userId := a.userId
  conversationId := cid
  requestId := some a.key
  userMessageId := some mid
  assistantMessageId := none
  status := .running
  startedAt := now
  completedAt := none

/-- The user message a fresh start inserts. -/
def userMessage (a : StartArgs) (now : Instant) (tid cid : Id) : Message where
  id := 0
  userId := a.userId
  conversationId := cid
  role := .user
  content := safeText a.userContent
  responseType := none
  recommendationsJson := none
  timestamp := now
  turnId := some tid
  responseMetadataJson := none

/-- The request id row a fresh start inserts. -/
def freshRequest (a : StartArgs) (now : Instant) (tid cid : Id) : TurnRequest where
  userId := a.userId
  requestId := a.key
  conversationId := cid
  turnId := tid
  createdAt := now

/-- The lease a fresh start inserts. -/
def freshLease (p : Process) (a : StartArgs) (now : Instant) (tid cid : Id) : Lease where
  userId := a.userId
  conversationId := cid
  turnId := tid
  acquiredAt := now
  expiresAt := now + a.leaseSeconds.toNat * second
  ownerId := some p.ownerId

/-- The four inserts of a fresh turn: message, turn, request id and lease. -/
def Db.insertTurn (db : Db) (p : Process) (a : StartArgs) (now : Instant) (tid cid : Id) : Db :=
  let db₁ := db.insertMessage (userMessage a now tid cid)
  { db₁ with
    turns := db₁.turns ++ [freshTurn a now tid cid db.nextMessageId]
    turnRequests := db₁.turnRequests ++ [freshRequest a now tid cid]
    leases := db₁.leases ++ [freshLease p a now tid cid] }

/-- The part of `start_request_turn` after the replay branch. -/
def startFresh (p : Process) (now : Instant) (fresh : Id) (a : StartArgs) (cid : Option Id)
    (db : Db) : Except StoreError (StartedTurn × Db) := do
  let (cid', db₁) ← resolveConversation a now (fresh + 1) cid db
  let db₂ ← evictLease p now a.userId cid' db₁
  let db₃ := db₂.retitle a.userId cid' a.createTitle
  if db₃.turnRequests.any fun r => r.userId = a.userId ∧ r.requestId = a.key then
    throw (.integrityError "turn_requests")
  return ({ turn := freshTurn a now fresh cid' db₃.nextMessageId, replayed := false,
            conversationCreated := cid.isNone },
    (db₃.insertTurn p a now fresh cid').touch a.userId cid' now)

/-- The transaction of `start_request_turn`. -/
def startBody (p : Process) (now : Instant) (fresh : Id) (a : StartArgs) (db : Db) :
    Except StoreError (StartedTurn × Db) :=
  if db.erasing a.userId then .error (.privacyErasureInProgress "privacy erasure in progress")
  else match replayBranch p now a db with
    | .error e => .error e
    | .ok (.replayed turn, db₁) =>
      .ok ({ turn := turn, replayed := true, conversationCreated := false }, db₁)
    | .ok (.start cid, db₁) => startFresh p now fresh a cid db₁

/-- `start_request_turn`. It draws the ids `fresh` and `fresh + 1`. -/
def startRequestTurn (p : Process) (now : Instant) (fresh : Id) (a : StartArgs) (db : Db) :
    Outcome StartedTurn :=
  if Text.strip a.requestId = [] then (.error (.valueError "request_id is required"), db)
  else if a.leaseSeconds < 1 then (.error (.valueError "lease_seconds must be positive"), db)
  else transaction db (startBody p now fresh a db)

/-! What a start can do. -/

@[simp] lemma Db.retitle_turns (db : Db) (u : UserId) (cid : Id) (title : Option Text) :
    (db.retitle u cid title).turns = db.turns := by
  unfold Db.retitle; split <;> rfl

@[simp] lemma Db.retitle_leases (db : Db) (u : UserId) (cid : Id) (title : Option Text) :
    (db.retitle u cid title).leases = db.leases := by
  unfold Db.retitle; split <;> rfl

@[simp] lemma Db.retitle_messages (db : Db) (u : UserId) (cid : Id) (title : Option Text) :
    (db.retitle u cid title).messages = db.messages := by
  unfold Db.retitle; split <;> rfl

@[simp] lemma Db.retitle_turnRequests (db : Db) (u : UserId) (cid : Id) (title : Option Text) :
    (db.retitle u cid title).turnRequests = db.turnRequests := by
  unfold Db.retitle; split <;> rfl

@[simp] lemma Db.retitle_nextMessageId (db : Db) (u : UserId) (cid : Id) (title : Option Text) :
    (db.retitle u cid title).nextMessageId = db.nextMessageId := by
  unfold Db.retitle; split <;> rfl

@[simp] lemma Db.retitle_jobs (db : Db) (u : UserId) (cid : Id) (title : Option Text) :
    (db.retitle u cid title).jobs = db.jobs := by
  unfold Db.retitle; split <;> rfl

/-- The turn a request id names is a turn of the user. -/
lemma getRequestTurn_some {db : Db} {u : UserId} {rid : Text} {t : Turn}
    (h : getRequestTurn db u rid = some t) :
    t ∈ db.turns ∧ t.userId = u ∧
      ∃ r ∈ db.turnRequests, r.userId = u ∧ r.requestId = rid ∧ r.turnId = t.id := by
  obtain ⟨r, hr, ht⟩ := Option.bind_eq_some_iff.1 h
  obtain ⟨hru, hrid⟩ := Rows.selectOne_holds hr
  obtain ⟨htid, htu⟩ := Rows.selectOne_holds ht
  exact ⟨Rows.selectOne_mem ht, htu.trans hru, r, Rows.selectOne_mem hr, hru, hrid, htid.symm⟩

/-- Ending an abandoned turn changes nothing, or fails the turn and deletes its lease. -/
lemma endAbandoned_snd (p : Process) (now : Instant) (u : UserId) (replay : Turn) (db : Db) :
    (endAbandoned p now u replay db).2 = db ∨ (replay.status = .running ∧
      (endAbandoned p now u replay db).2
        = (db.failRunning u replay.id now).releaseTurn u replay.id) := by
  unfold endAbandoned
  split
  · next hrun =>
    dsimp only
    split
    · exact .inl rfl
    · refine .inr ⟨hrun, ?_⟩
      dsimp only
      split
      · rfl
      · next hnone =>
        -- no lease names the turn: deleting its leases would change nothing
        have hno : ∀ l ∈ db.leases, ¬ (l.userId = u ∧ l.turnId = replay.id) := by
          simpa [Rows.selectOne_eq_none] using hnone
        have hself := Rows.deleteWhere_eq_self (p := fun l : Lease =>
          l.userId = u ∧ l.turnId = replay.id) hno
        simp only [Db.releaseTurn, Db.failRunning, hself]
  · exact .inl rfl

/-- The replay branch goes on with the database as it is, or with the request id released. -/
lemma replayBranch_start {p : Process} {now : Instant} {a : StartArgs} {db db' : Db}
    {cid : Option Id} (h : replayBranch p now a db = .ok (.start cid, db')) :
    (getRequestTurn db a.userId a.key = none ∧ db' = db ∧ cid = a.conversationId) ∨
    ∃ named, getRequestTurn db a.userId a.key = some named ∧
      requestMessageDiffers db a.userId named a.userContent = false ∧
      (endAbandoned p now a.userId named db).1.status = .failed ∧
      neverDelivered (endAbandoned p now a.userId named db).2 a.userId
        (endAbandoned p now a.userId named db).1 = true ∧
      db' = (endAbandoned p now a.userId named db).2.releaseRequest a.userId a.key := by
  unfold replayBranch at h
  split at h
  · next hnone =>
    simp only [Except.ok.injEq, Prod.mk.injEq, Replay.start.injEq] at h
    exact .inl ⟨hnone, h.2.symm, h.1.symm⟩
  · next named hnamed =>
    refine .inr ⟨named, hnamed, ?_⟩
    split at h
    · cases h
    · next hsame =>
      dsimp only at h
      split at h
      · next hfailed =>
        simp only [Except.ok.injEq, Prod.mk.injEq] at h
        exact ⟨by simpa using hsame, hfailed.1, hfailed.2, h.2.symm⟩
      · simp at h

lemma replayBranch_replayed {p : Process} {now : Instant} {a : StartArgs} {db db' : Db}
    {t : Turn} (h : replayBranch p now a db = .ok (.replayed t, db')) :
    ∃ named, getRequestTurn db a.userId a.key = some named ∧
      requestMessageDiffers db a.userId named a.userContent = false ∧
      (t, db') = endAbandoned p now a.userId named db ∧
      ¬ (t.status = .failed ∧ neverDelivered db' a.userId t = true) := by
  unfold replayBranch at h
  split at h
  · simp at h
  · next named hnamed =>
    refine ⟨named, hnamed, ?_⟩
    split at h
    · cases h
    · next hsame =>
      dsimp only at h
      split at h
      · simp at h
      · next hkeep =>
        simp only [Except.ok.injEq, Prod.mk.injEq, Replay.replayed.injEq] at h
        obtain ⟨rfl, rfl⟩ := h
        exact ⟨by simpa using hsame, rfl, hkeep⟩

lemma resolveConversation_ok {a : StartArgs} {now : Instant} {newCid cid' : Id} {cid : Option Id}
    {db db' : Db} (h : resolveConversation a now newCid cid db = .ok (cid', db')) :
    (cid = some cid' ∧ (db.conversationOf a.userId cid').isSome ∧ db' = db) ∨
      (cid = none ∧ cid' = newCid ∧
      db' = db.insertConversation (rootConversation a.userId a.createTitle a.agentArch
        a.agentVersion a.strict newCid now)) := by
  unfold resolveConversation at h
  split at h
  · split at h
    · next hexists =>
      simp only [Except.ok.injEq, Prod.mk.injEq] at h
      obtain ⟨rfl, rfl⟩ := h
      exact .inl ⟨rfl, hexists, rfl⟩
    · cases h
  · simp only [Except.ok.injEq, Prod.mk.injEq] at h
    exact .inr ⟨rfl, h.1.symm, h.2.symm⟩

/-- After the eviction the conversation has no lease that was there before: there was none, or
the one there was did not block and is gone with its turn failed. -/
lemma evictLease_ok {p : Process} {now : Instant} {u : UserId} {cid : Id} {db db' : Db}
    (h : evictLease p now u cid db = .ok db') :
    (db.leaseOf u cid = none ∧ db' = db) ∨
    ∃ l, db.leaseOf u cid = some l ∧ leaseBlocks p db (db.leaseView l) now = false ∧
      db' = (db.failRunning u l.turnId now).releaseConversation u cid := by
  unfold evictLease at h
  split at h
  · next hnone => exact .inl ⟨hnone, (Except.ok.inj h).symm⟩
  · next l hl =>
    split at h
    · cases h
    · next hb => exact .inr ⟨l, hl, by simpa using hb, (Except.ok.inj h).symm⟩

/-- What a fresh start is made of. -/
lemma startFresh_ok {p : Process} {now : Instant} {fresh : Id} {a : StartArgs} {cid : Option Id}
    {db db' : Db} {s : StartedTurn} (h : startFresh p now fresh a cid db = .ok (s, db')) :
    ∃ cid' db₁ db₂, resolveConversation a now (fresh + 1) cid db = .ok (cid', db₁) ∧
      evictLease p now a.userId cid' db₁ = .ok db₂ ∧
      (∀ r ∈ db₂.turnRequests, ¬ (r.userId = a.userId ∧ r.requestId = a.key)) ∧
      s = { turn := freshTurn a now fresh cid' db₂.nextMessageId, replayed := false,
            conversationCreated := cid.isNone } ∧
      db' = ((db₂.retitle a.userId cid' a.createTitle).insertTurn p a now fresh cid').touch
        a.userId cid' now := by
  simp only [startFresh, bind, Except.bind, pure, Except.pure] at h
  split at h
  · cases h
  · next r hr =>
    obtain ⟨cid', db₁⟩ := r
    dsimp only at h
    split at h
    · cases h
    · next db₂ hdb₂ =>
      refine ⟨cid', db₁, db₂, hr, hdb₂, ?_⟩
      split at h
      · cases h
      · next hkey =>
        simp only [Except.ok.injEq, Prod.mk.injEq, Db.retitle_nextMessageId] at h
        refine ⟨?_, h.1.symm, h.2.symm⟩
        simpa using hkey

/-- A start changes nothing, ends an abandoned turn and replays it, or starts a fresh turn. -/
lemma startRequestTurn_cases (p : Process) (now : Instant) (fresh : Id) (a : StartArgs)
    (db : Db) :
    (∃ e, startRequestTurn p now fresh a db = (.error e, db)) ∨
    (∃ t db', startRequestTurn p now fresh a db =
        (.ok { turn := t, replayed := true, conversationCreated := false }, db') ∧
      db.erasing a.userId = false ∧ replayBranch p now a db = .ok (.replayed t, db')) ∨
    (∃ cid db₁ s db', startRequestTurn p now fresh a db = (.ok s, db') ∧
      db.erasing a.userId = false ∧ replayBranch p now a db = .ok (.start cid, db₁) ∧
      startFresh p now fresh a cid db₁ = .ok (s, db')) := by
  unfold startRequestTurn
  split
  · exact .inl ⟨_, rfl⟩
  split
  · exact .inl ⟨_, rfl⟩
  unfold startBody
  split
  · exact .inl ⟨_, rfl⟩
  · next hfree =>
    split
    · exact .inl ⟨_, rfl⟩
    · next t db' hr => exact .inr (.inl ⟨t, db', rfl, by simpa using hfree, hr⟩)
    · next cid db₁ hr =>
      cases hs : startFresh p now fresh a cid db₁ with
      | error e => exact .inl ⟨e, rfl⟩
      | ok r => exact .inr (.inr ⟨cid, db₁, r.1, r.2, rfl, by simpa using hfree, hr, hs⟩)

/-! ### Finishing a turn -/

/-- A snapshot given to `finalize_request_turn`. -/
inductive SnapshotArg where
  | dict (s : Snapshot)
  | unserialisable

/-- One element of `background_jobs`, as `finalize_request_turn` looks at it. -/
inductive JobSpec where
  | notObject
  | badPayload (kind : Text)
  | job (kind : Text) (payload : PyObj) (dedupeKey : Option Text)

/-- The arguments of `finalize_request_turn` after the turn. -/
structure FinalizeArgs where
  status : TurnStatus
  assistantContent : Text
  responseType : Option Text
  recommendations : Option PyObj
  snapshot : Option SnapshotArg
  snapshotSchemaVersion : Nat
  backgroundJobs : List JobSpec
  responseMetadata : Option PyObj

/-- `json.dumps`. -/
def dumps : PyObj → Except StoreError Json
  | .json j => .ok j
  | .unserialisable => .error .typeError

/-- `json.dumps` of an object that may be `None`. -/
def dumpsOption : Option PyObj → Except StoreError (Option Json)
  | none => .ok none
  | some o => (dumps o).map some

/-- `INSERT OR REPLACE INTO turn_snapshots`. -/
def Db.putSnapshot (db : Db) (s : TurnSnapshot) : Db :=
  { db with
    snapshots := Rows.deleteWhere (fun r : TurnSnapshot => r.turnId = s.turnId) db.snapshots
      ++ [s] }

/-- `INSERT OR IGNORE INTO background_jobs`: a key the user already used adds nothing. -/
def Db.enqueue (db : Db) (u : UserId) (cid tid : Id) (kind dedupeKey : Text) (payload : Json)
    (now : Instant) : Db :=
  if db.jobs.any fun j => j.userId = u ∧ j.dedupeKey = dedupeKey then db
  else
    { db with
      jobs := db.jobs ++
        [{ id := db.nextJobId, userId := u, conversationId := cid, turnId := tid, kind := kind,
           dedupeKey := dedupeKey, payloadJson := payload, resultJson := none,
           status := .pending, attempts := 0, availableAt := now, claimedBy := none,
           leaseExpires := none, lastError := none, createdAt := now, updatedAt := now }]
      nextJobId := db.nextJobId + 1 }

/-- `f"turn:{turn_id}:{kind}"`. -/
def defaultDedupeKey (tid : Id) (kind : Text) : Text :=
  Text.ofString "turn:" ++ tid.text ++ Text.ofString ":" ++ kind

/-- The key a job is stored under: its own, or the default when it has none. -/
def dedupeKeyOf (tid : Id) (kind : Text) (given : Option Text) : Text :=
  safeText (if given.getD [] = [] then defaultDedupeKey tid kind else given.getD [])

/-- The loop over `background_jobs`. -/
def enqueueJobs (u : UserId) (cid tid : Id) (now : Instant) :
    List JobSpec → Db → Except StoreError Db
  | [], db => .ok db
  | .notObject :: _, _ => .error (.valueError "background job must be an object")
  | .badPayload kind :: _, _ =>
    if Text.strip kind = [] then .error (.valueError "background job kind is required")
    else .error (.valueError "background job payload must be an object")
  | .job kind payload key :: specs, db =>
    if Text.strip kind = [] then .error (.valueError "background job kind is required")
    else match dumps payload with
      | .error e => .error e
      | .ok json =>
        let kind' := Text.strip kind
        enqueueJobs u cid tid now specs
          (db.enqueue u cid tid (safeText kind') (dedupeKeyOf tid kind' key) json now)

/-- The assistant message of a finished turn. -/
def assistantMessage (t : Turn) (f : FinalizeArgs) (recommendations metadata : Option Json)
    (now : Instant) : Message where
  id := 0
  userId := t.userId
  conversationId := t.conversationId
  role := .assistant
  content := safeText f.assistantContent
  responseType := f.responseType
  recommendationsJson := recommendations
  timestamp := now
  turnId := some t.id
  responseMetadataJson := metadata

/-- `UPDATE turns SET status=?, completed_at=?, assistant_message_id=? WHERE … status='running'`. -/
def Db.closeTurn (db : Db) (u : UserId) (tid : Id) (status : TurnStatus) (mid : Nat)
    (now : Instant) : Db :=
  { db with
    turns := Rows.updateWhere
      (fun t : Turn => t.userId = u ∧ t.id = tid ∧ t.status = .running)
      (fun t => { t with status := status, completedAt := some now,
                         assistantMessageId := some mid }) db.turns }

/-- The snapshot and the outbox jobs, which only a completed turn leaves. -/
def persistCompletion (t : Turn) (f : FinalizeArgs) (now : Instant) (db : Db) :
    Except StoreError Db :=
  if f.status ≠ .completed then .ok db
  else match f.snapshot with
    | some (.dict snapshot) =>
      enqueueJobs t.userId t.conversationId t.id now f.backgroundJobs
        (db.putSnapshot { turnId := t.id, userId := t.userId, conversationId := t.conversationId,
                          schemaVersion := f.snapshotSchemaVersion, snapshotJson := snapshot,
                          createdAt := now })
    | _ => .error .typeError

/-- The transaction of `finalize_request_turn`. -/
def finalizeBody (now : Instant) (u : UserId) (tid : Id) (f : FinalizeArgs)
    (recommendations : Option Json) (db : Db) : Except StoreError (Option Turn × Db) :=
  match db.turnOf u tid with
  | none => .error (.turnNotFound tid)
  | some turn =>
    if turn.status ≠ .running then .ok (some turn, db)
    else do
      let metadata ← dumpsOption (f.responseMetadata.filter PyObj.truthy)
      let db₁ := db.insertMessage (assistantMessage turn f recommendations metadata now)
      let db₂ := db₁.closeTurn u tid f.status db.nextMessageId now
      let db₃ ← persistCompletion turn f now db₂
      let db₄ := (db₃.releaseTurn u tid).touch u turn.conversationId now
      return (db₄.turnOf u tid, db₄)

/-- `finalize_request_turn`. -/
def finalizeRequestTurn (now : Instant) (u : UserId) (tid : Id) (f : FinalizeArgs) (db : Db) :
    Outcome (Option Turn) :=
  if f.status = .running then
    (.error (.valueError "status must be completed or failed"), db)
  else if f.status = .completed ∧ f.snapshot.isNone then
    (.error (.valueError "completed request turns require a snapshot"), db)
  else match dumpsOption f.recommendations with
    | .error e => (.error e, db)
    | .ok recommendations => transaction db (finalizeBody now u tid f recommendations db)

/-! What a finish can do. -/

/-- The loop over the jobs adds jobs and touches nothing else. -/
lemma enqueueJobs_ok {u : UserId} {cid tid : Id} {now : Instant} {specs : List JobSpec}
    {db db' : Db} (h : enqueueJobs u cid tid now specs db = .ok db') :
    ∃ jobs next, db' = { db with jobs := jobs, nextJobId := next } := by
  induction specs generalizing db with
  | nil => exact ⟨db.jobs, db.nextJobId, (Except.ok.inj h).symm⟩
  | cons spec specs ih =>
    cases spec with
    | notObject => cases h
    | badPayload kind => simp only [enqueueJobs] at h; split at h <;> cases h
    | job kind payload key =>
      simp only [enqueueJobs] at h
      split at h
      · cases h
      · split at h
        · cases h
        · next json _ =>
          obtain ⟨jobs, next, rfl⟩ := ih h
          unfold Db.enqueue
          split
          · exact ⟨jobs, next, rfl⟩
          · exact ⟨jobs, next, rfl⟩

lemma persistCompletion_ok {t : Turn} {f : FinalizeArgs} {now : Instant} {db db' : Db}
    (h : persistCompletion t f now db = .ok db') :
    ∃ snapshots jobs next,
      db' = { db with snapshots := snapshots, jobs := jobs, nextJobId := next } := by
  unfold persistCompletion at h
  split at h
  · exact ⟨db.snapshots, db.jobs, db.nextJobId, (Except.ok.inj h).symm⟩
  · split at h
    · obtain ⟨jobs, next, rfl⟩ := enqueueJobs_ok h
      exact ⟨_, jobs, next, rfl⟩
    · cases h

/-- What a finish that closes the turn is made of. -/
structure Finished (now : Instant) (u : UserId) (tid : Id) (f : FinalizeArgs) (db db' : Db)
    (turn : Turn) (m : Message) : Prop where
  named : db.turnOf u tid = some turn
  running : turn.status = .running
  status : f.status ≠ .running
  message : ∃ recommendations metadata,
    m = { assistantMessage turn f recommendations metadata now with id := db.nextMessageId }
  persisted : ∃ db₃, persistCompletion turn f now
      ((db.insertMessage m).closeTurn u tid f.status db.nextMessageId now) = .ok db₃ ∧
    db' = (db₃.releaseTurn u tid).touch u turn.conversationId now

/-- A finish raises, finds the turn closed and leaves everything, or closes the turn. -/
lemma finalizeRequestTurn_cases (now : Instant) (u : UserId) (tid : Id) (f : FinalizeArgs)
    (db : Db) :
    (∃ e, finalizeRequestTurn now u tid f db = (.error e, db)) ∨
    (∃ turn, db.turnOf u tid = some turn ∧ turn.status ≠ .running ∧
      finalizeRequestTurn now u tid f db = (.ok (some turn), db)) ∨
    (∃ turn m db', Finished now u tid f db db' turn m ∧
      finalizeRequestTurn now u tid f db = (.ok (db'.turnOf u tid), db')) := by
  unfold finalizeRequestTurn
  split
  · exact .inl ⟨_, rfl⟩
  next hstatus =>
  split
  · exact .inl ⟨_, rfl⟩
  split
  · exact .inl ⟨_, rfl⟩
  next recommendations _ =>
  unfold finalizeBody
  split
  · exact .inl ⟨_, rfl⟩
  next turn hturn =>
  split
  · next hclosed => exact .inr (.inl ⟨turn, hturn, hclosed, rfl⟩)
  next hrun =>
  simp only [bind, Except.bind, pure, Except.pure]
  split
  · exact .inl ⟨_, rfl⟩
  next metadata _ =>
  split
  · exact .inl ⟨_, rfl⟩
  next db₃ hdb₃ =>
  exact .inr (.inr ⟨turn, _, _, ⟨hturn, by simpa using hrun, hstatus,
    ⟨recommendations, metadata, rfl⟩, db₃, hdb₃, rfl⟩, rfl⟩)

/-- `fail_turn`. It does not look at the status the turn has. -/
def failTurn (now : Instant) (u : UserId) (tid : Id) (db : Db) : Db :=
  { db with
    turns := Rows.updateWhere (fun t : Turn => t.userId = u ∧ t.id = tid)
      (fun t => { t with status := .failed, completedAt := some now }) db.turns }.releaseTurn u tid

/-! ### Recovery -/

/-- A turn that `close_orphaned_turns` found without a live owner. -/
structure Orphan where
  userId : UserId
  conversationId : Id
  turnId : Id

/-- The first part of `close_orphaned_turns`: the running turns whose lease does not block. -/
def orphanedTurns (p : Process) (now : Instant) (db : Db) : List Orphan :=
  (db.leases.filter fun l =>
      db.turns.any (fun t => t.id = l.turnId ∧ t.userId = l.userId ∧ t.status = .running) ∧
        leaseBlocks p db (db.leaseView l) now = false).map
    fun l => { userId := l.userId, conversationId := l.conversationId, turnId := l.turnId }

/-- `_conversation_is_zh`: the last user message has a CJK character. -/
def conversationIsZh (db : Db) (u : UserId) (cid : Id) : Bool :=
  ((db.messages.filter fun m => m.userId = u ∧ m.conversationId = cid ∧ m.role = .user).getLast?).any
    fun m => m.content.any fun c => 0x4E00 ≤ c && c ≤ 0x9FFF

/-- How a turn whose client or process went away is finalised. -/
def cancellationArgs (zh : Bool) : FinalizeArgs where
  status := .failed
  assistantContent := if zh then Text.ofString "请求已取消。" else Text.ofString "Request cancelled."
  responseType := some errorType
  recommendations := some (.json (.arr []))
  snapshot := none
  snapshotSchemaVersion := 1
  backgroundJobs := []
  responseMetadata := none

/-- What a round of the second part of `close_orphaned_turns` finalises an orphan with. -/
def orphanArgs (db : Db) (o : Orphan) : FinalizeArgs :=
  cancellationArgs (conversationIsZh db o.userId o.conversationId)

end RentCompass.Store
