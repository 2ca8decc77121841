import RentCompass.Store.Outbox
import RentCompass.Store.Turns

/-!
# Deleting: a conversation, its transcript, a user

The transactions that remove rows, and the barrier `begin_privacy_erasure` puts up around the
erasure of a user.
-/

namespace RentCompass.Store

/-- The rows keyed by a conversation are deleted from the six tables that have them. -/
def Db.deleteConversationRows (db : Db) (u : UserId) (cid : Id) : Db :=
  { db with
    messages := Rows.deleteWhere
      (fun r : Message => r.userId = u ∧ r.conversationId = cid) db.messages
    snapshots := Rows.deleteWhere
      (fun r : TurnSnapshot => r.userId = u ∧ r.conversationId = cid) db.snapshots
    turns := Rows.deleteWhere (fun r : Turn => r.userId = u ∧ r.conversationId = cid) db.turns
    turnRequests := Rows.deleteWhere
      (fun r : TurnRequest => r.userId = u ∧ r.conversationId = cid) db.turnRequests
    leases := Rows.deleteWhere (fun r : Lease => r.userId = u ∧ r.conversationId = cid) db.leases
    jobs := Rows.deleteWhere (fun r : Job => r.userId = u ∧ r.conversationId = cid) db.jobs }

/-- `delete_conversation`; answers whether there was one. -/
def deleteConversation (p : Process) (now : Instant) (u : UserId) (cid : Id) (db : Db) :
    Outcome Bool :=
  transaction db do
    raiseIfTurnRunning p now db (db.leases.filter fun l => l.userId = u ∧ l.conversationId = cid)
    let db₁ := { db with
      conversations := Rows.deleteWhere
        (fun c : Conversation => c.userId = u ∧ c.id = cid) db.conversations }
    return ((db.conversationOf u cid).isSome, db₁.deleteConversationRows u cid)

/-- `clear_conversation_messages`; answers whether the conversation exists. -/
def clearConversationMessages (p : Process) (now : Instant) (u : UserId) (cid : Id) (db : Db) :
    Outcome Bool :=
  transaction db <|
    if (db.conversationOf u cid).isNone then .ok (false, db)
    else do
      raiseIfTurnRunning p now db
        (db.leases.filter fun l => l.userId = u ∧ l.conversationId = cid)
      return (true, (db.deleteConversationRows u cid).touch u cid now)

/-- No turn of the conversation can still be running somewhere. -/
def Db.quiescent (db : Db) (p : Process) (now : Instant) (u : UserId) (cid : Id) : Prop :=
  ∀ l ∈ db.leases, l.userId = u → l.conversationId = cid →
    leaseBlocks p db (db.leaseView l) now = false

lemma raiseIfTurnRunning_quiescent {p : Process} {now : Instant} {db : Db} {u : UserId} {cid : Id}
    {r : Unit} (h : raiseIfTurnRunning p now db
      (db.leases.filter fun l => l.userId = u ∧ l.conversationId = cid) = .ok r) :
    db.quiescent p now u cid := by
  intro l hl hu hc
  exact raiseIfTurnRunning_ok.1 h l (by simp [hl, hu, hc])

/-- A deletion changes nothing, or removes a quiescent conversation with its rows. -/
lemma deleteConversation_snd (p : Process) (now : Instant) (u : UserId) (cid : Id) (db : Db) :
    (deleteConversation p now u cid db).2 = db ∨ (db.quiescent p now u cid ∧
      (deleteConversation p now u cid db).2 = { db with
        conversations := Rows.deleteWhere (fun c : Conversation => c.userId = u ∧ c.id = cid)
          db.conversations }.deleteConversationRows u cid) := by
  unfold deleteConversation
  simp only [bind, Except.bind, pure, Except.pure]
  split
  · exact .inl rfl
  · next hraise => exact .inr ⟨raiseIfTurnRunning_quiescent hraise, rfl⟩

/-- A clearing changes nothing, or removes the rows of a quiescent conversation. -/
lemma clearConversationMessages_snd (p : Process) (now : Instant) (u : UserId) (cid : Id)
    (db : Db) :
    (clearConversationMessages p now u cid db).2 = db ∨ (db.quiescent p now u cid ∧
      (clearConversationMessages p now u cid db).2 =
        (db.deleteConversationRows u cid).touch u cid now) := by
  unfold clearConversationMessages
  simp only [bind, Except.bind, pure, Except.pure]
  split
  · exact .inl rfl
  split
  · exact .inl rfl
  · next hraise => exact .inr ⟨raiseIfTurnRunning_quiescent hraise, rfl⟩

/-- The rows of a user in the nine tables of `_privacy_inventory_unlocked`. -/
def privacyInventory (db : Db) (u : UserId) : Nat :=
  db.conversations.countP (·.userId = u) + db.messages.countP (·.userId = u) +
  db.favorites.countP (·.userId = u) + db.turns.countP (·.userId = u) +
  db.snapshots.countP (·.userId = u) + db.turnRequests.countP (·.userId = u) +
  db.leases.countP (·.userId = u) + db.jobs.countP (·.userId = u) +
  db.forkRequests.countP (·.userId = u)

/-- The deletes of `delete_all_user_data`. -/
def Db.deleteUserRows (db : Db) (u : UserId) : Db :=
  { db with
    messages := Rows.deleteWhere (fun r : Message => r.userId = u) db.messages
    snapshots := Rows.deleteWhere (fun r : TurnSnapshot => r.userId = u) db.snapshots
    turns := Rows.deleteWhere (fun r : Turn => r.userId = u) db.turns
    turnRequests := Rows.deleteWhere (fun r : TurnRequest => r.userId = u) db.turnRequests
    leases := Rows.deleteWhere (fun r : Lease => r.userId = u) db.leases
    jobs := Rows.deleteWhere (fun r : Job => r.userId = u) db.jobs
    forkRequests := Rows.deleteWhere (fun r : ForkRequest => r.userId = u) db.forkRequests
    favorites := Rows.deleteWhere (fun r : Favorite => r.userId = u) db.favorites
    conversations := Rows.deleteWhere (fun r : Conversation => r.userId = u) db.conversations }

/-- `delete_all_user_data`: the ids of the conversations deleted. -/
def deleteAllUserData (u : UserId) (db : Db) : Outcome (List Id) :=
  transaction db <|
    let cids := (db.conversations.filter (·.userId = u)).map (·.id)
    let db₁ := db.deleteUserRows u
    let left := privacyInventory db₁ u
    if left ≠ 0 then .error (.runtimeError s!"relational erasure left {left} rows")
    else .ok (cids, db₁)

lemma deleteAllUserData_snd (u : UserId) (db : Db) :
    (deleteAllUserData u db).2 = db ∨ (deleteAllUserData u db).2 = db.deleteUserRows u := by
  unfold deleteAllUserData
  dsimp only
  split
  · exact .inl rfl
  · exact .inr rfl

/-- `delete_all_conversations`: the ids of the conversations deleted. Favorites and idempotency
keys of branches stay. -/
def deleteAllConversations (p : Process) (now : Instant) (u : UserId) (db : Db) :
    Outcome (List Id) :=
  transaction db do
    raiseIfTurnRunning p now db (db.leasesOf u)
    return ((db.conversations.filter (·.userId = u)).map (·.id),
      { db.deleteUserRows u with favorites := db.favorites, forkRequests := db.forkRequests })

lemma deleteAllConversations_snd (p : Process) (now : Instant) (u : UserId) (db : Db) :
    (deleteAllConversations p now u db).2 = db ∨
      (deleteAllConversations p now u db).2 =
        { db.deleteUserRows u with favorites := db.favorites, forkRequests := db.forkRequests } := by
  unfold deleteAllConversations
  simp only [bind, Except.bind, pure, Except.pure]
  split
  · exact .inl rfl
  · exact .inr rfl

/-- The loop over the leases of the user, as they were fetched from `db₀`: a blocking one stops
the erasure, the turn of any other is marked failed. -/
def failLeaseTurns (p : Process) (now : Instant) (u : UserId) (db₀ : Db) :
    List Lease → Db → Except StoreError Db
  | [], db => .ok db
  | l :: ls, db =>
    if leaseBlocks p db₀ (db₀.leaseView l) now then .error (busyWith (db₀.leaseView l) now)
    else failLeaseTurns p now u db₀ ls (db.failRunning u l.turnId now)

/-- The loop passes when no lease blocks, and marks failed exactly the running turns that the
leases name. -/
lemma failLeaseTurns_ok {p : Process} {now : Instant} {u : UserId} {db₀ : Db} {ls : List Lease}
    {db db' : Db} (h : failLeaseTurns p now u db₀ ls db = .ok db') :
    (∀ l ∈ ls, leaseBlocks p db₀ (db₀.leaseView l) now = false) ∧
    db' = { db with
      turns := Rows.updateWhere
        (fun t : Turn => t.userId = u ∧ t.id ∈ ls.map (·.turnId) ∧ t.status = .running)
        (fun t => { t with status := .failed, completedAt := some now }) db.turns } := by
  induction ls generalizing db with
  | nil =>
    rw [Rows.updateWhere_eq_self (by simp)]
    exact ⟨by simp, (Except.ok.inj h).symm⟩
  | cons l ls ih =>
    unfold failLeaseTurns at h
    split at h
    · cases h
    · next hblock =>
      obtain ⟨hfree, rfl⟩ := ih h
      refine ⟨?_, ?_⟩
      · intro l' hl'
        rcases List.mem_cons.1 hl' with rfl | hl'
        · simpa using hblock
        · exact hfree l' hl'
      · simp only [Db.failRunning, Rows.updateWhere, List.map_map, Db.mk.injEq, true_and, and_true]
        refine List.map_congr_left fun t _ => ?_
        by_cases hu : t.userId = u <;> by_cases hl : t.id = l.turnId <;>
          by_cases hr : t.status = .running <;> simp [hu, hl, hr]

/-- A job still being worked on stops the erasure. -/
def raiseIfJobRunning (now : Instant) (u : UserId) (db : Db) : Except StoreError Unit :=
  match Rows.selectOne (fun j : Job => j.userId = u ∧ j.status = .running) db.jobs with
  | none => .ok ()
  | some j =>
    match j.leaseExpires with
    | none =>
      .error (.conversationBusy (Text.ofString "background-job:" ++ Text.ofNat j.id) 1)
    | some expires =>
      if now < expires then
        .error (.conversationBusy (Text.ofString "background-job:" ++ Text.ofNat j.id)
          (retryAfter expires now))
      else .ok ()

/-- A running job set back to pending by the erasure. -/
def Job.requeue (j : Job) (now : Instant) : Job :=
  { j with status := .pending, claimedBy := none, leaseExpires := none, updatedAt := now }

/-- The transaction of `begin_privacy_erasure`. -/
def beginErasureBody (p : Process) (now : Instant) (u : UserId) (db : Db) :
    Except StoreError (Unit × Db) := do
  if db.erasing u then throw (.privacyErasureInProgress "privacy erasure already in progress")
  let db₁ ← failLeaseTurns p now u db (db.leasesOf u) db
  raiseIfJobRunning now u db₁
  let db₂ := db₁.updateJobs (fun j => j.userId = u ∧ j.status = .running) (·.requeue now)
  return ((), { db₂ with
    leases := Rows.deleteWhere (fun l : Lease => l.userId = u) db₂.leases
    erasureLocks := db₂.erasureLocks ++ [{ userId := u, startedAt := now }] })

/-- `begin_privacy_erasure`: block new turns once no turn or job can write back. -/
def beginPrivacyErasure (p : Process) (now : Instant) (u : UserId) (db : Db) : Outcome Unit :=
  transaction db (beginErasureBody p now u db)

/-- What a begun erasure is made of. -/
lemma beginPrivacyErasure_cases (p : Process) (now : Instant) (u : UserId) (db : Db) :
    (∃ e, beginPrivacyErasure p now u db = (.error e, db)) ∨
    ∃ db₁, db.erasing u = false ∧ failLeaseTurns p now u db (db.leasesOf u) db = .ok db₁ ∧
      raiseIfJobRunning now u db₁ = .ok () ∧
      beginPrivacyErasure p now u db = (.ok (), { db₁ with
        jobs := Rows.updateWhere (fun j : Job => j.userId = u ∧ j.status = .running)
          (·.requeue now) db₁.jobs
        leases := Rows.deleteWhere (fun l : Lease => l.userId = u) db₁.leases
        erasureLocks := db₁.erasureLocks ++ [{ userId := u, startedAt := now }] }) := by
  unfold beginPrivacyErasure beginErasureBody
  simp only [bind, Except.bind, pure, Except.pure]
  split
  · exact .inl ⟨_, rfl⟩
  · next hfree =>
    split
    · exact .inl ⟨_, rfl⟩
    · next db₁ hfail =>
      split
      · exact .inl ⟨_, rfl⟩
      · next hjob => exact .inr ⟨db₁, by simpa using hfree, hfail, hjob, rfl⟩

/-- `end_privacy_erasure`. -/
def endPrivacyErasure (u : UserId) (db : Db) : Db :=
  { db with
    erasureLocks := Rows.deleteWhere (fun l : ErasureLock => l.userId = u) db.erasureLocks }

end RentCompass.Store
