import RentCompass.Store.Schema

/-!
# Turn leases

A lease names the turn that may run in a conversation, when it expires and the process that
holds it. Whether a lease still blocks depends on the clock and on what the asking process can
see of the owner, so both are arguments: nothing is assumed about them.
-/

namespace RentCompass.Store

/-- A process that uses the store: its owner id, its host, and which pids of the host it finds
alive at the moment of the call. -/
structure Process where
  ownerId : Id
  host : Text
  pidAlive : Nat → Bool

/-- `LEASE_OWNER_STALE_SECONDS`. -/
def leaseOwnerStaleSeconds : Nat := 90

/-- A lease row joined with the status of its turn. -/
structure LeaseView where
  turnId : Id
  expiresAt : Instant
  ownerId : Option Id
  status : Option TurnStatus

/-- `LEFT JOIN turns t ON t.id = l.turn_id`. -/
def Db.leaseView (db : Db) (l : Lease) : LeaseView where
  turnId := l.turnId
  expiresAt := l.expiresAt
  ownerId := l.ownerId
  status := (Rows.selectOne (fun t : Turn => t.id = l.turnId) db.turns).map (·.status)

/-- `_lease_blocks`: the lease belongs to a turn that can still be running somewhere. -/
def leaseBlocks (p : Process) (db : Db) (lease : LeaseView) (now : Instant) : Bool :=
  if lease.status ≠ some .running ∨ lease.expiresAt ≤ now then false
  else match lease.ownerId with
    | none => true
    | some owner =>
      if owner = p.ownerId then true
      else match Rows.selectOne (fun o : StoreOwner => o.ownerId = owner) db.owners with
        | none => false
        | some row =>
          if row.host = p.host ∧ p.pidAlive row.pid = false then false
          else now < row.heartbeatAt + leaseOwnerStaleSeconds * second

/-- The seconds a `ConversationBusy` tells the client to wait. -/
def retryAfter (expiresAt now : Instant) : Nat := max 1 ((expiresAt - now) / second)

/-- `ConversationBusy` for a turn that holds a lease. -/
def busyWith (lease : LeaseView) (now : Instant) : StoreError :=
  .conversationBusy lease.turnId.text (retryAfter lease.expiresAt now)

/-- `_raise_if_turn_running`: the first lease among `leases` that blocks. -/
def raiseIfTurnRunning (p : Process) (now : Instant) (db : Db) :
    List Lease → Except StoreError Unit
  | [] => .ok ()
  | l :: ls =>
    if leaseBlocks p db (db.leaseView l) now then .error (busyWith (db.leaseView l) now)
    else raiseIfTurnRunning p now db ls

lemma raiseIfTurnRunning_ok {p : Process} {now : Instant} {db : Db} {ls : List Lease} :
    raiseIfTurnRunning p now db ls = .ok () ↔
      ∀ l ∈ ls, leaseBlocks p db (db.leaseView l) now = false := by
  induction ls with
  | nil => simp [raiseIfTurnRunning]
  | cons l ls ih =>
    by_cases h : leaseBlocks p db (db.leaseView l) now
    · simp [raiseIfTurnRunning, h]
    · simp [raiseIfTurnRunning, h, ih]

/-- The lease row of a conversation. -/
def Db.leaseOf (db : Db) (u : UserId) (cid : Id) : Option Lease :=
  Rows.selectOne (fun l : Lease => l.userId = u ∧ l.conversationId = cid) db.leases

/-- The rows that `conversation_turn_leases` holds for a user. -/
def Db.leasesOf (db : Db) (u : UserId) : List Lease := db.leases.filter (·.userId = u)

/-! ### The statements that end a turn -/

/-- `UPDATE turns SET status='failed', completed_at=? WHERE user_id=? AND id=? AND
status='running'`. -/
def Db.failRunning (db : Db) (u : UserId) (tid : Id) (now : Instant) : Db :=
  { db with
    turns := Rows.updateWhere
      (fun t : Turn => t.userId = u ∧ t.id = tid ∧ t.status = .running)
      (fun t => { t with status := .failed, completedAt := some now }) db.turns }

/-- `DELETE FROM conversation_turn_leases WHERE user_id=? AND turn_id=?`. -/
def Db.releaseTurn (db : Db) (u : UserId) (tid : Id) : Db :=
  { db with
    leases := Rows.deleteWhere
      (fun l : Lease => l.userId = u ∧ l.turnId = tid) db.leases }

/-- `DELETE FROM conversation_turn_leases WHERE user_id=? AND conversation_id=?`. -/
def Db.releaseConversation (db : Db) (u : UserId) (cid : Id) : Db :=
  { db with
    leases := Rows.deleteWhere
      (fun l : Lease => l.userId = u ∧ l.conversationId = cid) db.leases }

/-- `DELETE FROM turn_requests WHERE user_id=? AND request_id=?`. -/
def Db.releaseRequest (db : Db) (u : UserId) (rid : Text) : Db :=
  { db with
    turnRequests := Rows.deleteWhere
      (fun r : TurnRequest => r.userId = u ∧ r.requestId = rid) db.turnRequests }

/-- `UPDATE conversations SET updated_at=? WHERE user_id=? AND id=?`. -/
def Db.touch (db : Db) (u : UserId) (cid : Id) (now : Instant) : Db :=
  { db with
    conversations := Rows.updateWhere
      (fun c : Conversation => c.userId = u ∧ c.id = cid)
      (fun c => { c with updatedAt := now }) db.conversations }

end RentCompass.Store
