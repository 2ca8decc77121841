import RentCompass.Store.Origins

/-!
# The rows of a user

The nine tables of the privacy inventory, seen through the keys of the rows a user has in them.
-/

namespace RentCompass.Web

open Store

/-- The key of a row in one of the nine tables of the privacy inventory. -/
inductive RowKey where
  | conversation (id : Id)
  | message (id : Nat)
  | favorite (url : Text)
  | turn (id : Id)
  | snapshot (turnId : Id)
  | turnRequest (requestId : Text)
  | lease (conversationId : Id)
  | job (id : Nat)
  | forkRequest (key : Text)
deriving DecidableEq

/-- The keys of the rows of a user in one table. -/
def keysOf {ρ : Type} (user : ρ → UserId) (key : ρ → RowKey) (u : UserId) (table : List ρ) :
    List RowKey :=
  (table.filter (user · = u)).map key

/-- The keys of the rows of a user in the conversation database. -/
def rowsOf (db : Db) (u : UserId) : List RowKey :=
  keysOf Conversation.userId (fun r => .conversation r.id) u db.conversations ++
  keysOf Message.userId (fun r => .message r.id) u db.messages ++
  keysOf Favorite.userId (fun r => .favorite r.url) u db.favorites ++
  keysOf Turn.userId (fun r => .turn r.id) u db.turns ++
  keysOf TurnSnapshot.userId (fun r => .snapshot r.turnId) u db.snapshots ++
  keysOf TurnRequest.userId (fun r => .turnRequest r.requestId) u db.turnRequests ++
  keysOf Lease.userId (fun r => .lease r.conversationId) u db.leases ++
  keysOf Job.userId (fun r => .job r.id) u db.jobs ++
  keysOf ForkRequest.userId (fun r => .forkRequest r.idempotencyKey) u db.forkRequests

/-- The conversations of a user. -/
def conversationsOf (db : Db) (u : UserId) : List Id :=
  (db.conversations.filter (·.userId = u)).map (·.id)

end RentCompass.Web
