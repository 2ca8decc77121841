import RentCompass.Store.Turns
import Mathlib.Data.List.Pairwise
import Mathlib.Data.List.Sort

/-!
# Branches: fork, edit, lineage

`fork_conversation` and `branch_for_edit` read the store first and open their transaction after
that, so each is two steps: a plan made from what was read, and the transaction that carries the
plan out, possibly on a store that others have changed meanwhile.
-/

namespace RentCompass.Store

/-- `ORDER BY started_at ASC`; ties keep the order of insertion. -/
def byStart (ts : List Turn) : List Turn :=
  ts.insertionSort fun t t' => t.startedAt ≤ t'.startedAt

@[simp] lemma mem_byStart {ts : List Turn} {t : Turn} : t ∈ byStart ts ↔ t ∈ ts := by
  simp [byStart]

lemma byStart_pairwise (ts : List Turn) :
    (byStart ts).Pairwise fun t t' => t.startedAt ≤ t'.startedAt := by
  have htotal : Std.Total fun t t' : Turn => t.startedAt ≤ t'.startedAt :=
    ⟨fun t t' => le_total t.startedAt t'.startedAt⟩
  have htrans : IsTrans Turn fun t t' => t.startedAt ≤ t'.startedAt :=
    ⟨fun _ _ _ h h' => le_trans h h'⟩
  exact List.pairwise_insertionSort _ ts

lemma byStart_getLast {ts : List Turn} {l : Turn} (hl : (byStart ts).getLast? = some l) :
    ∀ t ∈ byStart ts, t.startedAt ≤ l.startedAt := by
  intro t ht
  have hlast : (byStart ts).getLast (List.ne_nil_of_mem ht) = l := by
    rw [List.getLast?_eq_some_getLast (List.ne_nil_of_mem ht)] at hl
    exact Option.some.inj hl
  have hle := (byStart_pairwise ts).rel_getLast_of_rel_getLast_getLast ht le_rfl
  rwa [hlast] at hle

/-- The completed turns of a conversation that meet a bound on their start, in that order. -/
def completedTurns (db : Db) (u : UserId) (cid : Id) (bound : Instant → Bool) : List Turn :=
  byStart (db.turns.filter fun t =>
    t.userId = u ∧ t.conversationId = cid ∧ t.status = .completed ∧ bound t.startedAt)

lemma mem_completedTurns {db : Db} {u : UserId} {cid : Id} {bound : Instant → Bool} {t : Turn} :
    t ∈ completedTurns db u cid bound ↔ t ∈ db.turns ∧ t.userId = u ∧ t.conversationId = cid ∧
      t.status = .completed ∧ bound t.startedAt := by
  simp [completedTurns]

/-- `latest_completed_turn`. -/
def latestCompletedTurn (db : Db) (u : UserId) (cid : Id) : Option Turn :=
  (completedTurns db u cid fun _ => true).getLast?

/-! ### The plan -/

/-- What tells a fork from an edit, as far as it was read before the transaction. -/
inductive BranchKind where
  | fork (afterTurnId : Option Id) (forkTurn : Turn)
  | edit (turnId : Id) (srcTurns : List Turn) (cutoffMsgId : Option Nat) (anchor : Id)

/-- A branch call between its reads and its transaction. -/
structure BranchPlan where
  userId : UserId
  source : Conversation
  title : Option Text
  idempotencyKey : Option Text
  kind : BranchKind

/-- What the reads of a branch call lead to: the child an earlier call made, or a plan. -/
inductive BranchRead where
  | existing (child : Conversation)
  | plan (p : BranchPlan)

def editReason : Text := Text.ofString "edit"

/-- `_fork_fingerprint`. -/
def forkFingerprint (kind : String) (source : Id) (turnId : Option Id) : Text :=
  Text.ofString kind ++ Text.ofString "|" ++ source.text ++ Text.ofString "|" ++
    (turnId.elim [] Id.text)

/-- The child an idempotency key names, when it still exists: it must be of this source, this
kind and this branch point. -/
def replayBranchKey (db : Db) (u : UserId) (source : Id) (kind : String) (isEdit : Bool)
    (turnId : Option Id) (key : Option Text) : Except StoreError (Option Conversation) :=
  match key with
  | none | some [] => .ok none
  | some key =>
    match Rows.selectOne (fun r : ForkRequest => r.userId = u ∧ r.idempotencyKey = key)
        db.forkRequests with
    | none => .ok none
    | some existing =>
      match db.conversationOf u existing.conversationId with
      | none => .ok none
      | some child =>
        if child.parentConversationId ≠ some source ∨
            (decide (child.forkReason = some editReason) ≠ isEdit) ∨
            existing.requestFingerprint.any (· ≠ forkFingerprint kind source turnId) then
          .error (.idempotencyKeyReused key)
        else .ok (some child)

/-- The turn to fork after: the one named, which must be a completed turn of the source, or the
latest completed one. -/
def resolveForkTurn (db : Db) (u : UserId) (source : Id) :
    Option Id → Except StoreError Turn
  | none =>
    match latestCompletedTurn db u source with
    | none => .error (.noCompletedTurn source)
    | some t => .ok t
  | some tid =>
    match db.turnOf u tid with
    | none => .error (.turnNotFound tid)
    | some t =>
      if t.conversationId ≠ source then .error (.turnNotInConversation tid)
      else if t.status ≠ .completed then .error (.turnNotCompleted tid)
      else .ok t

/-- The reads of `fork_conversation`. -/
def forkConversationPlan (db : Db) (u : UserId) (source : Id) (afterTurnId : Option Id)
    (title key : Option Text) : Except StoreError BranchRead := do
  match ← replayBranchKey db u source "fork" false afterTurnId key with
  | some child => return .existing child
  | none =>
    match db.conversationOf u source with
    | none => throw (.conversationNotFound source)
    | some src =>
      let forkTurn ← resolveForkTurn db u source afterTurnId
      return .plan { userId := u, source := src, title := title, idempotencyKey := key,
                     kind := .fork afterTurnId forkTurn }

/-- `_resolve_slot_anchor`: an edit of an edit branch's own first fresh turn stays in the slot
the branch was made for. -/
def resolveSlotAnchor (db : Db) (u : UserId) (src : Conversation) (editedTurnId : Id) : Id :=
  let boundary : Option Instant :=
    (src.forkedFromTurnId.bind fun f => db.turnOf u f).map (·.startedAt)
  let firstFresh := (byStart (db.turns.filter fun t =>
    t.userId = u ∧ t.conversationId = src.id ∧ boundary.all (· < t.startedAt))).head?
  match src.editedSlotTurnId with
  | some anchor => if firstFresh.map (·.id) = some editedTurnId then anchor else editedTurnId
  | none => editedTurnId

/-- The ids of the messages of a turn. -/
def Turn.messageIds (t : Turn) : List Nat := t.userMessageId.toList ++ t.assistantMessageId.toList

/-- The last message id a row without a turn may have to be inherited by an edit branch. -/
def editCutoff (edited : Turn) (srcTurns : List Turn) : Option Nat :=
  match edited.messageIds.min? with
  | some mid => some (mid - 1)
  | none => (srcTurns.flatMap Turn.messageIds).max?

/-- The reads of `branch_for_edit`. -/
def branchForEditPlan (db : Db) (u : UserId) (source turnId : Id) (title key : Option Text) :
    Except StoreError BranchRead := do
  match ← replayBranchKey db u source "edit" true (some turnId) key with
  | some child => return .existing child
  | none =>
    match db.conversationOf u source with
    | none => throw (.conversationNotFound source)
    | some src =>
      match db.turnOf u turnId with
      | none => throw (.turnNotFound turnId)
      | some edited =>
        if edited.conversationId ≠ source then throw (.turnNotInConversation turnId)
        let srcTurns := completedTurns db u source (· < edited.startedAt)
        return .plan { userId := u, source := src, title := title, idempotencyKey := key,
                       kind := .edit turnId srcTurns (editCutoff edited srcTurns)
                         (resolveSlotAnchor db u src turnId) }

/-! ### The copy -/

/-- `turn_map`: the copy of the `i`-th inherited turn gets the `i`-th id drawn. -/
def turnMap (fresh : Id) (srcTurns : List Turn) : List (Id × Id) :=
  Rows.renumber fresh (·.id) srcTurns

/-- The messages that turns outside the inherited ones refer to. -/
def otherTurnMsgIds (db : Db) (u : UserId) (source : Id) (srcTurns : List Turn) : List Nat :=
  (db.turns.filter fun t => t.userId = u ∧ t.conversationId = source ∧
    t.id ∉ srcTurns.map (·.id)).flatMap Turn.messageIds

/-- Whether `_materialize_branch` copies a message of the source. -/
def inheritsMessage (db : Db) (u : UserId) (source : Id) (srcTurns : List Turn)
    (cutoff : Option Nat) (m : Message) : Bool :=
  if m.id ∈ srcTurns.flatMap Turn.messageIds ∨ m.turnId.any (· ∈ srcTurns.map (·.id)) then true
  else if m.turnId.isSome then false
  else if m.id ∈ otherTurnMsgIds db u source srcTurns then false
  else cutoff.any (m.id ≤ ·)

/-- The source messages a branch inherits, in the order of their ids. -/
def inheritedMessages (db : Db) (u : UserId) (source : Id) (srcTurns : List Turn)
    (cutoff : Option Nat) : List Message :=
  db.messages.filter fun m =>
    m.userId = u ∧ m.conversationId = source ∧ inheritsMessage db u source srcTurns cutoff m

/-- `msg_map`: the `i`-th message copied gets the `i`-th key. -/
def messageMap (next : Nat) (ms : List Message) : List (Nat × Nat) :=
  Rows.renumber next (·.id) ms

/-- The copies of the inherited messages. -/
def copiedMessages (next : Nat) (u : UserId) (child : Id) (turns : List (Id × Id))
    (ms : List Message) : List Message :=
  ms.zipIdx.map fun mi =>
    { mi.1 with id := next + mi.2, userId := u, conversationId := child,
                turnId := mi.1.turnId.bind (List.lookup · turns) }

/-- The copies of the inherited turns. -/
def copiedTurns (fresh : Id) (u : UserId) (child : Id) (messages : List (Nat × Nat))
    (srcTurns : List Turn) : List Turn :=
  srcTurns.zipIdx.map fun ti =>
    { ti.1 with id := fresh + ti.2, userId := u, conversationId := child,
                userMessageId := ti.1.userMessageId.bind (List.lookup · messages),
                assistantMessageId := ti.1.assistantMessageId.bind (List.lookup · messages) }

/-- The snapshot of a copied turn, when the turn has one. -/
def copySnapshot (now : Instant) (u : UserId) (child : Id) (db : Db) (tt : Id × Id) : Db :=
  match Rows.selectOne (fun s : TurnSnapshot => s.userId = u ∧ s.turnId = tt.1) db.snapshots with
  | none => db
  | some snap =>
    db.putSnapshot { snap with turnId := tt.2, userId := u, conversationId := child,
                               snapshotJson := { snap.snapshotJson with turnId := some tt.2 },
                               createdAt := now }

/-- `_materialize_branch`: the inherited turns, their messages and their snapshots are copied
into the child. It draws one id for each turn. -/
def materializeBranch (now : Instant) (fresh : Id) (u : UserId) (source child : Id)
    (srcTurns : List Turn) (cutoff : Option Nat) (db : Db) : Except StoreError Db :=
  let turns := turnMap fresh srcTurns
  let ms := inheritedMessages db u source srcTurns cutoff
  let copies := copiedTurns fresh u child (messageMap db.nextMessageId ms) srcTurns
  if copies.any fun t => t.status = .completed ∧ t.assistantMessageId = none then
    .error (.integrityError "completed turn requires assistant_message_id")
  else
    let db₁ := { db with
      messages := db.messages ++ copiedMessages db.nextMessageId u child turns ms
      nextMessageId := db.nextMessageId + ms.length
      turns := db.turns ++ copies }
    .ok (turns.foldl (copySnapshot now u child) db₁)

/-! ### The transaction -/

/-- The turns a plan copies. A fork selects them inside its transaction, an edit before it. -/
def BranchPlan.srcTurns (plan : BranchPlan) (db : Db) : List Turn :=
  match plan.kind with
  | .fork _ forkTurn =>
    completedTurns db plan.userId plan.source.id (· ≤ forkTurn.startedAt)
  | .edit _ srcTurns _ _ => srcTurns

def BranchPlan.cutoff (plan : BranchPlan) : Option Nat :=
  match plan.kind with
  | .fork _ forkTurn => forkTurn.assistantMessageId <|> forkTurn.userMessageId
  | .edit _ _ cutoff _ => cutoff

/-- The fork turn recorded on the child; none for a branch that inherits nothing. -/
def BranchPlan.forkedFrom (plan : BranchPlan) : Option Id :=
  match plan.kind with
  | .fork _ forkTurn => some forkTurn.id
  | .edit _ srcTurns _ _ => srcTurns.getLast?.map (·.id)

def BranchPlan.fingerprint (plan : BranchPlan) : Text :=
  match plan.kind with
  | .fork afterTurnId _ => forkFingerprint "fork" plan.source.id afterTurnId
  | .edit turnId _ _ _ => forkFingerprint "edit" plan.source.id (some turnId)

/-- The row of the child conversation. -/
def BranchPlan.child (plan : BranchPlan) (cid : Id) (now : Instant) : Conversation where
  userId := plan.userId
  id := cid
  title := boundedTitle plan.title plan.source.title (match plan.kind with
    | .fork .. => Text.ofString " (branch)"
    | .edit .. => Text.ofString " (edit)")
  createdAt := now
  updatedAt := now
  parentConversationId := some plan.source.id
  forkedFromTurnId := plan.forkedFrom
  rootConversationId := some (plan.source.rootConversationId.getD plan.source.id)
  branchDepth := plan.source.branchDepth + 1
  contextSchemaVersion := 1
  forkReason := match plan.kind with
    | .fork .. => none
    | .edit .. => some editReason
  editedSlotTurnId := match plan.kind with
    | .fork .. => none
    | .edit _ _ _ anchor => some anchor
  agentArch := plan.source.agentArch
  agentVersion := plan.source.agentVersion
  strict := plan.source.strict

/-- `INSERT OR REPLACE INTO fork_requests`, when there is a key. -/
def Db.recordForkRequest (db : Db) (plan : BranchPlan) (child : Id) (now : Instant) : Db :=
  match plan.idempotencyKey with
  | none | some [] => db
  | some key =>
    { db with
      forkRequests := Rows.deleteWhere
          (fun r : ForkRequest => r.userId = plan.userId ∧ r.idempotencyKey = key)
          db.forkRequests ++
        [{ userId := plan.userId, idempotencyKey := key, conversationId := child,
           createdAt := now, requestFingerprint := some plan.fingerprint }] }

/-- The body of the branch transaction. -/
def branchBody (now : Instant) (fresh : Id) (plan : BranchPlan) (db : Db) :
    Except StoreError (Conversation × Db) := do
  let child := plan.child fresh now
  let db₁ := db.insertConversation child
  let db₂ ← materializeBranch now (fresh + 1) plan.userId plan.source.id fresh
    (plan.srcTurns db₁) plan.cutoff db₁
  return (child, db₂.recordForkRequest plan fresh now)

/-- The transaction of `fork_conversation` and `branch_for_edit`. It draws the child's id and one
id for each inherited turn. -/
def commitBranch (now : Instant) (fresh : Id) (plan : BranchPlan) (db : Db) :
    Outcome Conversation :=
  transaction db (branchBody now fresh plan db)

/-! ### Lineage -/

/-- One entry of a branch lineage: a conversation, and the start of the last turn of it that the
descendant may see. -/
structure LineageEntry where
  conversationId : Id
  before : Option Instant
deriving DecidableEq

/-- The walk up the parents; `fuel` is what is left of the depth limit. -/
def lineageWalk (db : Db) (u : UserId) :
    Nat → Id → Option Instant → List Id → List LineageEntry
  | 0, _, _, _ => []
  | fuel + 1, current, before, seen =>
    if current ∈ seen then []
    else match db.conversationOf u current with
      | none => []
      | some row =>
        { conversationId := current, before := before } ::
          match row.parentConversationId, row.forkedFromTurnId with
          | some parent, some forkTurnId =>
            lineageWalk db u fuel parent
              (some (((db.turnOf u forkTurnId).map (·.startedAt)).getD row.createdAt))
              (current :: seen)
          -- no parent, or a branch that inherits nothing
          | _, _ => []

/-- The depth limit of `get_branch_lineage`. -/
def lineageDepth : Nat := 50

/-- `get_branch_lineage`. -/
def getBranchLineage (db : Db) (u : UserId) (cid : Id) : List LineageEntry :=
  lineageWalk db u lineageDepth cid none []

/-- The kinds of memory rows. -/
inductive MemoryType where
  | semantic
  | episodic
  | reflection
deriving DecidableEq

/-- The metadata of a memory row that decides its visibility. -/
structure MemoryMeta where
  mtype : MemoryType
  conversationId : Option Id
  turnStartedAt : Option Instant

/-- `AgentMemory._visible_in_lineage`. -/
def visibleInLineage (row : MemoryMeta) (lineage : List LineageEntry) : Bool :=
  if row.mtype ≠ .episodic then true
  else match row.conversationId with
    | none => true
    | some cid => lineage.any fun e =>
        e.conversationId = cid && match e.before, row.turnStartedAt with
          | some before, some started => decide (started ≤ before)
          | _, _ => true

end RentCompass.Store
