import RentCompass.Store.TurnCalls
import RentCompass.Store.BranchKeys

/-!
# What a branch inherits

A branch gets the completed turns up to its branch point, each with the messages that are its own
and its snapshot, and the rows no turn has, up to a cutoff. Everything is copied under new ids, and
where a row of the source refers to a row that is copied, its copy refers to the copy.
-/

namespace RentCompass.Store

open Rows

/-! ### What is copied -/

/-- The rows of a conversation. -/
structure Content where
  conversations : List Conversation
  turns : List Turn
  messages : List Message
  snapshots : List TurnSnapshot

def Db.content (db : Db) (u : UserId) (cid : Id) : Content where
  conversations := db.conversations.filter fun c => c.userId = u ∧ c.id = cid
  turns := db.turns.filter fun t => t.userId = u ∧ t.conversationId = cid
  messages := db.messages.filter fun m => m.userId = u ∧ m.conversationId = cid
  snapshots := db.snapshots.filter fun s => s.userId = u ∧ s.conversationId = cid

/-- The message is tagged with the turn, or named by it. -/
def Turn.Has (t : Turn) (m : Message) : Prop := m.turnId = some t.id ∨ m.id ∈ t.messageIds

instance (t : Turn) (m : Message) : Decidable (t.Has m) := inferInstanceAs (Decidable (_ ∨ _))

/-- The reads of a branch call. -/
def BranchRequest.plan (r : BranchRequest) (db : Db) (u : UserId) (title key : Option Text) :
    Except StoreError BranchRead :=
  match r with
  | .fork source afterTurnId => forkConversationPlan db u source afterTurnId title key
  | .edit source turnId => branchForEditPlan db u source turnId title key

/-- The turns before the branch point, and the last id a message without a turn may have: a fork
inherits its turn, an edit what comes before. -/
def BranchRequest.Inherits (r : BranchRequest) (db : Db) (u : UserId) (ts : List Turn)
    (cutoff : Option Nat) : Prop :=
  match r with
  | .fork source afterTurnId => ∃ forkTurn, resolveForkTurn db u source afterTurnId = .ok forkTurn ∧
      ts = completedTurns db u source (· ≤ forkTurn.startedAt) ∧
      cutoff = (forkTurn.assistantMessageId <|> forkTurn.userMessageId)
  | .edit source turnId => ∃ edited, db.turnOf u turnId = some edited ∧
      edited.conversationId = source ∧
      ts = completedTurns db u source (· < edited.startedAt) ∧ cutoff = editCutoff edited ts

/-- A message of an inherited turn, or one of no turn up to the cutoff. -/
def Db.Copied (db : Db) (u : UserId) (source : Id) (ts : List Turn) (cutoff : Option Nat)
    (m : Message) : Prop :=
  m.userId = u ∧ m.conversationId = source ∧ ((∃ t ∈ ts, t.Has m) ∨
    m.turnId = none ∧ (∀ t ∈ db.turns, m.id ∉ t.messageIds) ∧ ∃ c ∈ cutoff, m.id ≤ c)

instance (db : Db) (u : UserId) (source : Id) (ts : List Turn) (cutoff : Option Nat)
    (m : Message) : Decidable (db.Copied u source ts cutoff m) :=
  inferInstanceAs (Decidable (_ ∧ _))

/-- The child holds copies of the inherited rows, `τ` and `μ` taking the ids of inherited turns and
messages to those of their copies, and every other conversation is as it was. -/
structure Db.Copies (now : Instant) (u : UserId) (source child : Id) (ts : List Turn)
    (cutoff : Option Nat) (τ : Id → Id) (μ : Nat → Nat) (db db' : Db) : Prop where
  turns : (db'.content u child).turns = ts.map fun t =>
    { t with id := τ t.id, conversationId := child,
             userMessageId := t.userMessageId.map μ,
             assistantMessageId := t.assistantMessageId.map μ }
  ordered : (db'.content u child).turns.Pairwise fun t t' => t.startedAt ≤ t'.startedAt
  turnIds : ∀ t ∈ ts, (∀ t' ∈ db.turns, t'.id ≠ τ t.id) ∧ ∀ t' ∈ ts, τ t'.id = τ t.id → t' = t
  messages : (db'.content u child).messages =
    (db.messages.filter fun m => db.Copied u source ts cutoff m).map fun m =>
      { m with id := μ m.id, conversationId := child, turnId := m.turnId.map τ }
  messageIds : ((db'.content u child).messages.map (·.id)).Pairwise (· < ·) ∧
    ∀ m ∈ db.messages, ∀ m' ∈ (db'.content u child).messages, m.id < m'.id
  remapped : ∀ t ∈ (db'.content u child).turns, ∀ mid ∈ t.messageIds,
    ∃ m ∈ (db'.content u child).messages, m.id = mid ∧ (m.turnId = none ∨ m.turnId = some t.id)
  excluded : ∀ t ∈ db.turns, t ∉ ts → ∀ m ∈ db.messages, t.Has m →
    ¬ db.Copied u source ts cutoff m
  snapshots : (db'.content u child).snapshots = ts.filterMap fun t =>
    (selectOne (fun s : TurnSnapshot => s.userId = u ∧ s.turnId = t.id) db.snapshots).map fun s =>
      { s with turnId := τ t.id, conversationId := child,
               snapshotJson := { s.snapshotJson with turnId := some (τ t.id) }, createdAt := now }
  others : ∀ u' cid, (u', cid) ≠ (u, child) → db'.content u' cid = db.content u' cid

/-! ### The copies, id by id -/

lemma materializeBranch_answered {now : Instant} {fresh : Id} {u : UserId} {source child : Id}
    {ts : List Turn} {cutoff : Option Nat} {db : Db}
    (h : ∀ t ∈ copiedTurns fresh u child (messageMap db.nextMessageId
      (inheritedMessages db u source ts cutoff)) ts,
      t.status = .completed → t.assistantMessageId.isSome) :
    ∃ db', materializeBranch now fresh u source child ts cutoff db = .ok db' := by
  have hnone : ¬ (copiedTurns fresh u child (messageMap db.nextMessageId
      (inheritedMessages db u source ts cutoff)) ts).any
      (fun t => t.status = .completed ∧ t.assistantMessageId = none) := by
    rw [List.any_eq_true]
    rintro ⟨t, ht, hbad⟩
    obtain ⟨hdone, hnone⟩ := of_decide_eq_true hbad
    have hsome := h t ht hdone
    rw [hnone] at hsome
    cases hsome
  exact ⟨_, if_neg hnone⟩

/-- The transaction goes through where every copied turn that is completed has its answer. -/
lemma commitBranch_commits (now : Instant) {n : Id} {plan : BranchPlan} {db : Db}
    (h : ∀ t ∈ copiedTurns (n + 1) plan.userId n (messageMap db.nextMessageId (inheritedMessages db
      plan.userId plan.source.id (plan.srcTurns db) plan.cutoff)) (plan.srcTurns db),
      t.status = .completed → t.assistantMessageId.isSome) :
    ∃ db', commitBranch now n plan db = (.ok (plan.child n now), db') := by
  have hmat : ∃ db', materializeBranch now (n + 1) plan.userId plan.source.id n
      (plan.srcTurns db) plan.cutoff (db.insertConversation (plan.child n now)) = .ok db' :=
    materializeBranch_answered h
  obtain ⟨db', hmat⟩ := hmat
  refine ⟨db'.recordForkRequest plan n now, ?_⟩
  simp only [commitBranch, branchBody, srcTurns_insertConversation, hmat, bind, Except.bind, pure,
    Except.pure, transaction_ok]

lemma copiedTurns_eq {fresh : Id} {u : UserId} {child : Id} {messages : List (Nat × Nat)}
    {ts : List Turn} (hids : Keyed (fun t : Turn => t.id) ts) :
    copiedTurns fresh u child messages ts = ts.map fun t =>
      { t with id := number fresh (fun t : Turn => t.id) ts t.id, userId := u,
               conversationId := child,
               userMessageId := t.userMessageId.bind (List.lookup · messages),
               assistantMessageId := t.assistantMessageId.bind (List.lookup · messages) } := by
  have h := hids.map_zipIdx fresh fun (t : Turn) (tid : Nat) => ({ t with
    id := tid, userId := u, conversationId := child
    userMessageId := t.userMessageId.bind (List.lookup · messages)
    assistantMessageId := t.assistantMessageId.bind (List.lookup · messages) } : Turn)
  exact h

lemma copiedMessages_eq {next : Nat} {u : UserId} {child : Id} {turns : List (Id × Id)}
    {ms : List Message} (hids : Keyed (fun m : Message => m.id) ms) :
    copiedMessages next u child turns ms = ms.map fun m =>
      { m with id := number next (fun m : Message => m.id) ms m.id, userId := u,
               conversationId := child, turnId := m.turnId.bind (List.lookup · turns) } := by
  have h := hids.map_zipIdx next fun (m : Message) (mid : Nat) => ({ m with
    id := mid, userId := u, conversationId := child
    turnId := m.turnId.bind (List.lookup · turns) } : Message)
  exact h

lemma turnMap_eq {fresh : Id} {ts : List Turn} (hids : Keyed (fun t : Turn => t.id) ts) :
    turnMap fresh ts = ts.map fun t => (t.id, number fresh (fun t : Turn => t.id) ts t.id) :=
  hids.map_zipIdx fresh fun t tid => (t.id, tid)

/-- Where every id that is looked up is mapped, looking it up is applying the map. -/
lemma bind_lookup_eq {ρ : Type*} {key : ρ → Nat} {next : Nat} {rows : List ρ} {id : Option Nat}
    (h : ∀ i ∈ id, i ∈ rows.map key) :
    id.bind (List.lookup · (renumber next key rows)) = id.map (number next key rows) := by
  cases id with
  | none => rfl
  | some i =>
    rw [Option.bind_some, Option.map_some]
    exact lookup_renumber_of_mem (h i rfl)

namespace Db.Placed

variable {n : Id} {db db' : Db} {now : Instant} {u : UserId} {source : Id} {ts : List Turn}
  {cutoff : Option Nat}

/-- `_materialize_branch` copies the messages of the inherited turns and the rows no turn has, up to
the cutoff. -/
lemma copied_iff (h : db.Placed n) (hsub : ∀ t ∈ ts, t ∈ db.turns) {m : Message}
    (hm : m ∈ db.messages) :
    m.userId = u ∧ m.conversationId = source ∧ inheritsMessage db u source ts cutoff m ↔
      db.Copied u source ts cutoff m := by
  rw [Db.Copied]
  refine and_congr_right fun hu => and_congr_right fun hc => ?_
  have hhas : (m.id ∈ ts.flatMap Turn.messageIds ∨ m.turnId.any (· ∈ ts.map (·.id))) ↔
      ∃ t ∈ ts, t.Has m := by
    constructor
    · rintro (hmid | htag)
      · obtain ⟨t, ht, hmid⟩ := List.mem_flatMap.1 hmid
        exact ⟨t, ht, .inr hmid⟩
      · obtain ⟨tid, htid, htag⟩ := (Option.any_eq_true _ _).1 htag
        obtain ⟨t, ht, rfl⟩ := List.mem_map.1 (of_decide_eq_true htag)
        exact ⟨t, ht, .inl htid⟩
    · rintro ⟨t, ht, htag | hmid⟩
      · refine .inr ((Option.any_eq_true _ _).2 ⟨t.id, htag, ?_⟩)
        exact decide_eq_true (List.mem_map_of_mem ht)
      · exact .inl (List.mem_flatMap.2 ⟨t, ht, hmid⟩)
  unfold inheritsMessage
  by_cases hown : m.id ∈ ts.flatMap Turn.messageIds ∨ m.turnId.any (· ∈ ts.map (·.id))
  · rw [if_pos hown]
    exact ⟨fun _ => .inl (hhas.1 hown), fun _ => rfl⟩
  rw [if_neg hown]
  have hnot : ¬ ∃ t ∈ ts, t.Has m := fun hex => hown (hhas.2 hex)
  -- a turn that names the message is of its conversation
  have hother : m.id ∈ otherTurnMsgIds db u source ts ↔ ∃ t ∈ db.turns, m.id ∈ t.messageIds := by
    simp only [otherTurnMsgIds, List.mem_flatMap, List.mem_filter, decide_eq_true_eq]
    constructor
    · rintro ⟨t, ⟨ht, -⟩, hmid⟩
      exact ⟨t, ht, hmid⟩
    · rintro ⟨t, ht, hmid⟩
      obtain ⟨m', hm', hid, hu', hc', -⟩ := h.named t ht m.id hmid
      obtain rfl := h.message_eq hm' hm hid
      refine ⟨t, ⟨ht, hu'.symm.trans hu, hc'.symm.trans hc, fun hin => ?_⟩, hmid⟩
      obtain ⟨t', ht', hid'⟩ := List.mem_map.1 hin
      obtain rfl := h.turnIds.eq (hsub t' ht') ht hid'
      exact hnot ⟨t', ht', .inr hmid⟩
  cases htag : m.turnId with
  | some tid => simp [hnot]
  | none =>
    by_cases hin : m.id ∈ otherTurnMsgIds db u source ts
    · obtain ⟨t, ht, hmid⟩ := hother.1 hin
      simp only [Option.isSome_none, hin, if_true]
      simp only [Bool.false_eq_true, if_false, hnot, false_or, true_and, false_iff, not_and]
      exact fun hfree => absurd hmid (hfree t ht)
    · have hfree : ∀ t ∈ db.turns, m.id ∉ t.messageIds :=
        fun t ht hmid => hin (hother.2 ⟨t, ht, hmid⟩)
      have hright : ((∃ t ∈ ts, t.Has m) ∨ (none : Option Id) = none ∧
          (∀ t ∈ db.turns, m.id ∉ t.messageIds) ∧ ∃ c ∈ cutoff, m.id ≤ c) ↔
          ∃ c ∈ cutoff, m.id ≤ c :=
        ⟨fun hor => (hor.resolve_left hnot).2.2, fun hex => .inr ⟨rfl, hfree, hex⟩⟩
      rw [hright]
      simp [hin, Option.any_eq_true]

end Db.Placed

/-! ### The child -/

/-- Rows of the child behind rows of other conversations. -/
lemma filter_content {ρ : Type*} {old new : List ρ} {user : ρ → UserId} {home : ρ → Id} {u : UserId}
    {child : Id} (hold : ∀ r ∈ old, home r ≠ child) (hnew : ∀ r ∈ new, user r = u ∧ home r = child)
    (u' : UserId) (cid : Id) :
    ((old ++ new).filter fun r => user r = u' ∧ home r = cid) =
      if (u', cid) = (u, child) then new
      else old.filter fun r => user r = u' ∧ home r = cid := by
  rw [List.filter_append]
  split
  · next heq =>
    obtain ⟨rfl, rfl⟩ := Prod.mk.inj heq
    rw [List.filter_eq_nil_iff.2 fun r hr => by simp [hold r hr],
      List.filter_eq_self.2 fun r hr => by simp [hnew r hr], List.nil_append]
  · next hne =>
    have hnone : new.filter (fun r => user r = u' ∧ home r = cid) = [] := by
      rw [List.filter_eq_nil_iff]
      intro r hr
      obtain ⟨hu, hc⟩ := hnew r hr
      simp only [hu, hc, decide_eq_true_eq]
      rintro ⟨rfl, rfl⟩
      exact hne rfl
    rw [hnone, List.append_nil]

/-- The number a message is copied under. -/
def BranchPlan.messageNumber (plan : BranchPlan) (db : Db) : Nat → Nat :=
  number db.nextMessageId (fun m : Message => m.id)
    (inheritedMessages db plan.userId plan.source.id (plan.srcTurns db) plan.cutoff)

/-- The id a turn is copied under. -/
def BranchPlan.turnNumber (plan : BranchPlan) (n : Id) (db : Db) : Id → Id :=
  number (n + 1) (fun t : Turn => t.id) (plan.srcTurns db)

namespace Db.Placed

variable {n : Id} {db db' : Db} {now : Instant} {plan : BranchPlan}

lemma keyed_messages (h : db.Placed n) : Keyed (fun m : Message => m.id) db.messages :=
  h.messageIds.imp fun hlt => hlt.ne

lemma keyed_inheritedMessages (h : db.Placed n) (u : UserId) (source : Id) (ts : List Turn)
    (cutoff : Option Nat) :
    Keyed (fun m : Message => m.id) (inheritedMessages db u source ts cutoff) :=
  h.keyed_messages.sublist (List.filter_sublist.map _)

/-- The messages of the inherited turns are inherited. -/
lemma mem_inherited_ids (h : db.Placed n)
    (hi : db.Inherited n plan.userId plan.source.id (plan.srcTurns db))
    (hsub : ∀ t ∈ plan.srcTurns db, t ∈ db.turns) {t : Turn} (ht : t ∈ plan.srcTurns db) {mid : Nat}
    (hmid : mid ∈ t.messageIds) :
    mid ∈ (inheritedMessages db plan.userId plan.source.id (plan.srcTurns db) plan.cutoff).map
      (fun m : Message => m.id) := by
  obtain ⟨m, hm, rfl, -⟩ := h.named t (hsub t ht) mid hmid
  obtain ⟨hu, hc, -⟩ := hi.own t ht m hm hmid
  refine List.mem_map.2 ⟨m, mem_inheritedMessages.2 ⟨hm, ?_⟩, rfl⟩
  rw [h.copied_iff hsub hm]
  exact ⟨hu, hc, .inl ⟨t, ht, .inr hmid⟩⟩

/-- The turns of the child. -/
lemma content_turns (h : db.Placed n)
    (hi : db.Inherited n plan.userId plan.source.id (plan.srcTurns db))
    (hsub : ∀ t ∈ plan.srcTurns db, t ∈ db.turns) (hb : Db.Branched now n plan db db') :
    (db'.content plan.userId n).turns = (plan.srcTurns db).map fun t =>
      { t with id := plan.turnNumber n db t.id, conversationId := n,
               userMessageId := t.userMessageId.map (plan.messageNumber db),
               assistantMessageId := t.assistantMessageId.map (plan.messageNumber db) } := by
  have hold : ∀ t ∈ db.turns, t.conversationId ≠ n := fun t ht => (h.turnsBelow t ht).2.ne
  simp only [Db.content, hb.turns]
  rw [filter_content hold fun t ht => ?_, if_pos rfl, copiedTurns_eq hi.ids]
  · refine List.map_congr_left fun t ht => ?_
    have hmids : ∀ mid ∈ t.messageIds, mid ∈ (inheritedMessages db plan.userId plan.source.id
        (plan.srcTurns db) plan.cutoff).map (fun m : Message => m.id) :=
      fun _ => h.mem_inherited_ids hi hsub ht
    rw [Turn.mk.injEq]
    refine ⟨rfl, (hi.turn t ht).2.1.symm, rfl, rfl, ?_, ?_, rfl, rfl, rfl⟩
    · exact bind_lookup_eq fun mid hmid => hmids mid (List.mem_append_left _ (by simpa using hmid))
    · exact bind_lookup_eq fun mid hmid => hmids mid (List.mem_append_right _ (by simpa using hmid))
  · obtain ⟨i, t₀, -, rfl⟩ := mem_copiedTurns ht
    exact ⟨rfl, rfl⟩

/-- The messages of the child. -/
lemma content_messages (h : db.Placed n)
    (hi : db.Inherited n plan.userId plan.source.id (plan.srcTurns db))
    (hsub : ∀ t ∈ plan.srcTurns db, t ∈ db.turns) (hb : Db.Branched now n plan db db') :
    (db'.content plan.userId n).messages = (db.messages.filter fun m =>
        db.Copied plan.userId plan.source.id (plan.srcTurns db) plan.cutoff m).map fun m =>
      { m with id := plan.messageNumber db m.id, conversationId := n,
               turnId := m.turnId.map (plan.turnNumber n db) } := by
  have hold : ∀ m ∈ db.messages, m.conversationId ≠ n := fun m hm => (h.messagesBelow m hm).2.ne
  have hsame : inheritedMessages db plan.userId plan.source.id (plan.srcTurns db) plan.cutoff =
      db.messages.filter fun m =>
        db.Copied plan.userId plan.source.id (plan.srcTurns db) plan.cutoff m := by
    refine List.filter_congr fun m hm => ?_
    rw [decide_eq_decide]
    exact h.copied_iff hsub hm
  simp only [Db.content, hb.messages]
  rw [filter_content hold fun m hm => ?_, if_pos rfl,
    copiedMessages_eq (h.keyed_inheritedMessages _ _ _ _), ← hsame]
  · refine List.map_congr_left fun m hm => ?_
    obtain ⟨hmem, hu, hc, -⟩ := mem_inheritedMessages.1 hm
    rw [Message.mk.injEq]
    refine ⟨rfl, hu.symm, rfl, rfl, rfl, rfl, rfl, rfl, ?_, rfl⟩
    refine bind_lookup_eq fun tid htid => ?_
    -- a tag of an inherited message is that of an inherited turn
    obtain ⟨-, -, ⟨t, ht, hhas⟩ | ⟨hnone, -⟩⟩ := (h.copied_iff hsub hmem).1
      (mem_inheritedMessages.1 hm).2
    · rcases hhas with htag | hmid
      · obtain rfl := Option.some.inj (htag.symm.trans htid)
        exact List.mem_map_of_mem ht
      · rcases (hi.own t ht m hmem hmid).2.2 with hnone | htag
        · rw [hnone] at htid
          cases htid
        · obtain rfl := Option.some.inj (htag.symm.trans htid)
          exact List.mem_map_of_mem ht
    · rw [hnone] at htid
      cases htid
  · obtain ⟨i, m₀, -, rfl⟩ := mem_copiedMessages hm
    exact ⟨rfl, rfl⟩

/-- The snapshots of the child. -/
lemma content_snapshots (h : db.Placed n)
    (hi : db.Inherited n plan.userId plan.source.id (plan.srcTurns db))
    (hb : Db.Branched now n plan db db') :
    (db'.content plan.userId n).snapshots = (plan.srcTurns db).filterMap fun t =>
      (selectOne (fun s : TurnSnapshot => s.userId = plan.userId ∧ s.turnId = t.id)
        db.snapshots).map fun s =>
        { s with turnId := plan.turnNumber n db t.id, conversationId := n,
                 snapshotJson :=
                   { s.snapshotJson with turnId := some (plan.turnNumber n db t.id) },
                 createdAt := now } := by
  have hold : ∀ s ∈ db.snapshots, s.conversationId ≠ n :=
    fun s hs => (h.snapshotsBelow s hs).2.ne
  simp only [Db.content, hb.snapshots_eq (fun s hs => (h.snapshotsBelow s hs).1)
    fun t ht => (hi.turn t ht).1]
  rw [filter_content hold fun s hs => ?_, if_pos rfl, turnMap_eq hi.ids, List.flatMap_map,
    List.filterMap_eq_flatMap_toList]
  · refine List.flatMap_congr fun t _ => congrArg Option.toList ?_
    refine Option.map_congr fun s hs => ?_
    have hu := (selectOne_holds
      (p := fun s : TurnSnapshot => s.userId = plan.userId ∧ s.turnId = t.id) hs).1
    rw [TurnSnapshot.mk.injEq]
    exact ⟨rfl, hu.symm, rfl, rfl, rfl, rfl⟩
  · obtain ⟨tt, -, hs⟩ := List.mem_flatMap.1 hs
    have hkey := turnId_of_copiedSnapshot hs
    simp only [TurnSnapshot.key, Prod.mk.injEq] at hkey
    exact hkey.2

/-- The rows of other conversations. -/
lemma content_others (h : db.Placed n) (hkin : ∀ k ∈ db.kin, k.id < n)
    (hi : db.Inherited n plan.userId plan.source.id (plan.srcTurns db))
    (hb : Db.Branched now n plan db db') {u : UserId} {cid : Id}
    (hne : (u, cid) ≠ (plan.userId, n)) : db'.content u cid = db.content u cid := by
  have hconversations : ∀ c ∈ db.conversations, c.id ≠ n :=
    fun c hc => (hkin c.kin (List.mem_map_of_mem hc)).ne
  simp only [Db.content, hb.conversations, hb.turns, hb.messages,
    hb.snapshots_eq (fun s hs => (h.snapshotsBelow s hs).1) fun t ht => (hi.turn t ht).1]
  rw [Content.mk.injEq]
  refine ⟨?_, ?_, ?_, ?_⟩
  · rw [filter_content hconversations fun c hc => ?_, if_neg hne]
    rw [List.mem_singleton.1 hc]
    exact ⟨rfl, rfl⟩
  · rw [filter_content (fun t ht => (h.turnsBelow t ht).2.ne) fun t ht => ?_, if_neg hne]
    obtain ⟨i, t₀, -, rfl⟩ := mem_copiedTurns ht
    exact ⟨rfl, rfl⟩
  · rw [filter_content (fun m hm => (h.messagesBelow m hm).2.ne) fun m hm => ?_, if_neg hne]
    obtain ⟨i, m₀, -, rfl⟩ := mem_copiedMessages hm
    exact ⟨rfl, rfl⟩
  · rw [filter_content (fun s hs => (h.snapshotsBelow s hs).2.ne) fun s hs => ?_, if_neg hne]
    obtain ⟨tt, -, hs⟩ := List.mem_flatMap.1 hs
    have hkey := turnId_of_copiedSnapshot hs
    simp only [TurnSnapshot.key, Prod.mk.injEq] at hkey
    exact hkey.2

/-- A message is of one turn at most. -/
lemma owner_eq (h : db.Placed n) {t t' : Turn} (ht : t ∈ db.turns) (ht' : t' ∈ db.turns)
    {m : Message} (hm : m ∈ db.messages) (hhas : t.Has m) (hhas' : t'.Has m) : t = t' := by
  -- a turn that names the message is that of the tag, if there is one
  have htag : ∀ t ∈ db.turns, m.id ∈ t.messageIds → m.turnId = none ∨ m.turnId = some t.id := by
    intro t ht hmid
    obtain ⟨m', hm', hid, -, -, htag⟩ := h.named t ht m.id hmid
    rwa [h.message_eq hm' hm hid] at htag
  refine h.turnIds.eq ht ht' ?_
  rcases hhas with hhas | hmid
  · rcases hhas' with hhas' | hmid'
    · exact Option.some.inj (hhas.symm.trans hhas')
    · rcases htag t' ht' hmid' with hnone | hsome
      · rw [hnone] at hhas
        cases hhas
      · exact Option.some.inj (hhas.symm.trans hsome)
  · rcases hhas' with hhas' | hmid'
    · rcases htag t ht hmid with hnone | hsome
      · rw [hnone] at hhas'
        cases hhas'
      · exact Option.some.inj (hsome.symm.trans hhas')
    · exact (h.once t ht t' ht' m.id hmid hmid').symm

/-- A branch of turns that are there copies what is theirs. -/
lemma copies (h : db.Placed n) (hkin : ∀ k ∈ db.kin, k.id < n)
    (hi : db.Inherited n plan.userId plan.source.id (plan.srcTurns db))
    (hsub : ∀ t ∈ plan.srcTurns db, t ∈ db.turns)
    (hord : (plan.srcTurns db).Pairwise fun t t' => t.startedAt ≤ t'.startedAt)
    (hb : Db.Branched now n plan db db') :
    db.Copies now plan.userId plan.source.id n (plan.srcTurns db) plan.cutoff
      (plan.turnNumber n db) (plan.messageNumber db) db' := by
  have hplaced := h.branch hi hb
  have hturns := h.content_turns hi hsub hb
  have hmessages := h.content_messages hi hsub hb
  constructor
  case turns => exact hturns
  case ordered =>
    rw [hturns, List.pairwise_map]
    exact hord
  case turnIds =>
    intro t ht
    have hmem : t.id ∈ (plan.srcTurns db).map fun t : Turn => t.id := List.mem_map_of_mem ht
    refine ⟨fun t' ht' => ?_, fun t' ht' heq => ?_⟩
    · exact ((h.turnsBelow t' ht').1.trans_le ((Nat.le_succ n).trans (le_number hmem))).ne
    · exact hi.ids.eq ht' ht (number_inj (List.mem_map_of_mem ht') hmem heq)
  case messages => exact hmessages
  case messageIds =>
    refine ⟨hplaced.messageIds.sublist (List.filter_sublist.map _), fun m hm m' hm' => ?_⟩
    rw [hmessages] at hm'
    obtain ⟨m₀, hm₀, rfl⟩ := List.mem_map.1 hm'
    obtain ⟨hmem, hcopied⟩ := List.mem_filter.1 hm₀
    refine (h.messagesBelow m hm).1.trans_le (le_number (List.mem_map.2 ⟨m₀, ?_, rfl⟩))
    exact mem_inheritedMessages.2 ⟨hmem, (h.copied_iff hsub hmem).2 (of_decide_eq_true hcopied)⟩
  case remapped =>
    intro t ht mid hmid
    obtain ⟨hmem, hhome⟩ := List.mem_filter.1 ht
    obtain ⟨hu, hc⟩ := of_decide_eq_true hhome
    obtain ⟨m, hm, hid, hmu, hmc, htag⟩ := hplaced.named t hmem mid hmid
    exact ⟨m, List.mem_filter.2 ⟨hm, decide_eq_true ⟨hmu.trans hu, hmc.trans hc⟩⟩, hid, htag⟩
  case excluded =>
    rintro t ht hnot m hm hhas ⟨-, -, ⟨t', ht', hhas'⟩ | ⟨hnone, hfree, -⟩⟩
    · rw [h.owner_eq ht (hsub t' ht') hm hhas hhas'] at hnot
      exact hnot ht'
    · rcases hhas with htag | hmid
      · rw [hnone] at htag
        cases htag
      · exact hfree t ht hmid
  case snapshots => exact h.content_snapshots hi hb
  case others => exact fun u' cid hne => h.content_others hkin hi hb hne

end Db.Placed

/-! ### Every branch -/

/-- What the reads of a branch call plan. -/
lemma BranchRequest.plan_inherits {r : BranchRequest} {db : Db} {u : UserId}
    {title key : Option Text} {plan : BranchPlan} (h : r.plan db u title key = .ok (.plan plan)) :
    plan.userId = u ∧ plan.source.id = r.source ∧ plan.ReadFrom db ∧
      r.Inherits db u (plan.srcTurns db) plan.cutoff ∧
      ∃ bound, plan.srcTurns db = completedTurns db u r.source bound := by
  cases r with
  | fork source afterTurnId =>
    obtain ⟨src, forkTurn, hsrc, hfork, rfl⟩ := forkConversationPlan_ok h
    have hid : src.id = source := (selectOne_holds
      (p := fun c : Conversation => c.userId = u ∧ c.id = source) hsrc).2
    subst hid
    exact ⟨rfl, rfl, .inl ⟨_, _, _, _, _, h⟩, ⟨forkTurn, hfork, rfl, rfl⟩,
      fun start => decide (start ≤ forkTurn.startedAt), rfl⟩
  | edit source turnId =>
    obtain ⟨src, edited, hsrc, hedited, hconv, rfl⟩ := branchForEditPlan_ok h
    have hid : src.id = source := (selectOne_holds
      (p := fun c : Conversation => c.userId = u ∧ c.id = source) hsrc).2
    exact ⟨rfl, hid, .inr ⟨_, _, _, _, _, h⟩, ⟨edited, hedited, hconv, rfl, rfl⟩,
      fun start => decide (start < edited.startedAt), rfl⟩

/-- A fork or an edit of any conversation, however the rows of its turns were written, makes a
branch with copies of the completed turns up to the branch point, of their messages, of the rows no
turn has up to the cutoff, and of the snapshots, under new ids; nothing else changes. -/
theorem branch_copies (cs : List TurnCall)
    (hcs : Runs.Along World.perform World.Orderly .empty cs) (r : BranchRequest) (u : UserId)
    (title key : Option Text) (plan : BranchPlan)
    (hplan : r.plan (World.performed cs).db u title key = .ok (.plan plan)) (now : Instant) :
    let w := World.performed cs
    ∃ ts cutoff db' τ μ, r.Inherits w.db u ts cutoff ∧
      commitBranch now w.nextId plan w.db = (.ok (plan.child w.nextId now), db') ∧
      (db'.content u w.nextId).conversations = [plan.child w.nextId now] ∧
      w.db.Copies now u r.source w.nextId ts cutoff τ μ db' := by
  intro w
  have h : Placed w := placed_performed hcs
  obtain ⟨rfl, hsource, hread, hinherits, bound, hts⟩ := BranchRequest.plan_inherits hplan
  have hi := h.db.inherited_srcTurns (hread.stands h.db)
  have hsub : ∀ t ∈ plan.srcTurns w.db, t ∈ w.db.turns := by
    intro t ht
    rw [hts] at ht
    exact (mem_completedTurns.1 ht).1
  have hord : (plan.srcTurns w.db).Pairwise fun t t' => t.startedAt ≤ t'.startedAt := by
    rw [hts]
    exact byStart_pairwise _
  have hanswered : ∀ t ∈ copiedTurns (w.nextId + 1) plan.userId w.nextId
      (messageMap w.db.nextMessageId (inheritedMessages w.db plan.userId plan.source.id
        (plan.srcTurns w.db) plan.cutoff)) (plan.srcTurns w.db),
      t.status = .completed → t.assistantMessageId.isSome := by
    intro t ht hdone
    obtain ⟨i, t₀, hit, rfl⟩ := mem_copiedTurns ht
    have hmem := List.mem_of_getElem? hit
    obtain ⟨mid, hmid⟩ := Option.isSome_iff_exists.1 (h.db.answered t₀ (hsub t₀ hmem) hdone)
    have hlook : (messageMap w.db.nextMessageId (inheritedMessages w.db plan.userId plan.source.id
        (plan.srcTurns w.db) plan.cutoff)).lookup mid = some (plan.messageNumber w.db mid) :=
      lookup_renumber_of_mem (h.db.mem_inherited_ids hi hsub hmem
        (List.mem_append_right _ (by simp [hmid])))
    simp only [hmid, Option.bind_some]
    exact Option.isSome_iff_exists.2 ⟨_, hlook⟩
  obtain ⟨db', hcommit⟩ := commitBranch_commits now hanswered
  have hb := commitBranch_branched hcommit
  refine ⟨_, _, db', _, _, hinherits, hcommit, ?_, hsource ▸ h.db.copies h.kinBelow hi hsub hord hb⟩
  have hnew : ∀ c ∈ w.db.conversations, c.id ≠ w.nextId :=
    fun c hc => (h.kinBelow c.kin (List.mem_map_of_mem hc)).ne
  simp only [Db.content, hb.conversations]
  rw [filter_content hnew fun c hc => ?_, if_pos rfl]
  rw [List.mem_singleton.1 hc]
  exact ⟨rfl, rfl⟩

/-- Two turns of one conversation, the second opened before the first is answered. -/
def interleavedTurns : List TurnCall :=
  [.act (.createConversation 0 sampleStart.userId none sampleStart.agentArch
     sampleStart.agentVersion false),
   .addMessage 1 sampleStart.userId 0 ⟨.user, Text.ofString "user1", none, none, none, none⟩,
   .beginTurn 2 sampleStart.userId 0 none (some 1),
   .addMessage 3 sampleStart.userId 0 ⟨.user, Text.ofString "user2", none, none, none, none⟩,
   .beginTurn 4 sampleStart.userId 0 none (some 2),
   .addMessage 5 sampleStart.userId 0
     ⟨.assistant, Text.ofString "assistant1", none, none, none, some 1⟩,
   .completeTurn 6 sampleStart.userId 1 (some 3)]

/-- The plan, where the reads lead to one. -/
def BranchRead.plan? : BranchRead → Option BranchPlan
  | .existing _ => none
  | .plan p => some p

theorem branch_copies_interleaved :
    ∃ plan db', (BranchRequest.fork 0 (some 1)).plan (World.performed interleavedTurns).db
        sampleStart.userId none none = .ok (.plan plan) ∧
      commitBranch 7 (World.performed interleavedTurns).nextId plan
        (World.performed interleavedTurns).db =
          (.ok (plan.child (World.performed interleavedTurns).nextId 7), db') := by
  have hcs : Runs.Along World.perform World.Orderly .empty interleavedTurns := by decide +kernel
  have hread : (((BranchRequest.fork 0 (some 1)).plan (World.performed interleavedTurns).db
      sampleStart.userId none none).toOption.bind BranchRead.plan?).isSome := by decide +kernel
  rcases hplan : (BranchRequest.fork 0 (some 1)).plan (World.performed interleavedTurns).db
      sampleStart.userId none none with e | child | plan <;> rw [hplan] at hread
  · cases hread
  · cases hread
  · obtain ⟨-, -, db', -, -, -, hcommit, -⟩ := branch_copies interleavedTurns hcs
      (.fork 0 (some 1)) sampleStart.userId none none plan hplan 7
    exact ⟨plan, db', rfl, hcommit⟩

end RentCompass.Store
