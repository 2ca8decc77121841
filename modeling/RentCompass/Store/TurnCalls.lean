import RentCompass.Store.Integrity

/-!
# Turns written row by row

Beside `start_request_turn` and `finalize_request_turn` the store has the calls they grew out of,
which write one row each: a message, an open turn, its completion, its snapshot. Between them the
rows of any other turn may be written, so the messages of turns stand in any order. What is left
is that no message is named by two turns or tagged with another turn than the one that names it.
-/

namespace RentCompass.Store

open Rows

/-! ### The calls -/

/-- The arguments of `add_message` beside the conversation. -/
structure MessageArgs where
  role : Role
  content : Text
  responseType : Option Text
  recommendations : Option PyObj
  timestamp : Option Instant
  turnId : Option Id

/-- `add_message`; answers the id of the row. -/
def addMessage (now : Instant) (u : UserId) (cid : Id) (a : MessageArgs) (db : Db) :
    Outcome Nat :=
  let row (recommendations : Option Json) : Message :=
    { id := db.nextMessageId, userId := u, conversationId := cid, role := a.role,
      content := a.content, responseType := a.responseType,
      recommendationsJson := recommendations, timestamp := a.timestamp.getD now,
      turnId := a.turnId, responseMetadataJson := none }
  match a.recommendations with
  | some .unserialisable => (.error .typeError, db)
  | some (.json j) =>
    (.ok db.nextMessageId, (db.insertMessage (row (some j))).touch u cid (a.timestamp.getD now))
  | none =>
    (.ok db.nextMessageId, (db.insertMessage (row none)).touch u cid (a.timestamp.getD now))

/-- `set_message_turn`. -/
def setMessageTurn (u : UserId) (mid : Nat) (tid : Id) (db : Db) : Db :=
  { db with
    messages := updateWhere (fun m : Message => m.userId = u ∧ m.id = mid)
      (fun m => { m with turnId := some tid }) db.messages }

/-- The row `begin_turn` inserts. -/
def openTurn (now : Instant) (tid : Id) (u : UserId) (cid : Id) (requestId : Option Text)
    (userMessageId : Option Nat) : Turn where
  id := tid
  userId := u
  conversationId := cid
  requestId := requestId
  userMessageId := userMessageId
  assistantMessageId := none
  status := .running
  startedAt := now
  completedAt := none

/-- `begin_turn`. -/
def beginTurn (now : Instant) (tid : Id) (u : UserId) (cid : Id) (requestId : Option Text)
    (userMessageId : Option Nat) (db : Db) : Db :=
  { db with turns := db.turns ++ [openTurn now tid u cid requestId userMessageId] }

/-- The row of a turn after `complete_turn`. -/
def Turn.complete (t : Turn) (now : Instant) (assistantMessageId : Option Nat) : Turn :=
  { t with status := .completed, completedAt := some now,
           assistantMessageId := assistantMessageId <|> t.assistantMessageId }

/-- `complete_turn`. A trigger refuses a completed turn without an answer. -/
def completeTurn (now : Instant) (u : UserId) (tid : Id) (assistantMessageId : Option Nat)
    (db : Db) : Outcome (Option Turn) :=
  if db.turns.any fun t => t.userId = u ∧ t.id = tid ∧
      (t.complete now assistantMessageId).assistantMessageId = none then
    (.error (.integrityError "completed turn requires assistant_message_id"), db)
  else
    let db₁ := { db with
      turns := updateWhere (fun t : Turn => t.userId = u ∧ t.id = tid)
        (fun t => t.complete now assistantMessageId) db.turns }
    if (db.turnOf u tid).isNone then (.ok none, db₁)
    else (.ok (db₁.turnOf u tid), db₁.releaseTurn u tid)

/-- `save_turn_snapshot`. -/
def saveTurnSnapshot (now : Instant) (u : UserId) (cid tid : Id) (snapshot : Snapshot)
    (schemaVersion : Nat) (db : Db) : Db :=
  db.putSnapshot
    { turnId := tid, userId := u, conversationId := cid, schemaVersion := schemaVersion,
      snapshotJson := snapshot, createdAt := now }

/-- A call of the store, with those that write one row. -/
inductive TurnCall where
  | act (a : Action)
  | addMessage (now : Instant) (u : UserId) (cid : Id) (a : MessageArgs)
  | setMessageTurn (u : UserId) (mid : Nat) (tid : Id)
  | beginTurn (now : Instant) (u : UserId) (cid : Id) (requestId : Option Text)
      (userMessageId : Option Nat)
  | completeTurn (now : Instant) (u : UserId) (tid : Id) (assistantMessageId : Option Nat)
  | saveTurnSnapshot (now : Instant) (u : UserId) (cid tid : Id) (snapshot : Snapshot)
      (schemaVersion : Nat)

def World.perform (w : World) : TurnCall → World
  | .act a => w.act a
  | .addMessage now u cid a => { w with db := (Store.addMessage now u cid a w.db).2 }
  | .setMessageTurn u mid tid => { w with db := Store.setMessageTurn u mid tid w.db }
  | .beginTurn now u cid requestId userMessageId =>
    { w with
      db := Store.beginTurn now w.nextId u cid requestId userMessageId w.db
      nextId := w.nextId + 1 }
  | .completeTurn now u tid assistantMessageId =>
    { w with db := (Store.completeTurn now u tid assistantMessageId w.db).2 }
  | .saveTurnSnapshot now u cid tid snapshot schemaVersion =>
    { w with db := Store.saveTurnSnapshot now u cid tid snapshot schemaVersion w.db }

/-- The message is of the conversation, untagged or tagged with the turn, and no other turn names
it. -/
def Db.Free (db : Db) (u : UserId) (cid tid : Id) (mid : Nat) : Prop :=
  (∃ m ∈ db.messages, m.id = mid ∧ m.userId = u ∧ m.conversationId = cid ∧
    (m.turnId = none ∨ m.turnId = some tid)) ∧
  ∀ t ∈ db.turns, mid ∈ t.messageIds → t.id = tid

instance (db : Db) (u : UserId) (cid tid : Id) (mid : Nat) : Decidable (db.Free u cid tid mid) :=
  inferInstanceAs (Decidable (_ ∧ _))

/-- The calls that write one row are made as the rows of a turn are: messages and turns go into
conversations that are there, a turn is opened with a message of no other turn and completed once,
with a message of its own. -/
def World.Orderly (w : World) : TurnCall → Prop
  | .act _ => True
  | .addMessage _ u cid _ => w.db.Has u cid
  | .setMessageTurn _ mid tid => ∀ t ∈ w.db.turns, mid ∈ t.messageIds → t.id = tid
  | .beginTurn _ u cid _ userMessageId =>
    w.db.Has u cid ∧ ∀ mid ∈ userMessageId, w.db.Free u cid w.nextId mid
  | .completeTurn _ u tid assistantMessageId =>
    ∀ t ∈ w.db.turns, t.userId = u → t.id = tid →
      t.status = .running ∧ ∀ mid ∈ assistantMessageId, w.db.Free u t.conversationId tid mid
  | .saveTurnSnapshot _ u cid tid _ _ => w.db.NamesTurn tid u cid

instance (w : World) (c : TurnCall) : Decidable (w.Orderly c) :=
  match c with
  | .act _ => inferInstanceAs (Decidable True)
  | .addMessage .. => inferInstanceAs (Decidable (∃ k ∈ w.db.kin, _))
  | .setMessageTurn .. => inferInstanceAs (Decidable (∀ t ∈ w.db.turns, _))
  | .beginTurn .. => inferInstanceAs (Decidable ((∃ k ∈ w.db.kin, _) ∧ _))
  | .completeTurn .. => inferInstanceAs (Decidable (∀ t ∈ w.db.turns, _))
  | .saveTurnSnapshot .. => inferInstanceAs (Decidable (∃ t ∈ w.db.turns, _))

/-- The world after a sequence of calls, from the empty store. -/
def World.performed (cs : List TurnCall) : World := Runs.run World.perform .empty cs

/-! ### Where the rows of a turn are -/

/-- A message of the conversation of the turn, with no tag or the tag of the turn. -/
def Db.Holds (db : Db) (t : Turn) (mid : Nat) : Prop :=
  ∃ m ∈ db.messages, m.id = mid ∧ m.userId = t.userId ∧ m.conversationId = t.conversationId ∧
    (m.turnId = none ∨ m.turnId = some t.id)

/-- Messages stand in the order of their ids, and each is named by one turn at most, which is that
of its tag. -/
structure Db.Placed (n : Id) (db : Db) : Prop where
  turnIds : Keyed (fun t : Turn => t.id) db.turns
  turnsBelow : ∀ t ∈ db.turns, t.id < n ∧ t.conversationId < n
  messageIds : (db.messages.map (·.id)).Pairwise (· < ·)
  messagesBelow : ∀ m ∈ db.messages, m.id < db.nextMessageId ∧ m.conversationId < n
  snapshotsBelow : ∀ s ∈ db.snapshots, s.turnId < n ∧ s.conversationId < n
  named : ∀ t ∈ db.turns, ∀ mid ∈ t.messageIds, db.Holds t mid
  once : ∀ t ∈ db.turns, ∀ t' ∈ db.turns, ∀ mid ∈ t.messageIds, mid ∈ t'.messageIds → t'.id = t.id
  answered : ∀ t ∈ db.turns, t.status = .completed → t.assistantMessageId.isSome
  running : ∀ t ∈ db.turns, t.status = .running → t.assistantMessageId = none

/-- What an edit has read of the turns it is to copy: where a message of one is still there, the
turn is, with that message. -/
def BranchPlan.Stands (plan : BranchPlan) (n : Id) (db : Db) : Prop :=
  match plan.kind with
  | .fork .. => True
  | .edit _ srcTurns _ _ => (srcTurns.map (·.id)).Nodup ∧ ∀ t ∈ srcTurns, t.id < n ∧
      t.userId = plan.userId ∧ t.conversationId = plan.source.id ∧ t.status = .completed ∧
      ∀ mid ∈ t.messageIds, mid < db.nextMessageId ∧ ∀ m ∈ db.messages, m.id = mid →
        ∃ t' ∈ db.turns, t'.id = t.id ∧ t'.userId = t.userId ∧
          t'.conversationId = t.conversationId ∧ mid ∈ t'.messageIds

structure Placed (w : World) : Prop where
  kinBelow : ∀ k ∈ w.db.kin, k.id < w.nextId
  db : w.db.Placed w.nextId
  plans : ∀ plan ∈ w.plans, plan.Stands w.nextId w.db

lemma Db.placed_empty : Db.empty.Placed 0 where
  turnIds := keyed_nil
  turnsBelow := by simp [Db.empty]
  messageIds := List.Pairwise.nil
  messagesBelow := by simp [Db.empty]
  snapshotsBelow := by simp [Db.empty]
  named := by simp [Db.empty]
  once := by simp [Db.empty]
  answered := by simp [Db.empty]
  running := by simp [Db.empty]

lemma placed_empty : Placed .empty where
  kinBelow := by simp [World.empty, Db.empty, Db.kin]
  db := Db.placed_empty
  plans := by simp [World.empty]

namespace Db.Placed

variable {n n' : Id} {db db' : Db}

lemma message_eq (h : db.Placed n) {m m' : Message} (hm : m ∈ db.messages)
    (hm' : m' ∈ db.messages) (hid : m.id = m'.id) : m = m' := by
  have hkeyed : Keyed (fun m : Message => m.id) db.messages :=
    h.messageIds.imp fun hlt => hlt.ne
  exact hkeyed.eq hm hm' hid

lemma named_below (h : db.Placed n) {t : Turn} (ht : t ∈ db.turns) {mid : Nat}
    (hmid : mid ∈ t.messageIds) : mid < db.nextMessageId := by
  obtain ⟨m, hm, rfl, -⟩ := h.named t ht mid hmid
  exact (h.messagesBelow m hm).1

/-- Tables that are not spoken of may change, and ids may be drawn. -/
lemma congr (h : db.Placed n) (hn : n ≤ n') (ht : db'.turns = db.turns)
    (hm : db'.messages = db.messages) (hnext : db'.nextMessageId = db.nextMessageId)
    (hs : db'.snapshots.map TurnSnapshot.key = db.snapshots.map TurnSnapshot.key) :
    db'.Placed n' where
  turnIds := ht ▸ h.turnIds
  turnsBelow := fun t hmem =>
    ⟨(h.turnsBelow t (ht ▸ hmem)).1.trans_le hn, (h.turnsBelow t (ht ▸ hmem)).2.trans_le hn⟩
  messageIds := hm ▸ h.messageIds
  messagesBelow := fun m hmem =>
    ⟨hnext ▸ (h.messagesBelow m (hm ▸ hmem)).1, (h.messagesBelow m (hm ▸ hmem)).2.trans_le hn⟩
  snapshotsBelow := by
    intro s hmem
    obtain ⟨s₀, hs₀, hkey⟩ := exists_mem_of_map_eq hs hmem
    simp only [TurnSnapshot.key, Prod.mk.injEq] at hkey
    obtain ⟨hid, hc⟩ := h.snapshotsBelow s₀ hs₀
    exact ⟨(hkey.1 ▸ hid).trans_le hn, (hkey.2.2 ▸ hc).trans_le hn⟩
  named := by
    intro t hmem mid hmid
    rw [Db.Holds, hm]
    exact h.named t (ht ▸ hmem) mid hmid
  once := ht ▸ h.once
  answered := ht ▸ h.answered
  running := ht ▸ h.running

/-- Snapshots are put for turns that are there. -/
lemma resnapshot (h : db.Placed n) {snapshots : List TurnSnapshot}
    (hs : ∀ s ∈ snapshots, s.turnId < n ∧ s.conversationId < n) :
    ({ db with snapshots := snapshots } : Db).Placed n :=
  { h with snapshotsBelow := hs }

/-- A message is added. -/
lemma addMessage (h : db.Placed n) {m : Message} (hid : m.id = db.nextMessageId)
    (hc : m.conversationId < n) (ht : db'.turns = db.turns)
    (hm : db'.messages = db.messages ++ [m]) (hnext : db'.nextMessageId = db.nextMessageId + 1)
    (hs : db'.snapshots = db.snapshots) : db'.Placed n where
  turnIds := ht ▸ h.turnIds
  turnsBelow := ht ▸ h.turnsBelow
  messageIds := by
    rw [hm, List.map_append, List.pairwise_append]
    refine ⟨h.messageIds, List.pairwise_singleton _ _, fun mid hmid mid' hmid' => ?_⟩
    obtain ⟨m₀, hm₀, rfl⟩ := List.mem_map.1 hmid
    obtain rfl : mid' = m.id := by simpa using hmid'
    rw [hid]
    exact (h.messagesBelow m₀ hm₀).1
  messagesBelow := by
    intro m' hm'
    rw [hm] at hm'
    rw [hnext]
    rcases List.mem_append.1 hm' with hold | hnew
    · exact ⟨(h.messagesBelow m' hold).1.trans (Nat.lt_succ_self _), (h.messagesBelow m' hold).2⟩
    · rw [List.mem_singleton.1 hnew, hid]
      exact ⟨Nat.lt_succ_self _, hc⟩
  snapshotsBelow := hs ▸ h.snapshotsBelow
  named := by
    intro t hmem mid hmid
    obtain ⟨m₀, hm₀, hrest⟩ := h.named t (ht ▸ hmem) mid hmid
    exact ⟨m₀, hm ▸ List.mem_append_left _ hm₀, hrest⟩
  once := ht ▸ h.once
  answered := ht ▸ h.answered
  running := ht ▸ h.running

/-- Turns are rewritten in place, and one of them may take a message that is free for it. -/
lemma editTurns (h : db.Placed n) {g : Turn → Turn} (tid : Id) (ht : db'.turns = db.turns.map g)
    (hm : db'.messages = db.messages) (hnext : db'.nextMessageId = db.nextMessageId)
    (hs : db'.snapshots.map TurnSnapshot.key = db.snapshots.map TurnSnapshot.key)
    (hsame : ∀ t ∈ db.turns, (g t).id = t.id ∧ (g t).userId = t.userId ∧
      (g t).conversationId = t.conversationId)
    (hids : ∀ t ∈ db.turns, ∀ mid ∈ (g t).messageIds, mid ∈ t.messageIds ∨
      t.id = tid ∧ db.Free t.userId t.conversationId tid mid)
    (hanswered : ∀ t ∈ db.turns, (g t).status = .completed → (g t).assistantMessageId.isSome)
    (hrunning : ∀ t ∈ db.turns, (g t).status = .running → (g t).assistantMessageId = none) :
    db'.Placed n := by
  have hback : ∀ t' ∈ db'.turns, ∃ t ∈ db.turns, t' = g t := by
    intro t' hmem'
    rw [ht] at hmem'
    obtain ⟨t, hmem, rfl⟩ := List.mem_map.1 hmem'
    exact ⟨t, hmem, rfl⟩
  constructor
  case turnIds =>
    have hmap : db'.turns.map (fun t : Turn => t.id) = db.turns.map (fun t : Turn => t.id) := by
      rw [ht, List.map_map]
      exact List.map_congr_left fun t hmem => (hsame t hmem).1
    rw [Keyed, hmap]
    exact h.turnIds
  case turnsBelow =>
    intro t' hmem'
    obtain ⟨t, hmem, rfl⟩ := hback t' hmem'
    obtain ⟨hid, -, hc⟩ := hsame t hmem
    rw [hid, hc]
    exact h.turnsBelow t hmem
  case messageIds => exact hm ▸ h.messageIds
  case messagesBelow => rw [hm, hnext]; exact h.messagesBelow
  case snapshotsBelow => exact (h.congr le_rfl rfl rfl rfl hs : ({ db with
    snapshots := db'.snapshots } : Db).Placed n).snapshotsBelow
  case named =>
    intro t' hmem' mid hmid
    obtain ⟨t, hmem, rfl⟩ := hback t' hmem'
    obtain ⟨hid, hu, hc⟩ := hsame t hmem
    rw [Db.Holds, hm, hid, hu, hc]
    rcases hids t hmem mid hmid with hold | ⟨rfl, hfree, -⟩
    · exact h.named t hmem mid hold
    · exact hfree
  case once =>
    intro t₁' hmem₁' t₂' hmem₂' mid hmid₁ hmid₂
    obtain ⟨t₁, hmem₁, rfl⟩ := hback t₁' hmem₁'
    obtain ⟨t₂, hmem₂, rfl⟩ := hback t₂' hmem₂'
    rw [(hsame t₁ hmem₁).1, (hsame t₂ hmem₂).1]
    rcases hids t₁ hmem₁ mid hmid₁ with hold₁ | ⟨rfl, -, hfree₁⟩
    · rcases hids t₂ hmem₂ mid hmid₂ with hold₂ | ⟨rfl, -, hfree₂⟩
      · exact h.once t₁ hmem₁ t₂ hmem₂ mid hold₁ hold₂
      · exact (hfree₂ t₁ hmem₁ hold₁).symm
    · rcases hids t₂ hmem₂ mid hmid₂ with hold₂ | ⟨hid₂, -, -⟩
      · exact hfree₁ t₂ hmem₂ hold₂
      · exact hid₂
  case answered =>
    intro t' hmem' hdone
    obtain ⟨t, hmem, rfl⟩ := hback t' hmem'
    exact hanswered t hmem hdone
  case running =>
    intro t' hmem' hrun
    obtain ⟨t, hmem, rfl⟩ := hback t' hmem'
    exact hrunning t hmem hrun

/-- A turn is added, with a message that is free for it. -/
lemma addTurn (h : db.Placed n) {t : Turn} (ht : db'.turns = db.turns ++ [t])
    (hm : db'.messages = db.messages) (hnext : db'.nextMessageId = db.nextMessageId)
    (hs : db'.snapshots.map TurnSnapshot.key = db.snapshots.map TurnSnapshot.key)
    (hn : n ≤ n') (hnew : ∀ t' ∈ db.turns, t'.id ≠ t.id) (hid : t.id < n')
    (hc : t.conversationId < n') (hopen : t.status = .running ∧ t.assistantMessageId = none)
    (hfree : ∀ mid ∈ t.messageIds, db.Free t.userId t.conversationId t.id mid) :
    db'.Placed n' := by
  have hkeep : ({ db with snapshots := db'.snapshots } : Db).Placed n' :=
    h.congr hn rfl rfl rfl hs
  have hcases : ∀ t' ∈ db'.turns, t' ∈ db.turns ∨ t' = t := by
    intro t' hmem
    rw [ht] at hmem
    exact (List.mem_append.1 hmem).imp_right List.mem_singleton.1
  constructor
  case turnIds =>
    rw [ht]
    exact h.turnIds.append_one hnew
  case turnsBelow =>
    intro t' hmem
    rcases hcases t' hmem with hold | rfl
    · exact hkeep.turnsBelow t' hold
    · exact ⟨hid, hc⟩
  case messageIds => exact hm ▸ h.messageIds
  case messagesBelow => rw [hm, hnext]; exact hkeep.messagesBelow
  case snapshotsBelow => exact hkeep.snapshotsBelow
  case named =>
    intro t' hmem mid hmid
    rw [Db.Holds, hm]
    rcases hcases t' hmem with hold | rfl
    · exact h.named t' hold mid hmid
    · exact (hfree mid hmid).1
  case once =>
    intro t₁ hmem₁ t₂ hmem₂ mid hmid₁ hmid₂
    rcases hcases t₁ hmem₁ with hold₁ | rfl
    · rcases hcases t₂ hmem₂ with hold₂ | rfl
      · exact h.once t₁ hold₁ t₂ hold₂ mid hmid₁ hmid₂
      · exact ((hfree mid hmid₂).2 t₁ hold₁ hmid₁).symm
    · rcases hcases t₂ hmem₂ with hold₂ | rfl
      · exact (hfree mid hmid₁).2 t₂ hold₂ hmid₂
      · rfl
  case answered =>
    intro t' hmem hdone
    rcases hcases t' hmem with hold | rfl
    · exact h.answered t' hold hdone
    · rw [hopen.1] at hdone
      cases hdone
  case running =>
    intro t' hmem hrun
    rcases hcases t' hmem with hold | rfl
    · exact h.running t' hold hrun
    · exact hopen.2

/-- The rows of some conversations are deleted. -/
lemma drops (h : db.Placed n) {c : UserId → Id → Prop} (hd : Db.Drops c db db') :
    db'.Placed n where
  turnIds := h.turnIds.sublist (hd.turns.map _)
  turnsBelow := fun t ht => h.turnsBelow t (hd.turns.subset ht)
  messageIds := h.messageIds.sublist (hd.messages.map _)
  messagesBelow := fun m hm => hd.nextMessageId ▸ h.messagesBelow m (hd.messages.subset hm)
  snapshotsBelow := fun s hs => h.snapshotsBelow s (hd.snapshots.subset hs)
  named := by
    intro t ht mid hmid
    obtain ⟨hold, hnot⟩ := (hd.mem_turns t).1 ht
    obtain ⟨m, hm, hid, hu, hc, htag⟩ := h.named t hold mid hmid
    exact ⟨m, (hd.mem_messages m).2 ⟨hm, by rwa [hu, hc]⟩, hid, hu, hc, htag⟩
  once := fun t ht t' ht' => h.once t (hd.turns.subset ht) t' (hd.turns.subset ht')
  answered := fun t ht => h.answered t (hd.turns.subset ht)
  running := fun t ht => h.running t (hd.turns.subset ht)

/-- Messages are tagged with the turn that names them, if one does. -/
lemma tag (h : db.Placed n) {u : UserId} {mid tid : Nat}
    (hown : ∀ t ∈ db.turns, mid ∈ t.messageIds → t.id = tid) :
    (setMessageTurn u mid tid db).Placed n := by
  have hids : (setMessageTurn u mid tid db).messages.map (fun m : Message => m.id)
      = db.messages.map (fun m : Message => m.id) := by
    simp only [setMessageTurn, updateWhere, List.map_map]
    refine List.map_congr_left fun m _ => ?_
    simp only [Function.comp_apply]
    split <;> rfl
  constructor
  case turnIds => exact h.turnIds
  case turnsBelow => exact h.turnsBelow
  case messageIds => rw [hids]; exact h.messageIds
  case messagesBelow =>
    intro m' hm'
    rcases mem_updateWhere_cases hm' with ⟨hold, -⟩ | ⟨m, hm, -, rfl⟩
    · exact h.messagesBelow m' hold
    · exact h.messagesBelow m hm
  case snapshotsBelow => exact h.snapshotsBelow
  case named =>
    intro t ht mid' hmid'
    obtain ⟨m, hm, hid, hu, hc, htag⟩ := h.named t ht mid' hmid'
    by_cases hp : m.userId = u ∧ m.id = mid
    · refine ⟨{ m with turnId := some tid }, mem_updateWhere.2 ⟨m, hm, by rw [if_pos hp]⟩, hid, hu,
        hc, .inr ?_⟩
      rw [hown t ht (hp.2 ▸ hid ▸ hmid')]
    · exact ⟨m, mem_updateWhere_of_not hm hp, hid, hu, hc, htag⟩
  case once => exact h.once
  case answered => exact h.answered
  case running => exact h.running

end Db.Placed

/-! ### A branch -/

/-- Turns that are copied: completed turns of one conversation, the messages of each its own. -/
structure Db.Inherited (db : Db) (n : Id) (u : UserId) (source : Id) (ts : List Turn) : Prop where
  ids : Keyed (fun t : Turn => t.id) ts
  turn : ∀ t ∈ ts, t.id < n ∧ t.userId = u ∧ t.conversationId = source ∧ t.status = .completed
  own : ∀ t ∈ ts, ∀ m ∈ db.messages, m.id ∈ t.messageIds →
    m.userId = u ∧ m.conversationId = source ∧ (m.turnId = none ∨ m.turnId = some t.id)
  alone : ∀ t ∈ ts, ∀ m ∈ db.messages, m.id ∈ t.messageIds →
    ∀ t' ∈ db.turns, m.id ∈ t'.messageIds → t'.id = t.id
  apart : ∀ t ∈ ts, ∀ m ∈ db.messages, m.id ∈ t.messageIds →
    ∀ t' ∈ ts, m.id ∈ t'.messageIds → t' = t

namespace Db.Placed

variable {n : Id} {db db' : Db}

/-- Turns of which those with a message left are there are copied with what is theirs. -/
lemma inherited (h : db.Placed n) {u : UserId} {source : Id} {ts : List Turn}
    (hids : Keyed (fun t : Turn => t.id) ts)
    (hturn : ∀ t ∈ ts, t.id < n ∧ t.userId = u ∧ t.conversationId = source ∧ t.status = .completed)
    (hleft : ∀ t ∈ ts, ∀ mid ∈ t.messageIds, ∀ m ∈ db.messages, m.id = mid →
      ∃ t' ∈ db.turns, t'.id = t.id ∧ t'.userId = t.userId ∧
        t'.conversationId = t.conversationId ∧ mid ∈ t'.messageIds) :
    db.Inherited n u source ts where
  ids := hids
  turn := hturn
  own := by
    intro t ht m hm hmid
    obtain ⟨-, hu, hc, -⟩ := hturn t ht
    obtain ⟨t', ht', hid, hu', hc', hmid'⟩ := hleft t ht m.id hmid m hm rfl
    obtain ⟨m', hm', hid', hmu, hmc, htag⟩ := h.named t' ht' m.id hmid'
    obtain rfl := h.message_eq hm' hm hid'
    rw [hid] at htag
    exact ⟨hmu.trans (hu'.trans hu), hmc.trans (hc'.trans hc), htag⟩
  alone := by
    intro t ht m hm hmid t' ht' hmid'
    obtain ⟨t₀, ht₀, hid, -, -, hmid₀⟩ := hleft t ht m.id hmid m hm rfl
    exact (h.once t₀ ht₀ t' ht' m.id hmid₀ hmid').trans hid
  apart := by
    intro t ht m hm hmid t' ht' hmid'
    obtain ⟨t₀, ht₀, hid, -, -, hmid₀⟩ := hleft t ht m.id hmid m hm rfl
    obtain ⟨t₀', ht₀', hid', -, -, hmid₀'⟩ := hleft t' ht' m.id hmid' m hm rfl
    refine hids.eq ht' ht ?_
    rw [← hid, ← hid']
    exact h.once t₀ ht₀ t₀' ht₀' m.id hmid₀ hmid₀'

lemma keyed_completedTurns (h : db.Placed n) (u : UserId) (cid : Id) (bound : Instant → Bool) :
    Keyed (fun t : Turn => t.id) (completedTurns db u cid bound) := by
  have hperm := (List.perm_insertionSort (fun t t' : Turn => t.startedAt ≤ t'.startedAt)
    (db.turns.filter fun t => t.userId = u ∧ t.conversationId = cid ∧ t.status = .completed ∧
      bound t.startedAt)).map (fun t : Turn => t.id)
  exact hperm.nodup_iff.2 (h.turnIds.sublist (List.filter_sublist.map _))

/-- The completed turns there are. -/
lemma inherited_completedTurns (h : db.Placed n) (u : UserId) (cid : Id) (bound : Instant → Bool) :
    db.Inherited n u cid (completedTurns db u cid bound) := by
  refine h.inherited (h.keyed_completedTurns u cid bound) (fun t ht => ?_) fun t ht mid hmid _ _ _ => ?_
  · obtain ⟨hmem, hu, hc, hdone, -⟩ := mem_completedTurns.1 ht
    exact ⟨(h.turnsBelow t hmem).1, hu, hc, hdone⟩
  · exact ⟨t, (mem_completedTurns.1 ht).1, rfl, rfl, rfl, hmid⟩

/-- The turns a plan copies. -/
lemma inherited_srcTurns (h : db.Placed n) {plan : BranchPlan} (hplan : plan.Stands n db) :
    db.Inherited n plan.userId plan.source.id (plan.srcTurns db) := by
  unfold BranchPlan.Stands at hplan
  unfold BranchPlan.srcTurns
  cases hk : plan.kind with
  | fork afterTurnId forkTurn => exact h.inherited_completedTurns _ _ _
  | edit turnId srcTurns cutoff anchor =>
    simp only [hk] at hplan ⊢
    obtain ⟨hids, hrows⟩ := hplan
    refine h.inherited hids (fun t ht => ?_) fun t ht mid hmid => ?_
    · obtain ⟨hlt, hu, hc, hdone, -⟩ := hrows t ht
      exact ⟨hlt, hu, hc, hdone⟩
    · exact ((hrows t ht).2.2.2.2 mid hmid).2

end Db.Placed

lemma mem_inheritedMessages {db : Db} {u : UserId} {source : Id} {ts : List Turn}
    {cutoff : Option Nat} {m : Message} :
    m ∈ inheritedMessages db u source ts cutoff ↔ m ∈ db.messages ∧ m.userId = u ∧
      m.conversationId = source ∧ inheritsMessage db u source ts cutoff m := by
  simp [inheritedMessages]

/-- The messages a copied turn names are the copies of messages its turn names. -/
lemma mem_messageIds_copy {t : Turn} {messages : List (Nat × Nat)} {tid : Id} {u : UserId}
    {child : Id} {mid' : Nat} :
    mid' ∈ Turn.messageIds
        { t with id := tid, userId := u, conversationId := child,
                 userMessageId := t.userMessageId.bind (List.lookup · messages),
                 assistantMessageId := t.assistantMessageId.bind (List.lookup · messages) } ↔
      ∃ mid ∈ t.messageIds, messages.lookup mid = some mid' := by
  simp [Turn.messageIds, Option.bind_eq_some_iff, or_and_right, exists_or]

lemma copiedMessages_ids (next : Nat) (u : UserId) (child : Id) (turns : List (Id × Id))
    (ms : List Message) :
    (copiedMessages next u child turns ms).map (·.id) = List.range' next ms.length := by
  have h : (copiedMessages next u child turns ms).map (·.id)
      = (List.range' 0 ms.length).map (next + ·) := by
    rw [copiedMessages, List.map_map, ← List.zipIdx_map_snd 0 ms, List.map_map]
    rfl
  rw [h, List.map_add_range']
  rfl

namespace Db.Placed

variable {n : Id} {db db' : Db} {now : Instant} {plan : BranchPlan}

/-- A branch adds turns with copies of messages of their own. -/
lemma branch (h : db.Placed n)
    (hi : db.Inherited n plan.userId plan.source.id (plan.srcTurns db))
    (hb : Db.Branched now n plan db db') :
    db'.Placed (n + 1 + (plan.srcTurns db).length) := by
  have hn : n < n + 1 + (plan.srcTurns db).length :=
    lt_of_lt_of_le (Nat.lt_succ_self n) (Nat.le_add_right _ _)
  have hkeep : db.Placed (n + 1 + (plan.srcTurns db).length) := h.congr hn.le rfl rfl rfl rfl
  -- a turn of the store is one there was, or the copy of an inherited turn
  have hturn : ∀ t' ∈ db'.turns, t' ∈ db.turns ∨ ∃ (i : Nat) (t : Turn),
      (plan.srcTurns db)[i]? = some t ∧ t'.id = n + 1 + i ∧ t'.userId = plan.userId ∧
      t'.conversationId = n ∧ t'.status = t.status ∧
      (t'.status = .completed → t'.assistantMessageId.isSome) ∧
      ∀ mid' ∈ t'.messageIds, ∃ mid ∈ t.messageIds, (messageMap db.nextMessageId
        (inheritedMessages db plan.userId plan.source.id (plan.srcTurns db) plan.cutoff)).lookup
          mid = some mid' := by
    intro t' ht'
    rw [hb.turns] at ht'
    rcases List.mem_append.1 ht' with hold | hnew
    · exact .inl hold
    · have hanswered := hb.answered t' hnew
      obtain ⟨i, t, hit, rfl⟩ := mem_copiedTurns hnew
      exact .inr ⟨i, t, hit, rfl, rfl, rfl, rfl, hanswered, fun mid' => mem_messageIds_copy.1⟩
  have hsource : ∀ {mid mid' : Nat}, (messageMap db.nextMessageId (inheritedMessages db plan.userId
      plan.source.id (plan.srcTurns db) plan.cutoff)).lookup mid = some mid' →
      ∃ m ∈ db.messages, m.id = mid ∧ ∃ m' ∈ db'.messages, m' =
        { m with id := mid', userId := plan.userId, conversationId := n,
                 turnId := m.turnId.bind (List.lookup · (turnMap (n + 1) (plan.srcTurns db))) } := by
    intro mid mid' hlook
    obtain ⟨m, hm, hid, m', hm', heq⟩ := mem_copiedMessages_of_lookup hlook
    refine ⟨m, (mem_inheritedMessages.1 hm).1, hid, m', ?_, heq⟩
    rw [hb.messages]
    exact List.mem_append_right _ hm'
  constructor
  case turnIds =>
    rw [hb.turns]
    refine h.turnIds.append (keyed_copies (fun _ _ => rfl) _) fun t ht t' ht' => ?_
    obtain ⟨i, t₀, -, rfl⟩ := mem_copiedTurns ht'
    exact ((h.turnsBelow t ht).1.trans_le ((Nat.le_succ n).trans (Nat.le_add_right _ i))).ne
  case turnsBelow =>
    intro t' ht'
    rcases hturn t' ht' with hold | ⟨i, t, hit, hid, -, hc, -⟩
    · exact hkeep.turnsBelow t' hold
    · rw [hid, hc]
      exact ⟨Nat.add_lt_add_left (List.getElem?_eq_some_iff.1 hit).1 _, hn⟩
  case messageIds =>
    rw [hb.messages, List.map_append, copiedMessages_ids, List.pairwise_append]
    refine ⟨h.messageIds, List.pairwise_lt_range', fun mid hmid mid' hmid' => ?_⟩
    obtain ⟨m, hm, rfl⟩ := List.mem_map.1 hmid
    exact (h.messagesBelow m hm).1.trans_le (List.mem_range'_1.1 hmid').1
  case messagesBelow =>
    intro m' hm'
    rw [hb.messages] at hm'
    rw [hb.nextMessageId]
    rcases List.mem_append.1 hm' with hold | hnew
    · obtain ⟨hid, hc⟩ := hkeep.messagesBelow m' hold
      exact ⟨hid.trans_le (Nat.le_add_right _ _), hc⟩
    · obtain ⟨i, m, hit, rfl⟩ := mem_copiedMessages hnew
      exact ⟨Nat.add_lt_add_left (List.getElem?_eq_some_iff.1 hit).1 _, hn⟩
  case snapshotsBelow =>
    intro s hs
    rw [hb.snapshots_eq (fun s hs => (h.snapshotsBelow s hs).1)
      fun t ht => (hi.turn t ht).1] at hs
    rcases List.mem_append.1 hs with hold | hnew
    · exact hkeep.snapshotsBelow s hold
    · obtain ⟨⟨a, b⟩, htt, hs⟩ := List.mem_flatMap.1 hnew
      have hkey := turnId_of_copiedSnapshot hs
      simp only [TurnSnapshot.key, Prod.mk.injEq] at hkey
      obtain ⟨i, t, hit, -, rfl⟩ := mem_turnMap.1 htt
      rw [hkey.1, hkey.2.2]
      exact ⟨Nat.add_lt_add_left (List.getElem?_eq_some_iff.1 hit).1 _, hn⟩
  case named =>
    intro t' ht' mid' hmid'
    rcases hturn t' ht' with hold | ⟨i, t, hit, hid, hu, hc, -, -, hmids⟩
    · obtain ⟨m, hm, hrest⟩ := h.named t' hold mid' hmid'
      exact ⟨m, by rw [hb.messages]; exact List.mem_append_left _ hm, hrest⟩
    · obtain ⟨mid, hmid, hlook⟩ := hmids mid' hmid'
      obtain ⟨m, hm, rfl, m', hm', rfl⟩ := hsource hlook
      refine ⟨_, hm', rfl, hu.symm, hc.symm, ?_⟩
      rcases (hi.own t (List.mem_of_getElem? hit) m hm hmid).2.2 with htag | htag
      · exact .inl (by rw [htag]; rfl)
      · refine .inr ?_
        rw [htag, hid]
        exact hi.ids.lookup_renumber_eq hit
  case once =>
    intro t₁' ht₁' t₂' ht₂' mid' hmid₁' hmid₂'
    have hnew : ∀ {mid : Nat}, (messageMap db.nextMessageId (inheritedMessages db plan.userId
        plan.source.id (plan.srcTurns db) plan.cutoff)).lookup mid = some mid' →
        db.nextMessageId ≤ mid' := fun hlook => (lookup_renumber_lt hlook).1
    rcases hturn t₁' ht₁' with hold₁ | ⟨i₁, t₁, hit₁, hid₁, -, -, -, -, hmids₁⟩
    · rcases hturn t₂' ht₂' with hold₂ | ⟨i₂, t₂, -, -, -, -, -, -, hmids₂⟩
      · exact h.once t₁' hold₁ t₂' hold₂ mid' hmid₁' hmid₂'
      · obtain ⟨mid, -, hlook⟩ := hmids₂ mid' hmid₂'
        exact absurd (h.named_below hold₁ hmid₁') (not_lt.2 (hnew hlook))
    · obtain ⟨mid₁, hmid₁, hlook₁⟩ := hmids₁ mid' hmid₁'
      rcases hturn t₂' ht₂' with hold₂ | ⟨i₂, t₂, hit₂, hid₂, -, -, -, -, hmids₂⟩
      · exact absurd (h.named_below hold₂ hmid₂') (not_lt.2 (hnew hlook₁))
      · obtain ⟨mid₂, hmid₂, hlook₂⟩ := hmids₂ mid' hmid₂'
        obtain rfl := lookup_renumber_inj hlook₁ hlook₂
        obtain ⟨m, hm, rfl, -⟩ := hsource hlook₁
        obtain rfl := hi.apart t₁ (List.mem_of_getElem? hit₁) m hm hmid₁ t₂
          (List.mem_of_getElem? hit₂) hmid₂
        have hpos := Option.some.inj ((hi.ids.lookup_renumber_eq hit₁).symm.trans
          (hi.ids.lookup_renumber_eq hit₂) : some (n + 1 + i₁) = some (n + 1 + i₂))
        rw [hid₁, hid₂, hpos]
  case answered =>
    intro t' ht' hdone
    rcases hturn t' ht' with hold | ⟨-, -, -, -, -, -, -, hanswered, -⟩
    · exact h.answered t' hold hdone
    · exact hanswered hdone
  case running =>
    intro t' ht' hrun
    rcases hturn t' ht' with hold | ⟨i, t, hit, -, -, -, hstatus, -, -⟩
    · exact h.running t' hold hrun
    · rw [hstatus, (hi.turn t (List.mem_of_getElem? hit)).2.2.2] at hrun
      cases hrun

end Db.Placed

/-! ### Plans -/

/-- Turns stay with the messages they name, as long as those stay; messages that come are new. -/
structure Db.Follows (db db' : Db) : Prop where
  nextMessageId : db.nextMessageId ≤ db'.nextMessageId
  messages : ∀ m' ∈ db'.messages, (∃ m ∈ db.messages, m.id = m'.id) ∨ db.nextMessageId ≤ m'.id
  turns : ∀ t ∈ db.turns, ∀ m' ∈ db'.messages, m'.id ∈ t.messageIds →
    ∃ t' ∈ db'.turns, t'.id = t.id ∧ t'.userId = t.userId ∧ t'.conversationId = t.conversationId ∧
      m'.id ∈ t'.messageIds

lemma BranchPlan.Stands.follows {plan : BranchPlan} {n n' : Id} {db db' : Db}
    (h : plan.Stands n db) (hn : n ≤ n') (hf : db.Follows db') : plan.Stands n' db' := by
  unfold BranchPlan.Stands at h ⊢
  cases hk : plan.kind with
  | fork => trivial
  | edit turnId srcTurns cutoff anchor =>
    simp only [hk] at h ⊢
    obtain ⟨hids, hrows⟩ := h
    refine ⟨hids, fun t ht => ?_⟩
    obtain ⟨hlt, hu, hc, hdone, hleft⟩ := hrows t ht
    refine ⟨hlt.trans_le hn, hu, hc, hdone, fun mid hmid => ?_⟩
    obtain ⟨hbelow, hfind⟩ := hleft mid hmid
    refine ⟨hbelow.trans_le hf.nextMessageId, ?_⟩
    rintro m' hm' rfl
    rcases hf.messages m' hm' with ⟨m, hm, hid⟩ | hnew
    · obtain ⟨t', ht', hid', hu', hc', hmid'⟩ := hfind m hm hid
      obtain ⟨t'', ht'', hid'', hu'', hc'', hmid''⟩ := hf.turns t' ht' m' hm' hmid'
      exact ⟨t'', ht'', hid''.trans hid', hu''.trans hu', hc''.trans hc', hmid''⟩
    · exact absurd hbelow (not_lt.2 hnew)

/-- What is read for a plan stands. -/
lemma BranchPlan.ReadFrom.stands {plan : BranchPlan} {n : Id} {db : Db} (h : plan.ReadFrom db)
    (hdb : db.Placed n) : plan.Stands n db := by
  rcases h with ⟨u, source, afterTurnId, title, key, h⟩ | ⟨u, source, turnId, title, key, h⟩
  · obtain ⟨src, forkTurn, -, -, rfl⟩ := forkConversationPlan_ok h
    trivial
  · obtain ⟨src, edited, hsrc, -, -, rfl⟩ := branchForEditPlan_ok h
    have hid : src.id = source := (selectOne_holds
      (p := fun c : Conversation => c.userId = u ∧ c.id = source) hsrc).2
    refine ⟨hdb.keyed_completedTurns _ _ _, fun t ht => ?_⟩
    obtain ⟨hmem, hu, hc, hdone, -⟩ := mem_completedTurns.1 ht
    exact ⟨(hdb.turnsBelow t hmem).1, hu, hc.trans hid.symm, hdone, fun mid hmid =>
      ⟨hdb.named_below hmem hmid, fun _ _ _ => ⟨t, hmem, rfl, rfl, rfl, hmid⟩⟩⟩

/-- Turns that are rewritten name what they named. -/
lemma Db.Follows.edit {db db' : Db} {g : Turn → Turn} (added : List Turn)
    (ht : db'.turns = db.turns.map g ++ added)
    (hsame : ∀ t ∈ db.turns, (g t).id = t.id ∧ (g t).userId = t.userId ∧
      (g t).conversationId = t.conversationId ∧ t.messageIds ⊆ (g t).messageIds)
    (hnext : db.nextMessageId ≤ db'.nextMessageId)
    (hm : ∀ m' ∈ db'.messages, (∃ m ∈ db.messages, m.id = m'.id) ∨ db.nextMessageId ≤ m'.id) :
    db.Follows db' where
  nextMessageId := hnext
  messages := hm
  turns := by
    intro t hmem m' _ hmid
    obtain ⟨hid, hu, hc, hsub⟩ := hsame t hmem
    exact ⟨g t, by rw [ht]; exact List.mem_append_left _ (List.mem_map_of_mem hmem), hid, hu, hc,
      hsub hmid⟩

/-- Turns stay and messages may be added. -/
lemma Db.Follows.append {db db' : Db} (added : List Turn) (ht : db'.turns = db.turns ++ added)
    (hnext : db.nextMessageId ≤ db'.nextMessageId)
    (hm : ∀ m' ∈ db'.messages, (∃ m ∈ db.messages, m.id = m'.id) ∨ db.nextMessageId ≤ m'.id) :
    db.Follows db' :=
  Db.Follows.edit (g := id) added (by rw [List.map_id]; exact ht)
    (fun _ _ => ⟨rfl, rfl, rfl, List.Subset.refl _⟩) hnext hm

lemma Db.Follows.drops {n : Id} {db db' : Db} {c : UserId → Id → Prop} (h : db.Placed n)
    (hd : Db.Drops c db db') : db.Follows db' where
  nextMessageId := hd.nextMessageId.ge
  messages := fun m' hm' => .inl ⟨m', hd.messages.subset hm', rfl⟩
  turns := by
    intro t ht m' hm' hmid
    obtain ⟨hold, hnot⟩ := (hd.mem_messages m').1 hm'
    obtain ⟨m, hm, hid, hu, hc, -⟩ := h.named t ht m'.id hmid
    obtain rfl := h.message_eq hm hold hid
    exact ⟨t, (hd.mem_turns t).2 ⟨ht, by rwa [← hu, ← hc]⟩, rfl, rfl, rfl, hmid⟩

/-! ### One call -/

namespace Db.Placed

variable {n : Id} {db db' : Db}

lemma keeps (h : db.Placed n) (hk : db.Keeps db') : db'.Placed n := by
  obtain ⟨g, hg, hturns⟩ := hk.turns
  refine h.editTurns 0 hturns hk.messages hk.nextMessageId hk.snapshots (fun t _ => ?_)
    (fun t _ mid hmid => ?_) (fun t ht hdone => ?_) fun t ht hrun => ?_
  · obtain ⟨hid, hu, hc, -⟩ := (hg t).same
    exact ⟨hid, hu, hc⟩
  · rw [(hg t).same.2.2.2.1] at hmid
    exact .inl hmid
  · have hsame := (hg t).same.2.2.2.2 hdone
    rw [hsame] at hdone ⊢
    exact h.answered t ht hdone
  · rcases hg t with heq | ⟨now, heq⟩
    · rw [heq] at hrun ⊢
      exact h.running t ht hrun
    · rw [heq] at hrun
      cases hrun

lemma follows_keeps (hk : db.Keeps db') : db.Follows db' := by
  obtain ⟨g, hg, hturns⟩ := hk.turns
  refine Db.Follows.edit [] (by rw [List.append_nil]; exact hturns) (fun t _ => ?_)
    hk.nextMessageId.ge fun m' hm' => .inl ⟨m', hk.messages ▸ hm', rfl⟩
  obtain ⟨hid, hu, hc, hids, -⟩ := (hg t).same
  exact ⟨hid, hu, hc, hids ▸ List.Subset.refl _⟩

/-- A message was added to those there were. -/
lemma mem_append_message {m : Message} (hid : m.id = db.nextMessageId)
    (hm : db'.messages = db.messages ++ [m]) :
    ∀ m' ∈ db'.messages, (∃ m ∈ db.messages, m.id = m'.id) ∨ db.nextMessageId ≤ m'.id := by
  intro m' hm'
  rw [hm] at hm'
  rcases List.mem_append.1 hm' with hold | hnew
  · exact .inl ⟨m', hold, rfl⟩
  · rw [List.mem_singleton.1 hnew, hid]
    exact .inr le_rfl

/-- A turn starts with its message. -/
lemma starts (h : db.Placed n) {a : StartArgs} {now : Instant} {cid : Id}
    (hs : Db.Starts n a now cid db db') (hc : cid < n + 2) : db'.Placed (n + 2) := by
  obtain ⟨g, hg, hturns⟩ := hs.turns
  have hkept : ({ db with turns := db.turns.map g } : Db).Placed n := h.keeps
    { Db.Keeps.refl db with turns := ⟨g, hg, rfl⟩ }
  have hwide : ({ db with turns := db.turns.map g } : Db).Placed (n + 2) :=
    hkept.congr (Nat.le_add_right _ _) rfl rfl rfl rfl
  have hmessage : ({ db with
      turns := db.turns.map g
      messages := db.messages ++ [{ userMessage a now n cid with id := db.nextMessageId }]
      nextMessageId := db.nextMessageId + 1 } : Db).Placed (n + 2) :=
    hwide.addMessage (m := { userMessage a now n cid with id := db.nextMessageId }) rfl hc rfl rfl
      rfl rfl
  refine hmessage.addTurn hturns hs.messages hs.nextMessageId hs.snapshots le_rfl (fun t' ht' => ?_)
    (Nat.lt_add_of_pos_right (by decide)) hc ⟨rfl, rfl⟩ fun mid hmid => ⟨⟨_,
      List.mem_append_right _ (List.mem_singleton_self _), ?_, rfl, rfl, .inr rfl⟩, ?_⟩
  · exact (hkept.turnsBelow t' ht').1.ne
  · have heq : mid = db.nextMessageId := by simpa [Turn.messageIds, freshTurn] using hmid
    exact heq.symm
  · intro t' ht' hmid'
    have hlt := hkept.named_below ht' hmid'
    have heq : mid = db.nextMessageId := by simpa [Turn.messageIds, freshTurn] using hmid
    exact absurd heq hlt.ne

/-- The answer closes its turn. -/
lemma closes (h : db.Placed n) {turn : Turn} {f : FinalizeArgs} {now : Instant} {m : Message}
    (hc : Db.Closes turn f now m db db') (hturn : turn ∈ db.turns) (hstatus : f.status ≠ .running)
    (hm : m.id = db.nextMessageId ∧ m.userId = turn.userId ∧
      m.conversationId = turn.conversationId ∧ m.turnId = some turn.id) :
    db'.Placed n ∧ db.Follows db' := by
  obtain ⟨hid, hmu, hmc, htag⟩ := hm
  obtain ⟨hbelow, hcbelow⟩ := h.turnsBelow turn hturn
  have hmessage : ({ db with
      messages := db.messages ++ [m], nextMessageId := db.nextMessageId + 1 } : Db).Placed n :=
    h.addMessage hid (hmc ▸ hcbelow) rfl rfl rfl rfl
  have hsnapshots : ∀ s ∈ db'.snapshots, s.turnId < n ∧ s.conversationId < n := by
    rcases hc.persisted with ⟨-, ⟨s₀, hkey, hrows⟩, -⟩ | ⟨-, hrows, -⟩
    · intro s hs
      rw [hrows] at hs
      rcases List.mem_append.1 hs with hold | hnew
      · exact h.snapshotsBelow s (mem_of_mem_deleteWhere hold)
      · simp only [TurnSnapshot.key, Prod.mk.injEq] at hkey
        rw [List.mem_singleton.1 hnew, hkey.1, hkey.2.2]
        exact ⟨hbelow, hcbelow⟩
    · exact fun s hs => h.snapshotsBelow s (hrows ▸ hs)
  constructor
  · refine (hmessage.resnapshot hsnapshots).editTurns turn.id hc.turns hc.messages
      hc.nextMessageId rfl (fun t _ => ?_) (fun t ht mid hmid => ?_) (fun t ht hdone => ?_)
      fun t ht hrun => ?_
    · split <;> exact ⟨rfl, rfl, rfl⟩
    · split at hmid
      · next hp =>
        obtain rfl := h.turnIds.eq ht hturn hp.2.1
        rcases List.mem_append.1 hmid with hasked | hanswer
        · exact .inl (List.mem_append_left _ hasked)
        · obtain rfl : mid = db.nextMessageId := by simpa [Turn.close] using hanswer
          refine .inr ⟨rfl, ⟨m, List.mem_append_right _ (List.mem_singleton_self _), hid, hmu, hmc,
            .inr htag⟩, fun t' ht' hmid' => ?_⟩
          exact absurd (h.named_below ht' hmid') (lt_irrefl _)
      · exact .inl hmid
    · split at hdone
      · next hp => rw [if_pos hp]; rfl
      · next hp => rw [if_neg hp]; exact h.answered t ht hdone
    · split at hrun
      · exact absurd hrun hstatus
      · next hp => rw [if_neg hp]; exact h.running t ht hrun
  · refine Db.Follows.edit [] (by rw [List.append_nil]; exact hc.turns) (fun t ht => ?_)
      (by rw [hc.nextMessageId]; exact Nat.le_succ _) (mem_append_message hid hc.messages)
    split
    · next hp =>
      refine ⟨rfl, rfl, rfl, fun mid hmid => List.mem_append_left _ ?_⟩
      rcases List.mem_append.1 hmid with hasked | hanswer
      · exact hasked
      · rw [h.running t ht hp.2.2] at hanswer
        cases hanswer
    · exact ⟨rfl, rfl, rfl, List.Subset.refl _⟩

end Db.Placed

namespace Placed

variable {w w' : World}

/-- The plans stand over a change that tables follow. -/
lemma plans_follow (h : Placed w) (hn : w.nextId ≤ w'.nextId) (hf : w.db.Follows w'.db)
    (hp : ∀ plan ∈ w'.plans, plan ∈ w.plans) :
    ∀ plan ∈ w'.plans, plan.Stands w'.nextId w'.db :=
  fun plan hplan => (h.plans plan (hp plan hplan)).follows hn hf

/-- A change that leaves the conversations. -/
lemma same_kin (h : Placed w) (hkin : w'.db.kin = w.db.kin) (hn : w.nextId ≤ w'.nextId) :
    ∀ k ∈ w'.db.kin, k.id < w'.nextId :=
  fun k hk => (h.kinBelow k (hkin ▸ hk)).trans_le hn

/-- A change that adds a conversation. -/
lemma more_kin (h : Placed w) {k : Kin} (hkin : w'.db.kin = w.db.kin ++ [k])
    (hn : w.nextId ≤ w'.nextId) (hk : k.id < w'.nextId) : ∀ k ∈ w'.db.kin, k.id < w'.nextId := by
  intro k' hk'
  rw [hkin] at hk'
  rcases List.mem_append.1 hk' with hold | hnew
  · exact (h.kinBelow k' hold).trans_le hn
  · rwa [List.mem_singleton.1 hnew]

theorem change {B : Bounds} (h : Placed w) (hchange : Change B w w') : Placed w' := by
  cases hchange with
  | keep hkeep hb =>
    exact
      { kinBelow := h.same_kin hkeep.kin hb.nextId
        db := (h.db.keeps hkeep).congr hb.nextId rfl rfl rfl rfl
        plans := h.plans_follow hb.nextId (Db.Placed.follows_keeps hkeep) hb.plans }
  | plan hread =>
    refine ⟨h.kinBelow, h.db, fun plan' hplan' => ?_⟩
    rcases List.mem_append.1 hplan' with hold | hnew
    · exact h.plans plan' hold
    · rw [List.mem_singleton.1 hnew]
      exact hread.stands h.db
  | converse u title agentArch agentVersion strict now =>
    exact
      { kinBelow := h.more_kin (w.db.kin_insertConversation _) (Nat.le_succ _) (Nat.lt_succ_self _)
        db := h.db.congr (Nat.le_succ _) rfl rfl rfl rfl
        plans := h.plans_follow (Nat.le_succ _)
          (.append [] (List.append_nil _).symm le_rfl fun m hm => .inl ⟨m, hm, rfl⟩)
          fun _ hplan => hplan }
  | start hstarts hticks hn hc hp =>
    rename_i a now cid
    have hle : w.nextId ≤ w'.nextId := hn ▸ Nat.le_add_right _ _
    have hkin : ∀ k ∈ w'.db.kin, k.id < w'.nextId := by
      rcases hstarts.kin with hkin | ⟨rfl, hkin⟩
      · exact h.same_kin hkin hle
      · refine h.more_kin hkin hle ?_
        rw [hn]
        exact Nat.lt_succ_self _
    obtain ⟨k, hk, -, hid⟩ := hstarts.has
    obtain ⟨g, hg, hturns⟩ := hstarts.turns
    have hfollows : w.db.Follows w'.db := by
      refine .edit _ hturns (fun t _ => ?_) (by rw [hstarts.nextMessageId]; exact Nat.le_succ _)
        (Db.Placed.mem_append_message rfl hstarts.messages)
      obtain ⟨hid, hu, hc, hids, -⟩ := (hg t).same
      exact ⟨hid, hu, hc, hids ▸ List.Subset.refl _⟩
    refine ⟨hkin, ?_, h.plans_follow hle hfollows fun plan hplan => hp ▸ hplan⟩
    rw [hn] at hkin ⊢
    exact h.db.starts hstarts (hid ▸ hkin k hk)
  | finish hfin hb =>
    obtain ⟨recommendations, metadata, rfl⟩ := hfin.message
    obtain ⟨hdb, hfollows⟩ := h.db.closes hfin.closes (selectOne_mem hfin.named) hfin.status
      ⟨rfl, rfl, rfl, rfl⟩
    exact
      { kinBelow := h.same_kin hfin.closes.kin hb.nextId
        db := hdb.congr hb.nextId rfl rfl rfl rfl
        plans := h.plans_follow hb.nextId hfollows hb.plans }
  | branch hplan hcommit hn hc hp =>
    rename_i plan now
    have hbr := commitBranch_branched hcommit
    rw [srcTurns_insertConversation] at hn
    have hlt : w.nextId < w'.nextId := by
      rw [hn]
      exact lt_of_lt_of_le (Nat.lt_succ_self _) (Nat.le_add_right _ _)
    have hfollows : w.db.Follows w'.db := by
      refine .append _ hbr.turns (by rw [hbr.nextMessageId]; exact Nat.le_add_right _ _) ?_
      intro m' hm'
      rw [hbr.messages] at hm'
      rcases List.mem_append.1 hm' with hold | hnew
      · exact .inl ⟨m', hold, rfl⟩
      · obtain ⟨i, m, -, rfl⟩ := mem_copiedMessages hnew
        exact .inr (Nat.le_add_right _ i)
    refine ⟨h.more_kin hbr.kin_eq hlt.le hlt, ?_, h.plans_follow hlt.le hfollows hp⟩
    rw [hn]
    exact h.db.branch (h.db.inherited_srcTurns (h.plans plan hplan)) hbr
  | delete c hB hd hb =>
    exact
      { kinBelow := fun k hk => (h.kinBelow k (hd.kin.subset hk)).trans_le hb.nextId
        db := (h.db.drops hd).congr hb.nextId rfl rfl rfl rfl
        plans := h.plans_follow hb.nextId (.drops h.db hd) hb.plans }

lemma has_below (h : Placed w) {u : UserId} {cid : Id} (hhas : w.db.Has u cid) : cid < w.nextId := by
  obtain ⟨k, hk, -, rfl⟩ := hhas
  exact h.kinBelow k hk

lemma addMessage (h : Placed w) (now : Instant) {u : UserId} {cid : Id} (a : MessageArgs)
    (hhas : w.db.Has u cid) : Placed { w with db := (addMessage now u cid a w.db).2 } := by
  have hrow : ∀ m : Message, m.conversationId = cid → Placed { w with
      db := (w.db.insertMessage m).touch u cid (a.timestamp.getD now) } := by
    intro m hm
    have hdb : (w.db.insertMessage m).Placed w.nextId :=
      h.db.addMessage (m := { m with id := w.db.nextMessageId }) rfl
        (hm ▸ h.has_below hhas : m.conversationId < w.nextId) rfl rfl rfl rfl
    exact
      { kinBelow := h.same_kin (Db.Keeps.touch (w.db.insertMessage m) u cid _).kin le_rfl
        db := hdb.keeps (Db.Keeps.touch _ u cid _)
        plans := h.plans_follow le_rfl (.append [] (List.append_nil _).symm (Nat.le_succ _)
          (Db.Placed.mem_append_message rfl rfl)) fun _ hplan => hplan }
  unfold Store.addMessage
  split
  · exact h
  · exact hrow _ rfl
  · exact hrow _ rfl

lemma setMessageTurn (h : Placed w) {u : UserId} {mid tid : Nat}
    (hown : ∀ t ∈ w.db.turns, mid ∈ t.messageIds → t.id = tid) :
    Placed { w with db := setMessageTurn u mid tid w.db } where
  kinBelow := h.kinBelow
  db := h.db.tag hown
  plans := by
    refine h.plans_follow le_rfl (.append [] (List.append_nil _).symm le_rfl fun m' hm' => ?_)
      fun _ hplan => hplan
    rcases mem_updateWhere_cases hm' with ⟨hold, -⟩ | ⟨m, hm, -, rfl⟩
    · exact .inl ⟨m', hold, rfl⟩
    · exact .inl ⟨m, hm, rfl⟩

lemma beginTurn (h : Placed w) (now : Instant) {u : UserId} {cid : Id} (requestId : Option Text)
    {userMessageId : Option Nat} (hhas : w.db.Has u cid)
    (hfree : ∀ mid ∈ userMessageId, w.db.Free u cid w.nextId mid) :
    Placed { w with
      db := beginTurn now w.nextId u cid requestId userMessageId w.db
      nextId := w.nextId + 1 } where
  kinBelow := h.same_kin rfl (Nat.le_succ _)
  db := by
    refine h.db.addTurn rfl rfl rfl rfl (Nat.le_succ _)
      (fun t ht => (h.db.turnsBelow t ht).1.ne) (Nat.lt_succ_self _)
      ((h.has_below hhas).trans (Nat.lt_succ_self _)) ⟨rfl, rfl⟩ fun mid hmid => hfree mid ?_
    simpa [Turn.messageIds, openTurn] using hmid
  plans := h.plans_follow (Nat.le_succ _) (.append _ rfl le_rfl fun m hm => .inl ⟨m, hm, rfl⟩)
    fun _ hplan => hplan

lemma completeTurn (h : Placed w) (now : Instant) {u : UserId} {tid : Id}
    {assistantMessageId : Option Nat}
    (hrun : ∀ t ∈ w.db.turns, t.userId = u → t.id = tid →
      t.status = .running ∧ ∀ mid ∈ assistantMessageId, w.db.Free u t.conversationId tid mid) :
    Placed { w with db := (completeTurn now u tid assistantMessageId w.db).2 } := by
  unfold Store.completeTurn
  by_cases hrefused : w.db.turns.any fun t => t.userId = u ∧ t.id = tid ∧
      (t.complete now assistantMessageId).assistantMessageId = none
  · rw [if_pos hrefused]
    exact h
  rw [if_neg hrefused]
  have hdb : Placed { w with db := { w.db with
      turns := updateWhere (fun t : Turn => t.userId = u ∧ t.id = tid)
        (fun t => t.complete now assistantMessageId) w.db.turns } } := by
    have hmids : ∀ t ∈ w.db.turns, t.userId = u ∧ t.id = tid →
        (t.complete now assistantMessageId).messageIds
          = t.userMessageId.toList ++ assistantMessageId.toList := by
      intro t ht hp
      have hnone := h.db.running t ht (hrun t ht hp.1 hp.2).1
      simp [Turn.complete, Turn.messageIds, hnone]
    refine ⟨h.kinBelow, h.db.editTurns tid rfl rfl rfl rfl (fun t _ => ?_) (fun t ht mid hmid => ?_)
      (fun t ht hdone => ?_) fun t ht hopen => ?_, h.plans_follow le_rfl (.edit []
        (List.append_nil _).symm (fun t ht => ?_) le_rfl fun m hm => .inl ⟨m, hm, rfl⟩)
        fun _ hplan => hplan⟩
    · split <;> exact ⟨rfl, rfl, rfl⟩
    · split at hmid
      · next hp =>
        rw [hmids t ht hp] at hmid
        rcases List.mem_append.1 hmid with hasked | hanswer
        · exact .inl (List.mem_append_left _ hasked)
        · obtain ⟨rfl, htid⟩ := hp
          exact .inr ⟨htid, (hrun t ht rfl htid).2 mid (Option.mem_toList.1 hanswer)⟩
      · exact .inl hmid
    · split at hdone
      · next hp =>
        rw [if_pos hp]
        by_contra hnone
        exact hrefused (List.any_eq_true.2 ⟨t, ht, by simpa [hp] using hnone⟩)
      · next hp => rw [if_neg hp]; exact h.db.answered t ht hdone
    · split at hopen
      · cases hopen
      · next hp => rw [if_neg hp]; exact h.db.running t ht hopen
    · split
      · next hp =>
        refine ⟨rfl, rfl, rfl, fun mid hmid => ?_⟩
        have hnone := h.db.running t ht (hrun t ht hp.1 hp.2).1
        rw [hmids t ht hp]
        rw [Turn.messageIds, hnone] at hmid
        exact List.mem_append_left _ (by simpa using hmid)
      · exact ⟨rfl, rfl, rfl, List.Subset.refl _⟩
  dsimp only
  split
  · exact hdb
  · exact hdb.change (B := .any) (.keep (.releaseTurn _ u tid) (.of_db _ _))

lemma saveTurnSnapshot (h : Placed w) (now : Instant) {u : UserId} {cid tid : Id}
    (snapshot : Snapshot) (schemaVersion : Nat) (hturn : w.db.NamesTurn tid u cid) :
    Placed { w with db := saveTurnSnapshot now u cid tid snapshot schemaVersion w.db } where
  kinBelow := h.kinBelow
  db := by
    refine h.db.resnapshot fun s hs => ?_
    rcases List.mem_append.1 hs with hold | hnew
    · exact h.db.snapshotsBelow s (mem_of_mem_deleteWhere hold)
    · obtain ⟨t, ht, rfl, -, rfl⟩ := hturn
      rw [List.mem_singleton.1 hnew]
      exact h.db.turnsBelow t ht
  plans := h.plans_follow le_rfl (.append [] (List.append_nil _).symm le_rfl
    fun m hm => .inl ⟨m, hm, rfl⟩) fun _ hplan => hplan

theorem perform (h : Placed w) {c : TurnCall} (hc : w.Orderly c) : Placed (w.perform c) := by
  cases c with
  | act a => exact (act_changes (w.within_any a)).preserve (fun _ _ hw hchange => hw.change hchange) h
  | addMessage now u cid a => exact h.addMessage now a hc
  | setMessageTurn u mid tid => exact h.setMessageTurn hc
  | beginTurn now u cid requestId userMessageId => exact h.beginTurn now requestId hc.1 hc.2
  | completeTurn now u tid assistantMessageId => exact h.completeTurn now hc
  | saveTurnSnapshot now u cid tid snapshot schemaVersion =>
    exact h.saveTurnSnapshot now snapshot schemaVersion hc

end Placed

theorem placed_performed {cs : List TurnCall}
    (hcs : Runs.Along World.perform World.Orderly .empty cs) : Placed (World.performed cs) :=
  Runs.run_preserves_along (I := Placed) (fun _ _ hw hc => hw.perform hc) placed_empty hcs

end RentCompass.Store
