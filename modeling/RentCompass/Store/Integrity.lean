import RentCompass.Store.Copies
import RentCompass.Store.Finalize

/-!
# Referential integrity

The tables refer to each other by ids and by nothing else: request ids, leases and snapshots name
turns, turns name messages, turns and jobs name conversations. Every call keeps what is referred
to with what refers to it. A branch between its reads and its transaction holds turns of a
conversation that may be deleted meanwhile; then the messages of those turns are gone, and the
transaction is refused rather than leave a copied turn without an answer.
-/

namespace RentCompass.Store

open Rows

/-- A turn of this id, user and conversation is there. -/
def Db.NamesTurn (db : Db) (tid : Id) (u : UserId) (cid : Id) : Prop :=
  ∃ t ∈ db.turns, t.id = tid ∧ t.userId = u ∧ t.conversationId = cid

/-- A message of this id, user and conversation is there. -/
def Db.HoldsMessage (db : Db) (u : UserId) (cid : Id) (mid : Nat) : Prop :=
  ∃ m ∈ db.messages, m.id = mid ∧ m.userId = u ∧ m.conversationId = cid

/-- A snapshot under the turn's own id, in its conversation, is there. -/
def Db.HoldsSnapshot (db : Db) (t : Turn) : Prop :=
  ∃ s ∈ db.snapshots, s.key = (t.id, t.userId, t.conversationId)

/-- Every reference of a row to a row of another table is met. -/
structure Db.Referential (db : Db) : Prop where
  requests : ∀ r ∈ db.turnRequests, db.NamesTurn r.turnId r.userId r.conversationId
  leases : ∀ l ∈ db.leases, db.NamesTurn l.turnId l.userId l.conversationId
  snapshots : ∀ s ∈ db.snapshots, db.NamesTurn s.turnId s.userId s.conversationId
  messages : ∀ t ∈ db.turns, ∀ mid ∈ t.messageIds,
    db.HoldsMessage t.userId t.conversationId mid
  completed : ∀ t ∈ db.turns, t.status = .completed →
    t.assistantMessageId.isSome ∧ db.HoldsSnapshot t
  jobs : ∀ j ∈ db.jobs, db.Has j.userId j.conversationId
  turns : ∀ t ∈ db.turns, db.Has t.userId t.conversationId

/-- The rows a turn needs to be copied are there. -/
def Db.Intact (db : Db) (t : Turn) : Prop :=
  (∀ mid ∈ t.messageIds, db.HoldsMessage t.userId t.conversationId mid) ∧ db.HoldsSnapshot t

/-- The answer of the turn was deleted with its conversation. -/
def Db.AnswerGone (db : Db) (t : Turn) : Prop :=
  ∀ mid, t.assistantMessageId = some mid →
    mid < db.nextMessageId ∧ ¬ db.HoldsMessage t.userId t.conversationId mid

/-- What an edit has read of the turns it is to copy still stands, or their conversation was
deleted. -/
def BranchPlan.Held (plan : BranchPlan) (n : Id) (db : Db) : Prop :=
  match plan.kind with
  | .fork .. => True
  | .edit _ srcTurns _ _ => ∀ t ∈ srcTurns, t.id < n ∧ t.userId = plan.userId ∧
      t.conversationId = plan.source.id ∧ t.status = .completed ∧ t.assistantMessageId.isSome ∧
      (db.Intact t ∨ db.AnswerGone t)

structure Integrity (w : World) : Prop where
  referential : w.db.Referential
  turnIds : Keyed (fun t : Turn => t.id) w.db.turns
  turnsBelow : ∀ t ∈ w.db.turns, t.id < w.nextId
  messagesBelow : ∀ m ∈ w.db.messages, m.id < w.db.nextMessageId
  plans : ∀ plan ∈ w.plans, plan.Held w.nextId w.db

lemma integrity_empty : Integrity .empty where
  referential := ⟨by simp [World.empty, Db.empty], by simp [World.empty, Db.empty],
    by simp [World.empty, Db.empty], by simp [World.empty, Db.empty],
    by simp [World.empty, Db.empty], by simp [World.empty, Db.empty],
    by simp [World.empty, Db.empty]⟩
  turnIds := keyed_nil
  turnsBelow := by simp [World.empty, Db.empty]
  messagesBelow := by simp [World.empty, Db.empty]
  plans := by simp [World.empty]

/-! ### Plans over a change -/

/-- Rows that plans look at are added and not taken away. -/
structure Db.Extends (db db' : Db) : Prop where
  messages : ∀ m ∈ db.messages, m ∈ db'.messages
  fresh : ∀ m ∈ db'.messages, m ∈ db.messages ∨ db.nextMessageId ≤ m.id
  nextMessageId : db.nextMessageId ≤ db'.nextMessageId
  snapshots : ∀ s ∈ db.snapshots, ∃ s' ∈ db'.snapshots, s'.key = s.key

lemma BranchPlan.Held.grow {plan : BranchPlan} {n n' : Id} {db db' : Db}
    (h : plan.Held n db) (hn : n ≤ n') (he : db.Extends db') : plan.Held n' db' := by
  unfold BranchPlan.Held at h ⊢
  cases hk : plan.kind with
  | fork => trivial
  | edit _ srcTurns _ _ =>
    simp only [hk] at h ⊢
    intro t ht
    obtain ⟨hlt, hu, hc, hdone, hsome, hrows⟩ := h t ht
    refine ⟨lt_of_lt_of_le hlt hn, hu, hc, hdone, hsome, ?_⟩
    rcases hrows with ⟨hmessages, s, hs, hkey⟩ | hgone
    · refine .inl ⟨fun mid hmid => ?_, ?_⟩
      · obtain ⟨m, hm, hrest⟩ := hmessages mid hmid
        exact ⟨m, he.messages m hm, hrest⟩
      · obtain ⟨s', hs', hsame⟩ := he.snapshots s hs
        exact ⟨s', hs', hsame.trans hkey⟩
    · refine .inr fun mid hmid => ?_
      obtain ⟨hbelow, hnone⟩ := hgone mid hmid
      refine ⟨lt_of_lt_of_le hbelow he.nextMessageId, ?_⟩
      rintro ⟨m, hm, hid, hrest⟩
      rcases he.fresh m hm with hold | hnew
      · exact hnone ⟨m, hold, hid, hrest⟩
      · exact absurd hbelow (not_lt.2 (hid ▸ hnew))

/-- A deletion takes the messages of a conversation together with its snapshots, or neither. -/
lemma BranchPlan.Held.drops {plan : BranchPlan} {n n' : Id} {db db' : Db}
    {c : UserId → Id → Prop} (h : plan.Held n db) (hn : n ≤ n') (hd : Db.Drops c db db')
    (hbelow : ∀ m ∈ db.messages, m.id < db.nextMessageId) : plan.Held n' db' := by
  unfold BranchPlan.Held at h ⊢
  cases hk : plan.kind with
  | fork => trivial
  | edit _ srcTurns _ _ =>
    simp only [hk] at h ⊢
    intro t ht
    obtain ⟨hlt, hu, hc, hdone, hsome, hrows⟩ := h t ht
    refine ⟨lt_of_lt_of_le hlt hn, hu, hc, hdone, hsome, ?_⟩
    by_cases hdropped : c t.userId t.conversationId
    · refine .inr fun mid hmid => ⟨?_, ?_⟩
      · rw [hd.nextMessageId]
        rcases hrows with ⟨hmessages, -⟩ | hgone
        · obtain ⟨m, hm, hid, -⟩ := hmessages mid (by simp [Turn.messageIds, hmid])
          exact hid ▸ hbelow m hm
        · exact (hgone mid hmid).1
      · rintro ⟨m, hm, -, hmu, hmc⟩
        obtain ⟨-, hnot⟩ := (hd.mem_messages m).1 hm
        exact hnot (by rwa [hmu, hmc])
    · rcases hrows with ⟨hmessages, s, hs, hkey⟩ | hgone
      · refine .inl ⟨fun mid hmid => ?_, s, ?_, hkey⟩
        · obtain ⟨m, hm, hid, hmu, hmc⟩ := hmessages mid hmid
          exact ⟨m, (hd.mem_messages m).2 ⟨hm, by rwa [hmu, hmc]⟩, hid, hmu, hmc⟩
        · simp only [TurnSnapshot.key, Prod.mk.injEq] at hkey
          exact (hd.mem_snapshots s).2 ⟨hs, by rwa [hkey.2.1, hkey.2.2]⟩
      · refine .inr fun mid hmid => ?_
        obtain ⟨hlow, hnone⟩ := hgone mid hmid
        refine ⟨hd.nextMessageId ▸ hlow, ?_⟩
        rintro ⟨m, hm, hrest⟩
        exact hnone ⟨m, hd.messages.subset hm, hrest⟩

/-- What an edit reads is there. -/
lemma BranchPlan.ReadFrom.held {plan : BranchPlan} {n : Id} {db : Db} (h : plan.ReadFrom db)
    (hr : db.Referential) (hbelow : ∀ t ∈ db.turns, t.id < n) : plan.Held n db := by
  rcases h with ⟨u, source, afterTurnId, title, key, h⟩ | ⟨u, source, turnId, title, key, h⟩
  · obtain ⟨src, forkTurn, -, -, rfl⟩ := forkConversationPlan_ok h
    trivial
  · obtain ⟨src, edited, hsrc, -, -, rfl⟩ := branchForEditPlan_ok h
    intro t ht
    obtain ⟨hmem, hu, hc, hdone, -⟩ := mem_completedTurns.1 ht
    obtain ⟨hsome, hsnap⟩ := hr.completed t hmem hdone
    have hid : src.id = source := (Rows.selectOne_holds
      (p := fun c : Conversation => c.userId = u ∧ c.id = source) hsrc).2
    exact ⟨hbelow t hmem, hu, hc.trans hid.symm, hdone, hsome, .inl ⟨hr.messages t hmem, hsnap⟩⟩

/-! ### One change -/

/-- Two tables with the same keys have a row for each row of the other. -/
lemma exists_mem_of_map_eq {ρ κ : Type*} {key : ρ → κ} {rows rows' : List ρ}
    (h : rows'.map key = rows.map key) {r : ρ} (hr : r ∈ rows') :
    ∃ r₀ ∈ rows, key r₀ = key r := by
  have hkey : key r ∈ rows.map key := h ▸ List.mem_map_of_mem hr
  obtain ⟨r₀, hr₀, heq⟩ := List.mem_map.1 hkey
  exact ⟨r₀, hr₀, heq⟩

lemma Turn.FailsTo.same {t t' : Turn} (h : t.FailsTo t') :
    t'.id = t.id ∧ t'.userId = t.userId ∧ t'.conversationId = t.conversationId ∧
      t'.messageIds = t.messageIds ∧ (t'.status = .completed → t' = t) := by
  rcases h with rfl | ⟨now, rfl⟩
  · exact ⟨rfl, rfl, rfl, rfl, fun _ => rfl⟩
  · exact ⟨rfl, rfl, rfl, rfl, fun h => by cases h⟩

namespace Db.Keeps

variable {db db' : Db}

lemma namesTurn (h : db.Keeps db') {tid : Id} {u : UserId} {cid : Id} (hn : db.NamesTurn tid u cid) :
    db'.NamesTurn tid u cid := by
  obtain ⟨g, hg, hturns⟩ := h.turns
  obtain ⟨t, ht, hid, hu, hc⟩ := hn
  obtain ⟨hid', hu', hc', -⟩ := (hg t).same
  exact ⟨g t, hturns ▸ List.mem_map_of_mem ht, hid'.trans hid, hu'.trans hu, hc'.trans hc⟩

lemma turn (h : db.Keeps db') {t' : Turn} (ht' : t' ∈ db'.turns) :
    ∃ t ∈ db.turns, t.FailsTo t' := by
  obtain ⟨g, hg, hturns⟩ := h.turns
  rw [hturns] at ht'
  obtain ⟨t, ht, rfl⟩ := List.mem_map.1 ht'
  exact ⟨t, ht, hg t⟩

lemma toExtends (h : db.Keeps db') : db.Extends db' where
  messages := fun _ hm => h.messages ▸ hm
  fresh := fun _ hm => .inl (h.messages ▸ hm)
  nextMessageId := h.nextMessageId ▸ le_rfl
  snapshots := fun _ hs => exists_mem_of_map_eq h.snapshots.symm hs

lemma referential (h : db.Keeps db') (hr : db.Referential) : db'.Referential where
  requests := fun r hmem => h.namesTurn (hr.requests r (h.turnRequests hmem))
  leases := fun l hmem => h.namesTurn (hr.leases l (h.leases hmem))
  snapshots := by
    intro s hs
    obtain ⟨s₀, hs₀, hkey⟩ := exists_mem_of_map_eq h.snapshots hs
    have hnames := h.namesTurn (hr.snapshots s₀ hs₀)
    simp only [TurnSnapshot.key, Prod.mk.injEq] at hkey
    rwa [hkey.1, hkey.2.1, hkey.2.2] at hnames
  messages := by
    intro t' ht' mid hmid
    obtain ⟨t, ht, hfails⟩ := h.turn ht'
    obtain ⟨-, hu, hc, hids, -⟩ := hfails.same
    rw [hids] at hmid
    obtain ⟨m, hm, hrest⟩ := hr.messages t ht mid hmid
    rw [Db.HoldsMessage, h.messages, hu, hc]
    exact ⟨m, hm, hrest⟩
  completed := by
    intro t' ht' hdone
    obtain ⟨t, ht, hfails⟩ := h.turn ht'
    obtain rfl := hfails.same.2.2.2.2 hdone
    obtain ⟨hsome, s, hs, hkey⟩ := hr.completed t' ht hdone
    obtain ⟨s', hs', hsame⟩ := h.toExtends.snapshots s hs
    exact ⟨hsome, s', hs', hsame.trans hkey⟩
  jobs := by
    intro j hj
    obtain ⟨j₀, hj₀, hhome⟩ := exists_mem_of_map_eq h.jobs hj
    have hhas := h.has.2 (hr.jobs j₀ hj₀)
    simp only [Job.home, Prod.mk.injEq] at hhome
    rwa [hhome.1, hhome.2] at hhas
  turns := by
    intro t' ht'
    obtain ⟨t, ht, hfails⟩ := h.turn ht'
    obtain ⟨-, hu, hc, -⟩ := hfails.same
    rw [hu, hc]
    exact h.has.2 (hr.turns t ht)

end Db.Keeps

/-- A deletion by conversation takes what refers to a row with the row. -/
lemma Db.Drops.referential {c : UserId → Id → Prop} {db db' : Db} (h : Db.Drops c db db')
    (hr : db.Referential) : db'.Referential := by
  have hnames : ∀ tid u cid, db.NamesTurn tid u cid → ¬ c u cid → db'.NamesTurn tid u cid := by
    rintro tid u cid ⟨t, ht, hid, hu, hc⟩ hnot
    exact ⟨t, (h.mem_turns t).2 ⟨ht, by rwa [hu, hc]⟩, hid, hu, hc⟩
  have hhas : ∀ u cid, db.Has u cid → ¬ c u cid → db'.Has u cid := by
    rintro u cid ⟨k, hk, hu, hc⟩ hnot
    exact ⟨k, h.kept k hk (by rwa [hu, hc]), hu, hc⟩
  constructor
  case requests =>
    intro r hmem
    obtain ⟨hold, hnot⟩ := h.turnRequests r hmem
    exact hnames _ _ _ (hr.requests r hold) hnot
  case leases =>
    intro l hmem
    obtain ⟨hold, hnot⟩ := h.leases l hmem
    exact hnames _ _ _ (hr.leases l hold) hnot
  case snapshots =>
    intro s hmem
    obtain ⟨hold, hnot⟩ := (h.mem_snapshots s).1 hmem
    exact hnames _ _ _ (hr.snapshots s hold) hnot
  case messages =>
    intro t hmem mid hmid
    obtain ⟨hold, hnot⟩ := (h.mem_turns t).1 hmem
    obtain ⟨m, hm, hid, hu, hc⟩ := hr.messages t hold mid hmid
    exact ⟨m, (h.mem_messages m).2 ⟨hm, by rwa [hu, hc]⟩, hid, hu, hc⟩
  case completed =>
    intro t hmem hdone
    obtain ⟨hold, hnot⟩ := (h.mem_turns t).1 hmem
    obtain ⟨hsome, s, hs, hkey⟩ := hr.completed t hold hdone
    have hkey' := hkey
    simp only [TurnSnapshot.key, Prod.mk.injEq] at hkey'
    exact ⟨hsome, s, (h.mem_snapshots s).2 ⟨hs, by rwa [hkey'.2.1, hkey'.2.2]⟩, hkey⟩
  case jobs =>
    intro j hmem
    obtain ⟨hold, hnot⟩ := h.jobs j hmem
    exact hhas _ _ (hr.jobs j hold) hnot
  case turns =>
    intro t hmem
    obtain ⟨hold, hnot⟩ := (h.mem_turns t).1 hmem
    exact hhas _ _ (hr.turns t hold) hnot

lemma Db.Starts.namesTurn {n : Id} {a : StartArgs} {now : Instant} {cid : Id} {db db' : Db}
    (h : Db.Starts n a now cid db db') {tid : Id} {u : UserId} {c : Id}
    (hn : db.NamesTurn tid u c) : db'.NamesTurn tid u c := by
  obtain ⟨g, hg, hturns⟩ := h.turns
  obtain ⟨t, ht, hid, hu, hc⟩ := hn
  obtain ⟨hid', hu', hc', -⟩ := (hg t).same
  refine ⟨g t, ?_, hid'.trans hid, hu'.trans hu, hc'.trans hc⟩
  rw [hturns]
  exact List.mem_append_left _ (List.mem_map_of_mem ht)

/-- A start adds a turn, and with it the rows that name it and the message it names. -/
lemma Db.Starts.referential {n : Id} {a : StartArgs} {now : Instant} {cid : Id} {db db' : Db}
    (h : Db.Starts n a now cid db db') (hr : db.Referential) : db'.Referential := by
  obtain ⟨g, hg, hturns⟩ := h.turns
  have hfresh : freshTurn a now n cid db.nextMessageId ∈ db'.turns := by
    rw [hturns]
    exact List.mem_append_right _ (List.mem_singleton_self _)
  have hnew : db'.NamesTurn n a.userId cid := ⟨_, hfresh, rfl, rfl, rfl⟩
  have hnames : ∀ tid u c, db.NamesTurn tid u c → db'.NamesTurn tid u c :=
    fun _ _ _ => h.namesTurn
  have hhas : ∀ u c, db.Has u c → db'.Has u c := by
    rintro u c ⟨k, hk, hrest⟩
    rcases h.kin with hkin | ⟨-, hkin⟩
    · exact ⟨k, hkin ▸ hk, hrest⟩
    · exact ⟨k, by rw [hkin]; exact List.mem_append_left _ hk, hrest⟩
  have hback : ∀ t' ∈ db'.turns, (∃ t ∈ db.turns, t.FailsTo t') ∨
      t' = freshTurn a now n cid db.nextMessageId := by
    intro t' ht'
    rw [hturns] at ht'
    rcases List.mem_append.1 ht' with hold | hlast
    · obtain ⟨t, ht, rfl⟩ := List.mem_map.1 hold
      exact .inl ⟨t, ht, hg t⟩
    · exact .inr (List.mem_singleton.1 hlast)
  have hmessages : ∀ m ∈ db.messages, m ∈ db'.messages := by
    intro m hm
    rw [h.messages]
    exact List.mem_append_left _ hm
  constructor
  case requests =>
    intro r hmem
    rcases h.turnRequests r hmem with hold | ⟨hid, hu, hc⟩
    · exact hnames _ _ _ (hr.requests r hold)
    · rwa [hid, hu, hc]
  case leases =>
    intro l hmem
    rcases h.leases l hmem with hold | ⟨hid, hu, hc⟩
    · exact hnames _ _ _ (hr.leases l hold)
    · rwa [hid, hu, hc]
  case snapshots =>
    intro s hs
    obtain ⟨s₀, hs₀, hkey⟩ := exists_mem_of_map_eq h.snapshots hs
    have hnamed := hnames _ _ _ (hr.snapshots s₀ hs₀)
    simp only [TurnSnapshot.key, Prod.mk.injEq] at hkey
    rwa [hkey.1, hkey.2.1, hkey.2.2] at hnamed
  case messages =>
    intro t' ht' mid hmid
    rcases hback t' ht' with ⟨t, ht, hfails⟩ | rfl
    · obtain ⟨-, hu, hc, hids, -⟩ := hfails.same
      rw [hids] at hmid
      obtain ⟨m, hm, hrest⟩ := hr.messages t ht mid hmid
      rw [hu, hc]
      exact ⟨m, hmessages m hm, hrest⟩
    · simp only [Turn.messageIds, freshTurn, Option.toList_some, Option.toList_none,
        List.append_nil, List.mem_singleton] at hmid
      rw [Db.HoldsMessage, h.messages, hmid]
      exact ⟨_, List.mem_append_right _ (List.mem_singleton_self _), rfl, rfl, rfl⟩
  case completed =>
    intro t' ht' hdone
    rcases hback t' ht' with ⟨t, ht, hfails⟩ | rfl
    · obtain rfl := hfails.same.2.2.2.2 hdone
      obtain ⟨hsome, s, hs, hkey⟩ := hr.completed t' ht hdone
      obtain ⟨s', hs', hsame⟩ := exists_mem_of_map_eq h.snapshots.symm hs
      exact ⟨hsome, s', hs', hsame.trans hkey⟩
    · cases hdone
  case jobs =>
    intro j hj
    obtain ⟨j₀, hj₀, hhome⟩ := exists_mem_of_map_eq h.jobs hj
    have hhomed := hhas _ _ (hr.jobs j₀ hj₀)
    simp only [Job.home, Prod.mk.injEq] at hhome
    rwa [hhome.1, hhome.2] at hhomed
  case turns =>
    intro t' ht'
    rcases hback t' ht' with ⟨t, ht, hfails⟩ | rfl
    · obtain ⟨-, hu, hc, -⟩ := hfails.same
      rw [hu, hc]
      exact hhas _ _ (hr.turns t ht)
    · exact h.has

/-- What a finish does to the tables. -/
structure Db.Closes (turn : Turn) (f : FinalizeArgs) (now : Instant) (m : Message) (db db' : Db) :
    Prop where
  kin : db'.kin = db.kin
  turns : db'.turns = updateWhere
    (fun t : Turn => t.userId = turn.userId ∧ t.id = turn.id ∧ t.status = .running)
    (fun t => t.close f.status db.nextMessageId now) db.turns
  messages : db'.messages = db.messages ++ [m]
  nextMessageId : db'.nextMessageId = db.nextMessageId + 1
  leases : db'.leases ⊆ db.leases
  turnRequests : db'.turnRequests = db.turnRequests
  /-- Only a completed turn leaves a snapshot and jobs. -/
  persisted : (f.status = .completed ∧
      (∃ s : TurnSnapshot, s.key = (turn.id, turn.userId, turn.conversationId) ∧
        db'.snapshots = deleteWhere (fun r : TurnSnapshot => r.turnId = turn.id) db.snapshots ++ [s]) ∧
      ∀ j ∈ db'.jobs, j ∈ db.jobs ∨ j.home = (turn.userId, turn.conversationId)) ∨
    f.status ≠ .completed ∧ db'.snapshots = db.snapshots ∧ db'.jobs = db.jobs

lemma JobSpec.QueuedAs.home {turn : Turn} {now : Instant} {j : Job} {spec : JobSpec}
    (h : spec.QueuedAs turn now j) : j.home = (turn.userId, turn.conversationId) := by
  cases spec with
  | notObject => cases h
  | badPayload => cases h
  | job kind payload key =>
    cases payload with
    | unserialisable => cases h
    | json payload =>
      rw [JobSpec.QueuedAs] at h
      rw [h]
      rfl

lemma persistCompletion_tables {turn : Turn} {f : FinalizeArgs} {now : Instant} {db db' : Db}
    (h : persistCompletion turn f now db = .ok db') :
    (f.status = .completed ∧
      (∃ s : TurnSnapshot, s.key = (turn.id, turn.userId, turn.conversationId) ∧
        db'.snapshots = deleteWhere (fun r : TurnSnapshot => r.turnId = turn.id) db.snapshots ++ [s]) ∧
      ∀ j ∈ db'.jobs, j ∈ db.jobs ∨ j.home = (turn.userId, turn.conversationId)) ∨
    f.status ≠ .completed ∧ db'.snapshots = db.snapshots ∧ db'.jobs = db.jobs := by
  unfold persistCompletion at h
  split at h
  · next hstatus =>
    obtain rfl := Except.ok.inj h
    exact .inr ⟨hstatus, rfl, rfl⟩
  next hstatus =>
  split at h
  · have hqueued := enqueueJobs_queued h
    refine .inl ⟨not_not.1 hstatus, ?_, fun j hj => ?_⟩
    · obtain ⟨jobs, next, rfl⟩ := enqueueJobs_ok h
      refine ⟨_, ?_, rfl⟩
      rfl
    · rcases hqueued.added j hj with hold | ⟨spec, -, hspec⟩
      · exact .inl hold
      · exact .inr hspec.home
  · cases h

lemma Finished.closes {now : Instant} {u : UserId} {tid : Id} {f : FinalizeArgs} {db db' : Db}
    {turn : Turn} {m : Message} (h : Finished now u tid f db db' turn m) :
    Db.Closes turn f now m db db' := by
  obtain ⟨hu, hid⟩ :=
    selectOne_holds (p := fun t : Turn => t.userId = u ∧ t.id = tid) h.named
  obtain ⟨db₃, hpersist, rfl⟩ := h.persisted
  have htables := persistCompletion_tables hpersist
  obtain ⟨recommendations, metadata, rfl⟩ := h.message
  obtain ⟨snapshots, jobs, next, rfl⟩ := persistCompletion_ok hpersist
  subst hu hid
  exact
    { kin := (Db.Keeps.touch _ turn.userId turn.conversationId now).kin
      turns := rfl
      messages := rfl
      nextMessageId := rfl
      leases := fun _ => mem_of_mem_deleteWhere
      turnRequests := rfl
      persisted := htables }

namespace Db.Closes

variable {turn : Turn} {f : FinalizeArgs} {now : Instant} {m : Message} {db db' : Db}

/-- A turn after a finish is one of before, or the turn that was closed. -/
lemma turn_cases (h : Db.Closes turn f now m db db') (hids : Keyed (fun t : Turn => t.id) db.turns)
    (hturn : turn ∈ db.turns) {t' : Turn} (ht' : t' ∈ db'.turns) :
    (t' ∈ db.turns ∧ t'.id ≠ turn.id) ∨ t' ∈ db.turns ∧ turn.status ≠ .running ∨
      t' = turn.close f.status db.nextMessageId now := by
  rw [h.turns] at ht'
  rcases mem_updateWhere_cases ht' with ⟨hold, hnot⟩ | ⟨t, ht, ⟨-, hid, -⟩, rfl⟩
  · by_cases hid : t'.id = turn.id
    · obtain rfl := hids.eq hold hturn hid
      exact .inr (.inl ⟨hold, fun hrun => hnot ⟨rfl, rfl, hrun⟩⟩)
    · exact .inl ⟨hold, hid⟩
  · obtain rfl := hids.eq ht hturn hid
    exact .inr (.inr rfl)

lemma namesTurn (h : Db.Closes turn f now m db db') {tid : Id} {u : UserId} {cid : Id}
    (hn : db.NamesTurn tid u cid) : db'.NamesTurn tid u cid := by
  obtain ⟨t, ht, hrest⟩ := hn
  rw [Db.NamesTurn, h.turns]
  by_cases hp : t.userId = turn.userId ∧ t.id = turn.id ∧ t.status = .running
  · exact ⟨_, mem_updateWhere.2 ⟨t, ht, (if_pos hp).symm⟩, hrest⟩
  · exact ⟨t, mem_updateWhere_of_not ht hp, hrest⟩

/-- The snapshot a finish replaces is the turn's own. -/
lemma toExtends (h : Db.Closes turn f now m db db') (hm : m.id = db.nextMessageId)
    (hids : Keyed (fun t : Turn => t.id) db.turns) (hturn : turn ∈ db.turns)
    (hr : db.Referential) : db.Extends db' where
  messages := by
    intro m' hm'
    rw [h.messages]
    exact List.mem_append_left _ hm'
  fresh := by
    intro m' hm'
    rw [h.messages] at hm'
    rcases List.mem_append.1 hm' with hold | hnew
    · exact .inl hold
    · rw [List.mem_singleton.1 hnew, hm]
      exact .inr le_rfl
  nextMessageId := by
    rw [h.nextMessageId]
    exact Nat.le_succ _
  snapshots := by
    intro s hs
    rcases h.persisted with ⟨-, ⟨s', hkey, hsnapshots⟩, -⟩ | ⟨-, hsnapshots, -⟩
    · rw [hsnapshots]
      by_cases hid : s.turnId = turn.id
      · obtain ⟨t, ht, hid', hu, hc⟩ := hr.snapshots s hs
        obtain rfl := hids.eq ht hturn (hid'.trans hid)
        refine ⟨s', List.mem_append_right _ (List.mem_singleton_self _), ?_⟩
        rw [hkey, TurnSnapshot.key, hid, hu, hc]
      · exact ⟨s, List.mem_append_left _ (mem_deleteWhere.2 ⟨hs, hid⟩), rfl⟩
    · exact ⟨s, hsnapshots ▸ hs, rfl⟩

end Db.Closes

/-- A finish gives the turn its answer, and a completed one its snapshot. -/
lemma Finished.referential {now : Instant} {u : UserId} {tid : Id} {f : FinalizeArgs} {db db' : Db}
    {turn : Turn} {m : Message} (h : Finished now u tid f db db' turn m)
    (hids : Keyed (fun t : Turn => t.id) db.turns) (hr : db.Referential) : db'.Referential := by
  have hcl := h.closes
  have hturn : turn ∈ db.turns := selectOne_mem h.named
  obtain ⟨recommendations, metadata, hm⟩ := h.message
  have hextends := hcl.toExtends (by rw [hm]) hids hturn hr
  have hhas : ∀ u c, db.Has u c → db'.Has u c := by
    intro u c hhas
    rwa [Db.Has, hcl.kin]
  have hback : ∀ t' ∈ db'.turns, (t' ∈ db.turns ∧ t'.id ≠ turn.id) ∨
      t' = turn.close f.status db.nextMessageId now := by
    intro t' ht'
    rcases hcl.turn_cases hids hturn ht' with hold | ⟨-, hnot⟩ | hnew
    · exact .inl hold
    · exact absurd h.running hnot
    · exact .inr hnew
  have hholds : ∀ u c mid, db.HoldsMessage u c mid → db'.HoldsMessage u c mid := by
    rintro u c mid ⟨m', hm', hrest⟩
    exact ⟨m', hextends.messages m' hm', hrest⟩
  have hanswer : db'.HoldsMessage turn.userId turn.conversationId db.nextMessageId := by
    refine ⟨m, ?_, by rw [hm], by rw [hm]; rfl, by rw [hm]; rfl⟩
    rw [hcl.messages]
    exact List.mem_append_right _ (List.mem_singleton_self _)
  constructor
  case requests =>
    intro r hmem
    rw [hcl.turnRequests] at hmem
    exact hcl.namesTurn (hr.requests r hmem)
  case leases => exact fun l hmem => hcl.namesTurn (hr.leases l (hcl.leases hmem))
  case snapshots =>
    intro s hs
    rcases hcl.persisted with ⟨-, ⟨s', hkey, hsnapshots⟩, -⟩ | ⟨-, hsnapshots, -⟩
    · rw [hsnapshots] at hs
      rcases List.mem_append.1 hs with hold | hnew
      · exact hcl.namesTurn (hr.snapshots s (mem_of_mem_deleteWhere hold))
      · obtain rfl := List.mem_singleton.1 hnew
        simp only [TurnSnapshot.key, Prod.mk.injEq] at hkey
        exact hcl.namesTurn ⟨turn, hturn, hkey.1.symm, hkey.2.1.symm, hkey.2.2.symm⟩
    · exact hcl.namesTurn (hr.snapshots s (hsnapshots ▸ hs))
  case messages =>
    intro t' ht' mid hmid
    rcases hback t' ht' with ⟨hold, -⟩ | rfl
    · exact hholds _ _ _ (hr.messages t' hold mid hmid)
    · rcases List.mem_append.1 hmid with hasked | hanswered
      · exact hholds _ _ _ (hr.messages turn hturn mid (List.mem_append_left _ hasked))
      · obtain rfl : mid = db.nextMessageId := by simpa [Turn.close] using hanswered
        exact hanswer
  case completed =>
    intro t' ht' hdone
    rcases hback t' ht' with ⟨hold, -⟩ | rfl
    · obtain ⟨hsome, s, hs, hkey⟩ := hr.completed t' hold hdone
      obtain ⟨s', hs', hsame⟩ := hextends.snapshots s hs
      exact ⟨hsome, s', hs', hsame.trans hkey⟩
    · refine ⟨rfl, ?_⟩
      rcases hcl.persisted with ⟨-, ⟨s', hkey, hsnapshots⟩, -⟩ | ⟨hne, -⟩
      · refine ⟨s', ?_, hkey⟩
        rw [hsnapshots]
        exact List.mem_append_right _ (List.mem_singleton_self _)
      · exact absurd hdone hne
  case jobs =>
    intro j hj
    rcases hcl.persisted with ⟨-, -, hjobs⟩ | ⟨-, -, hjobs⟩
    · rcases hjobs j hj with hold | hhome
      · exact hhas _ _ (hr.jobs j hold)
      · simp only [Job.home, Prod.mk.injEq] at hhome
        rw [hhome.1, hhome.2]
        exact hhas _ _ (hr.turns turn hturn)
    · exact hhas _ _ (hr.jobs j (hjobs ▸ hj))
  case turns =>
    intro t' ht'
    rcases hback t' ht' with ⟨hold, -⟩ | rfl
    · exact hhas _ _ (hr.turns t' hold)
    · exact hhas _ _ (hr.turns turn hturn)

namespace Db.Branched

variable {now : Instant} {n : Id} {plan : BranchPlan} {db db' : Db}

/-- The turns a committed branch copies have their messages and their snapshot. -/
lemma srcTurns_intact (h : Db.Branched now n plan db db') (hr : db.Referential)
    (hbelow : ∀ t ∈ db.turns, t.id < n) (hplan : plan.Held n db) :
    ∀ t ∈ plan.srcTurns db, t.id < n ∧ t.userId = plan.userId ∧
      t.conversationId = plan.source.id ∧ t.status = .completed ∧ db.Intact t := by
  intro t ht
  have hsrc := ht
  unfold BranchPlan.srcTurns at ht
  unfold BranchPlan.Held at hplan
  cases hk : plan.kind with
  | fork afterTurnId forkTurn =>
    rw [hk] at ht
    obtain ⟨hmem, hu, hc, hdone, -⟩ := mem_completedTurns.1 ht
    obtain ⟨-, hsnap⟩ := hr.completed t hmem hdone
    exact ⟨hbelow t hmem, hu, hc, hdone, hr.messages t hmem, hsnap⟩
  | edit turnId srcTurns cutoff anchor =>
    simp only [hk] at ht hplan
    obtain ⟨hlt, hu, hc, hdone, hsome, hrows⟩ := hplan t ht
    refine ⟨hlt, hu, hc, hdone, hrows.resolve_right fun hgone => ?_⟩
    -- the copy would have no answer
    obtain ⟨i, hi⟩ := List.mem_iff_getElem?.1 hsrc
    have hcopy := h.answered _ (exists_copiedTurn _ _ _ _ hi) hdone
    obtain ⟨mid', hlook⟩ := Option.isSome_iff_exists.1 hcopy
    obtain ⟨mid, hmid, hlook⟩ := Option.bind_eq_some_iff.1 hlook
    obtain ⟨j, m, hj, hid, -⟩ := lookup_renumber hlook
    have hm := List.mem_filter.1 (List.mem_of_getElem? hj)
    simp only [Bool.decide_and, Bool.decide_eq_true, Bool.and_eq_true, decide_eq_true_eq] at hm
    exact (hgone mid hmid).2 ⟨m, hm.1, hid, hm.2.1.trans hu.symm, hm.2.2.1.trans hc.symm⟩

/-- The copy of a turn is a turn of the child. -/
lemma copy (h : Db.Branched now n plan db db') {t' : Turn} (ht' : t' ∈ db'.turns) :
    t' ∈ db.turns ∨ ∃ (i : Nat) (t : Turn), (plan.srcTurns db)[i]? = some t ∧
      t'.id = n + 1 + i ∧ t'.userId = plan.userId ∧ t'.conversationId = n ∧
      t'.status = t.status ∧ t'.startedAt = t.startedAt ∧
      (∀ mid' ∈ t'.messageIds, db'.HoldsMessage plan.userId n mid') ∧
      (t'.status = .completed → t'.assistantMessageId.isSome) := by
  rw [h.turns] at ht'
  rcases List.mem_append.1 ht' with hold | hnew
  · exact .inl hold
  · have hanswered := h.answered t' hnew
    obtain ⟨i, t, hi, rfl⟩ := mem_copiedTurns hnew
    refine .inr ⟨i, t, hi, rfl, rfl, rfl, rfl, rfl, fun mid' hmid' => ?_, hanswered⟩
    have hlook : ∃ mid, (messageMap db.nextMessageId (inheritedMessages db plan.userId
        plan.source.id (plan.srcTurns db) plan.cutoff)).lookup mid = some mid' := by
      rcases List.mem_append.1 hmid' with hasked | hanswer
      · obtain ⟨mid, -, hlook⟩ := Option.bind_eq_some_iff.1 (Option.mem_toList.1 hasked)
        exact ⟨mid, hlook⟩
      · obtain ⟨mid, -, hlook⟩ := Option.bind_eq_some_iff.1 (Option.mem_toList.1 hanswer)
        exact ⟨mid, hlook⟩
    obtain ⟨mid, hlook⟩ := hlook
    obtain ⟨m, -, -, m', hm', rfl⟩ := mem_copiedMessages_of_lookup hlook
    have hmem := List.mem_append_right db.messages hm'
    rw [← h.messages] at hmem
    exact ⟨_, hmem, rfl, rfl, rfl⟩

lemma toExtends (h : Db.Branched now n plan db db') (hsnapshots : ∀ s ∈ db.snapshots, s.turnId < n)
    (hturns : ∀ t ∈ plan.srcTurns db, t.id < n) : db.Extends db' where
  messages := by
    intro m hm
    rw [h.messages]
    exact List.mem_append_left _ hm
  fresh := by
    intro m hm
    rw [h.messages] at hm
    rcases List.mem_append.1 hm with hold | hnew
    · exact .inl hold
    · obtain ⟨i, m₀, -, rfl⟩ := mem_copiedMessages hnew
      exact .inr (Nat.le_add_right _ i)
  nextMessageId := by
    rw [h.nextMessageId]
    exact Nat.le_add_right _ _
  snapshots := by
    intro s hs
    rw [h.snapshots_eq hsnapshots hturns]
    exact ⟨s, List.mem_append_left _ hs, rfl⟩

lemma namesTurn (h : Db.Branched now n plan db db') {tid : Id} {u : UserId} {c : Id}
    (hn : db.NamesTurn tid u c) : db'.NamesTurn tid u c := by
  obtain ⟨t, ht, hrest⟩ := hn
  exact ⟨t, by rw [h.turns]; exact List.mem_append_left _ ht, hrest⟩

/-- A branch adds copies that refer to copies. -/
lemma referential (h : Db.Branched now n plan db db') (hr : db.Referential)
    (hbelow : ∀ t ∈ db.turns, t.id < n) (hplan : plan.Held n db) : db'.Referential := by
  have hintact := h.srcTurns_intact hr hbelow hplan
  have hsnapshots : ∀ s ∈ db.snapshots, s.turnId < n := by
    intro s hs
    obtain ⟨t, ht, hid, -⟩ := hr.snapshots s hs
    exact hid ▸ hbelow t ht
  have hsnaps := h.snapshots_eq hsnapshots fun t ht => (hintact t ht).1
  have hextends := h.toExtends hsnapshots fun t ht => (hintact t ht).1
  have hnames : ∀ tid u c, db.NamesTurn tid u c → db'.NamesTurn tid u c :=
    fun _ _ _ => h.namesTurn
  have hhas : ∀ u c, db.Has u c → db'.Has u c := by
    rintro u c ⟨k, hk, hrest⟩
    exact ⟨k, by rw [h.kin_eq]; exact List.mem_append_left _ hk, hrest⟩
  have hchild : db'.Has plan.userId n :=
    ⟨_, by rw [h.kin_eq]; exact List.mem_append_right _ (List.mem_singleton_self _), rfl, rfl⟩
  constructor
  case requests =>
    intro r hmem
    rw [h.turnRequests] at hmem
    exact hnames _ _ _ (hr.requests r hmem)
  case leases =>
    intro l hmem
    rw [h.leases] at hmem
    exact hnames _ _ _ (hr.leases l hmem)
  case snapshots =>
    intro s hs
    rw [hsnaps] at hs
    rcases List.mem_append.1 hs with hold | hnew
    · exact hnames _ _ _ (hr.snapshots s hold)
    · obtain ⟨⟨a, b⟩, htt, hs⟩ := List.mem_flatMap.1 hnew
      have hkey := turnId_of_copiedSnapshot hs
      simp only [TurnSnapshot.key, Prod.mk.injEq] at hkey
      obtain ⟨i, t, hi, -, rfl⟩ := mem_turnMap.1 htt
      have hcopy := List.mem_append_right db.turns (exists_copiedTurn (n + 1) plan.userId n
        (messageMap db.nextMessageId (inheritedMessages db plan.userId plan.source.id
          (plan.srcTurns db) plan.cutoff)) hi)
      rw [← h.turns] at hcopy
      exact ⟨_, hcopy, hkey.1.symm, hkey.2.1.symm, hkey.2.2.symm⟩
  case messages =>
    intro t' ht' mid hmid
    rcases h.copy ht' with hold | ⟨i, t, -, -, hu, hc, -, -, hmessages, -⟩
    · obtain ⟨m, hm, hrest⟩ := hr.messages t' hold mid hmid
      exact ⟨m, hextends.messages m hm, hrest⟩
    · rw [hu, hc]
      exact hmessages mid hmid
  case completed =>
    intro t' ht' hdone
    rcases h.copy ht' with hold | ⟨i, t, hi, hid, hu, hc, -, -, -, hanswered⟩
    · obtain ⟨hsome, s, hs, hkey⟩ := hr.completed t' hold hdone
      obtain ⟨s', hs', hsame⟩ := hextends.snapshots s hs
      exact ⟨hsome, s', hs', hsame.trans hkey⟩
    · refine ⟨hanswered hdone, ?_⟩
      obtain ⟨-, htu, -, -, -, s, hs, hkey⟩ := hintact t (List.mem_of_getElem? hi)
      simp only [TurnSnapshot.key, Prod.mk.injEq] at hkey
      have hfound : (selectOne (fun s : TurnSnapshot => s.userId = plan.userId ∧ s.turnId = t.id)
          db.snapshots).isSome :=
        selectOne_isSome.2 ⟨s, hs, hkey.2.1.trans htu, hkey.1⟩
      have hcopied : (copiedSnapshot now plan.userId n db.snapshots (t.id, n + 1 + i)).isSome := by
        rw [copiedSnapshot, Option.isSome_map]
        exact hfound
      obtain ⟨s', hs'⟩ := Option.isSome_iff_exists.1 hcopied
      have hmem := Option.mem_toList.2 hs'
      refine ⟨s', ?_, by rw [hid, hu, hc]; exact turnId_of_copiedSnapshot hmem⟩
      rw [hsnaps]
      exact List.mem_append_right _ (List.mem_flatMap.2
        ⟨(t.id, n + 1 + i), mem_turnMap.2 ⟨i, t, hi, rfl, rfl⟩, hmem⟩)
  case jobs =>
    intro j hj
    rw [h.jobs] at hj
    exact hhas _ _ (hr.jobs j hj)
  case turns =>
    intro t' ht'
    rcases h.copy ht' with hold | ⟨i, t, -, -, hu, hc, -⟩
    · exact hhas _ _ (hr.turns t' hold)
    · rw [hu, hc]
      exact hchild

end Db.Branched

/-! ### Every change -/

theorem Integrity.change {B : Bounds} {w w' : World} (h : Integrity w) (hchange : Change B w w') :
    Integrity w' := by
  obtain ⟨hr, hids, hbelow, hmessages, hplans⟩ := h
  cases hchange with
  | keep hkeep hb =>
    obtain ⟨g, hg, hturns⟩ := hkeep.turns
    refine ⟨hkeep.referential hr, ?_, fun t' ht' => ?_, ?_, fun plan hplan => ?_⟩
    · rw [Keyed, hturns, List.map_map]
      exact (List.map_congr_left fun t _ => (hg t).same.1) ▸ hids
    · obtain ⟨t, ht, hfails⟩ := hkeep.turn ht'
      rw [hfails.same.1]
      exact lt_of_lt_of_le (hbelow t ht) hb.nextId
    · rw [hkeep.messages, hkeep.nextMessageId]
      exact hmessages
    · exact (hplans plan (hb.plans plan hplan)).grow hb.nextId hkeep.toExtends
  | plan hread =>
    refine ⟨hr, hids, hbelow, hmessages, fun plan' hplan' => ?_⟩
    rcases List.mem_append.1 hplan' with hold | hnew
    · exact hplans plan' hold
    · obtain rfl := List.mem_singleton.1 hnew
      exact hread.held hr hbelow
  | converse u title agentArch agentVersion strict now =>
    have hkin := w.db.kin_insertConversation
      (rootConversation u title agentArch agentVersion strict w.nextId now)
    have hhas : ∀ u' c, w.db.Has u' c → (createConversation now w.nextId u title agentArch
        agentVersion strict w.db).Has u' c := by
      rintro u' c ⟨k, hk, hrest⟩
      exact ⟨k, by rw [createConversation, hkin]; exact List.mem_append_left _ hk, hrest⟩
    exact ⟨⟨hr.requests, hr.leases, hr.snapshots, hr.messages, hr.completed,
      fun j hj => hhas _ _ (hr.jobs j hj), fun t ht => hhas _ _ (hr.turns t ht)⟩, hids,
      fun t ht => (hbelow t ht).trans (Nat.lt_succ_self _), hmessages,
      fun plan hplan => (hplans plan hplan).grow (Nat.le_succ _)
        ⟨fun _ hm => hm, fun _ hm => .inl hm, le_rfl, fun s hs => ⟨s, hs, rfl⟩⟩⟩
  | start hstarts hticks hn hc hp =>
    rename_i a now cid
    obtain ⟨g, hg, hturns⟩ := hstarts.turns
    have hlt : w.nextId < w'.nextId := by
      rw [hn]
      exact Nat.lt_add_of_pos_right (by decide)
    refine ⟨hstarts.referential hr, ?_, fun t' ht' => ?_, fun m hm => ?_, fun plan hplan => ?_⟩
    · rw [hturns]
      refine Keyed.append_one ?_ fun t' ht' => ?_
      · rw [Keyed, List.map_map]
        exact (List.map_congr_left fun t _ => (hg t).same.1) ▸ hids
      · obtain ⟨t, ht, rfl⟩ := List.mem_map.1 ht'
        rw [(hg t).same.1]
        exact (hbelow t ht).ne
    · rw [hturns] at ht'
      rcases List.mem_append.1 ht' with hold | hnew
      · obtain ⟨t, ht, rfl⟩ := List.mem_map.1 hold
        rw [(hg t).same.1]
        exact (hbelow t ht).trans hlt
      · rw [List.mem_singleton.1 hnew]
        exact hlt
    · rw [hstarts.messages] at hm
      rw [hstarts.nextMessageId]
      rcases List.mem_append.1 hm with hold | hnew
      · exact (hmessages m hold).trans (Nat.lt_succ_self _)
      · rw [List.mem_singleton.1 hnew]
        exact Nat.lt_succ_self _
    · rw [hp] at hplan
      refine (hplans plan hplan).grow hlt.le ⟨?_, ?_, ?_, ?_⟩
      · exact fun m hm => hstarts.messages ▸ List.mem_append_left _ hm
      · intro m hm
        rw [hstarts.messages] at hm
        rcases List.mem_append.1 hm with hold | hnew
        · exact .inl hold
        · rw [List.mem_singleton.1 hnew]
          exact .inr le_rfl
      · rw [hstarts.nextMessageId]
        exact Nat.le_succ _
      · exact fun s hs => exists_mem_of_map_eq hstarts.snapshots.symm hs
  | finish hfin hb =>
    rename_i now u tid f turn m
    have hcl := hfin.closes
    have hturn : turn ∈ w.db.turns := selectOne_mem hfin.named
    obtain ⟨recommendations, metadata, hm⟩ := hfin.message
    refine ⟨hfin.referential hids hr, ?_, fun t' ht' => ?_, fun m' hm' => ?_, fun plan hplan => ?_⟩
    · rw [hcl.turns]
      exact hids.updateWhere fun _ _ _ => rfl
    · rw [hcl.turns] at ht'
      rcases mem_updateWhere_cases ht' with ⟨hold, -⟩ | ⟨t, ht, -, rfl⟩
      · exact lt_of_lt_of_le (hbelow t' hold) hb.nextId
      · exact lt_of_lt_of_le (hbelow t ht) hb.nextId
    · rw [hcl.messages] at hm'
      rw [hcl.nextMessageId]
      rcases List.mem_append.1 hm' with hold | hnew
      · exact (hmessages m' hold).trans (Nat.lt_succ_self _)
      · rw [List.mem_singleton.1 hnew, hm]
        exact Nat.lt_succ_self _
    · exact (hplans plan (hb.plans plan hplan)).grow hb.nextId
        (hcl.toExtends (by rw [hm]) hids hturn hr)
  | branch hplan hcommit hn hc hp =>
    rename_i plan now
    have hbr := commitBranch_branched hcommit
    have hheld := hplans plan hplan
    have hintact := hbr.srcTurns_intact hr hbelow hheld
    have hsnapshots : ∀ s ∈ w.db.snapshots, s.turnId < w.nextId := by
      intro s hs
      obtain ⟨t, ht, hid, -⟩ := hr.snapshots s hs
      exact hid ▸ hbelow t ht
    have hle : w.nextId ≤ w'.nextId := by
      rw [hn]
      exact (Nat.le_add_right _ 1).trans (Nat.le_add_right _ _)
    refine ⟨hbr.referential hr hbelow hheld, ?_, fun t' ht' => ?_, fun m hm => ?_,
      fun plan' hplan' => (hplans plan' (hp plan' hplan')).grow hle
        (hbr.toExtends hsnapshots fun t ht => (hintact t ht).1)⟩
    · rw [hbr.turns]
      refine hids.append (keyed_copies (fun _ _ => rfl) _)
        fun t ht t' ht' => ?_
      obtain ⟨i, t₀, -, rfl⟩ := mem_copiedTurns ht'
      exact ((hbelow t ht).trans_le ((Nat.le_add_right _ 1).trans (Nat.le_add_right _ i))).ne
    · rcases hbr.copy ht' with hold | ⟨i, t, hi, hid, -⟩
      · exact lt_of_lt_of_le (hbelow t' hold) hle
      · obtain ⟨hlt, -⟩ := List.getElem?_eq_some_iff.1 hi
        rw [hid, hn, srcTurns_insertConversation]
        exact Nat.add_lt_add_left hlt _
    · rw [hbr.messages] at hm
      rw [hbr.nextMessageId]
      rcases List.mem_append.1 hm with hold | hnew
      · exact lt_of_lt_of_le (hmessages m hold) (Nat.le_add_right _ _)
      · obtain ⟨i, m₀, hi, rfl⟩ := mem_copiedMessages hnew
        obtain ⟨hlt, -⟩ := List.getElem?_eq_some_iff.1 hi
        exact Nat.add_lt_add_left hlt _
  | delete c hB hdrops hb =>
    refine ⟨hdrops.referential hr, hids.sublist (hdrops.turns.map _), fun t ht => ?_, fun m hm => ?_,
      fun plan hplan => (hplans plan (hb.plans plan hplan)).drops hb.nextId hdrops hmessages⟩
    · exact lt_of_lt_of_le (hbelow t (hdrops.turns.subset ht)) hb.nextId
    · rw [hdrops.nextMessageId]
      exact hmessages m (hdrops.messages.subset hm)

/-! ### Every run -/

/-- A call of the store, which goes through or raises. -/
inductive Call where
  | act (a : Action)
  | deleteAllConversations (p : Process) (now : Instant) (u : UserId)
  /-- A statement raises and the call is rolled back. The ids it drew are not drawn again. -/
  | rolledBack (drawn : Nat)

def World.call (w : World) : Call → World
  | .act a => w.act a
  | .deleteAllConversations p now u =>
    { w with db := (deleteAllConversations p now u w.db).2 }
  | .rolledBack drawn => { w with nextId := w.nextId + drawn }

/-- The world after a sequence of calls, from the empty store. -/
def World.afterCalls (cs : List Call) : World := Runs.run World.call .empty cs

/-- Every call is a sequence of changes. -/
theorem call_changes (w : World) (c : Call) : Changes .any w (w.call c) := by
  cases c with
  | act a => exact act_changes (w.within_any a)
  | deleteAllConversations p now u => exact deleteAllConversations_changes trivial p now
  | rolledBack drawn =>
    exact Db.Keeps.changes (.refl _) ⟨Nat.le_add_right _ _, rfl, fun _ hplan => hplan⟩

theorem Integrity.call {w : World} (h : Integrity w) (c : Call) : Integrity (w.call c) :=
  (call_changes w c).preserve (fun _ _ hw hchange => hw.change hchange) h

theorem integrity_after (as : List Action) : Integrity (World.after as) :=
  Runs.run_preserves (I := Integrity) (fun _ a hw => hw.call (.act a)) integrity_empty as

/-- Whatever calls are made in whatever order, each going through or rolled back, every reference
of a row is met in every state: request ids, leases and snapshots name a turn of their user and
conversation, the messages a turn names are there, a completed turn has its answer and a snapshot
under its own id, and jobs and turns name conversations that exist. -/
theorem store_referential (cs : List Call) : (World.afterCalls cs).db.Referential := by
  have h : Integrity (World.afterCalls cs) :=
    Runs.run_preserves (I := Integrity) (fun _ c hw => hw.call c) integrity_empty cs
  exact h.referential

end RentCompass.Store
