import RentCompass.Store.SingleFlight

/-!
# What a call does to all tables

A `Change` says of every table what happens to its rows at once, where a `Move` speaks of turns,
messages, leases and request ids: turns may fail, a turn starts or is finished, a branch is made,
or the rows of some conversations are deleted. Every call of the store is a sequence of changes
(`call_changes`), so a relation between tables is shown for each change and holds along every run.
-/

namespace RentCompass.Store

open Rows

/-- What a row of `conversations` says about the place of the conversation among its branches. -/
structure Kin where
  userId : UserId
  id : Id
  parent : Option Id
  forkedFrom : Option Id
  root : Option Id
  slot : Option Id
deriving DecidableEq

def Conversation.kin (c : Conversation) : Kin where
  userId := c.userId
  id := c.id
  parent := c.parentConversationId
  forkedFrom := c.forkedFromTurnId
  root := c.rootConversationId
  slot := c.editedSlotTurnId

def Db.kin (db : Db) : List Kin := db.conversations.map Conversation.kin

/-- The kin of a conversation created with no parent. -/
def rootKin (u : UserId) (cid : Id) : Kin where
  userId := u
  id := cid
  parent := none
  forkedFrom := none
  root := some cid
  slot := none

/-- The conversation exists. -/
def Db.Has (db : Db) (u : UserId) (cid : Id) : Prop := ∃ k ∈ db.kin, k.userId = u ∧ k.id = cid

def TurnSnapshot.key (s : TurnSnapshot) : Id × UserId × Id := (s.turnId, s.userId, s.conversationId)

/-- The conversation a job works for. -/
def Job.home (j : Job) : UserId × Id := (j.userId, j.conversationId)

/-- The turn stays as it is, or fails. -/
def Turn.FailsTo (t t' : Turn) : Prop :=
  t' = t ∨ ∃ now, t' = { t with status := .failed, completedAt := some now }

lemma Turn.FailsTo.refl (t : Turn) : t.FailsTo t := .inl rfl

lemma Turn.FailsTo.trans {t t' t'' : Turn} (h : t.FailsTo t') (h' : t'.FailsTo t'') :
    t.FailsTo t'' := by
  rcases h with rfl | ⟨now, rfl⟩
  · exact h'
  · rcases h' with rfl | ⟨now', rfl⟩
    · exact .inr ⟨now, rfl⟩
    · exact .inr ⟨now', rfl⟩

/-- Turns may fail, and leases and request ids may go; nothing else happens to rows that are
referred to. -/
structure Db.Keeps (db db' : Db) : Prop where
  kin : db'.kin = db.kin
  turns : ∃ g : Turn → Turn, (∀ t : Turn, t.FailsTo (g t)) ∧ db'.turns = db.turns.map g
  messages : db'.messages = db.messages
  nextMessageId : db'.nextMessageId = db.nextMessageId
  leases : db'.leases ⊆ db.leases
  turnRequests : db'.turnRequests ⊆ db.turnRequests
  snapshots : db'.snapshots.map TurnSnapshot.key = db.snapshots.map TurnSnapshot.key
  jobs : db'.jobs.map Job.home = db.jobs.map Job.home

namespace Db.Keeps

variable {db db' db'' : Db}

lemma refl (db : Db) : db.Keeps db where
  kin := rfl
  turns := ⟨id, Turn.FailsTo.refl, (List.map_id _).symm⟩
  messages := rfl
  nextMessageId := rfl
  leases := List.Subset.refl _
  turnRequests := List.Subset.refl _
  snapshots := rfl
  jobs := rfl

lemma trans (h : db.Keeps db') (h' : db'.Keeps db'') : db.Keeps db'' := by
  obtain ⟨g, hg, hturns⟩ := h.turns
  obtain ⟨g', hg', hturns'⟩ := h'.turns
  exact
    { kin := h'.kin.trans h.kin
      turns := ⟨g' ∘ g, fun t => (hg t).trans (hg' (g t)), by
        rw [hturns', hturns, List.map_map]⟩
      messages := h'.messages.trans h.messages
      nextMessageId := h'.nextMessageId.trans h.nextMessageId
      leases := List.Subset.trans h'.leases h.leases
      turnRequests := List.Subset.trans h'.turnRequests h.turnRequests
      snapshots := h'.snapshots.trans h.snapshots
      jobs := h'.jobs.trans h.jobs }

lemma failTurns (db : Db) (p : Turn → Prop) [DecidablePred p] (now : Instant) :
    db.Keeps { db with
      turns := updateWhere p (fun t => { t with status := .failed, completedAt := some now })
        db.turns } :=
  { refl db with
    turns := ⟨_, fun t => by
      by_cases hp : p t
      · exact .inr ⟨now, if_pos hp⟩
      · exact .inl (if_neg hp), rfl⟩ }

lemma dropLeases (db : Db) {leases : List Lease} (h : leases ⊆ db.leases) :
    db.Keeps { db with leases := leases } :=
  { refl db with leases := h }

lemma dropRequests (db : Db) {requests : List TurnRequest} (h : requests ⊆ db.turnRequests) :
    db.Keeps { db with turnRequests := requests } :=
  { refl db with turnRequests := h }

/-- Rows of other tables do not matter, and neither does what the jobs carry. -/
lemma aside (db : Db) {jobs : List Job} {snapshots : List TurnSnapshot}
    (owners : List StoreOwner) (erasureLocks : List ErasureLock) (forkRequests : List ForkRequest)
    (hjobs : jobs.map Job.home = db.jobs.map Job.home)
    (hsnapshots : snapshots.map TurnSnapshot.key = db.snapshots.map TurnSnapshot.key) :
    db.Keeps { db with
      jobs := jobs, snapshots := snapshots, owners := owners, erasureLocks := erasureLocks,
      forkRequests := forkRequests } :=
  { refl db with jobs := hjobs, snapshots := hsnapshots }

lemma updateConversations (db : Db) {p : Conversation → Prop} [DecidablePred p]
    {f : Conversation → Conversation} (hf : ∀ c, (f c).kin = c.kin) :
    db.Keeps { db with conversations := updateWhere p f db.conversations } :=
  { refl db with
    kin := by
      simp only [Db.kin, updateWhere, List.map_map]
      refine List.map_congr_left fun c _ => ?_
      by_cases hp : p c
      · simp [hp, hf c]
      · simp [hp] }

lemma updateJobs (db : Db) {p : Job → Prop} [DecidablePred p] {f : Job → Job}
    (hf : ∀ j, (f j).home = j.home) : db.Keeps (db.updateJobs p f) :=
  { refl db with
    jobs := by
      simp only [Db.updateJobs, updateWhere, List.map_map]
      refine List.map_congr_left fun j _ => ?_
      by_cases hp : p j
      · simp [hp, hf j]
      · simp [hp] }

lemma failRunning (db : Db) (u : UserId) (tid : Id) (now : Instant) :
    db.Keeps (db.failRunning u tid now) := failTurns db _ now

lemma releaseTurn (db : Db) (u : UserId) (tid : Id) : db.Keeps (db.releaseTurn u tid) :=
  dropLeases db fun _ => mem_of_mem_deleteWhere

lemma releaseConversation (db : Db) (u : UserId) (cid : Id) :
    db.Keeps (db.releaseConversation u cid) :=
  dropLeases db fun _ => mem_of_mem_deleteWhere

lemma releaseRequest (db : Db) (u : UserId) (rid : Text) : db.Keeps (db.releaseRequest u rid) :=
  dropRequests db fun _ => mem_of_mem_deleteWhere

lemma touch (db : Db) (u : UserId) (cid : Id) (now : Instant) : db.Keeps (db.touch u cid now) :=
  updateConversations db fun _ => rfl

lemma retitle (db : Db) (u : UserId) (cid : Id) (title : Option Text) :
    db.Keeps (db.retitle u cid title) := by
  unfold Db.retitle
  split
  · exact refl db
  · exact updateConversations db fun _ => rfl

lemma has (h : db.Keeps db') {u : UserId} {cid : Id} : db'.Has u cid ↔ db.Has u cid := by
  rw [Db.Has, h.kin, Db.Has]

end Db.Keeps

/-- The rows of some conversations are gone, and possibly the conversations. -/
structure Db.Drops (c : UserId → Id → Prop) (db db' : Db) : Prop where
  kin : db'.kin.Sublist db.kin
  kept : ∀ k ∈ db.kin, ¬ c k.userId k.id → k ∈ db'.kin
  turns : db'.turns.Sublist db.turns
  mem_turns : ∀ t, t ∈ db'.turns ↔ t ∈ db.turns ∧ ¬ c t.userId t.conversationId
  messages : db'.messages.Sublist db.messages
  mem_messages : ∀ m, m ∈ db'.messages ↔ m ∈ db.messages ∧ ¬ c m.userId m.conversationId
  nextMessageId : db'.nextMessageId = db.nextMessageId
  leases : ∀ l ∈ db'.leases, l ∈ db.leases ∧ ¬ c l.userId l.conversationId
  turnRequests : ∀ r ∈ db'.turnRequests, r ∈ db.turnRequests ∧ ¬ c r.userId r.conversationId
  snapshots : db'.snapshots.Sublist db.snapshots
  mem_snapshots : ∀ s, s ∈ db'.snapshots ↔ s ∈ db.snapshots ∧ ¬ c s.userId s.conversationId
  jobs : ∀ j ∈ db'.jobs, j ∈ db.jobs ∧ ¬ c j.userId j.conversationId

/-- A turn starts, in a conversation that is there or is created for it. -/
structure Db.Starts (n : Id) (a : StartArgs) (now : Instant) (cid : Id) (db db' : Db) : Prop where
  kin : db'.kin = db.kin ∨ cid = n + 1 ∧ db'.kin = db.kin ++ [rootKin a.userId cid]
  has : db'.Has a.userId cid
  turns : ∃ g : Turn → Turn, (∀ t : Turn, t.FailsTo (g t)) ∧
    db'.turns = db.turns.map g ++ [freshTurn a now n cid db.nextMessageId]
  messages : db'.messages =
    db.messages ++ [{ userMessage a now n cid with id := db.nextMessageId }]
  nextMessageId : db'.nextMessageId = db.nextMessageId + 1
  leases : ∀ l ∈ db'.leases, l ∈ db.leases ∨
    l.turnId = n ∧ l.userId = a.userId ∧ l.conversationId = cid
  turnRequests : ∀ r ∈ db'.turnRequests, r ∈ db.turnRequests ∨
    r.turnId = n ∧ r.userId = a.userId ∧ r.conversationId = cid
  snapshots : db'.snapshots.map TurnSnapshot.key = db.snapshots.map TurnSnapshot.key
  jobs : db'.jobs.map Job.home = db.jobs.map Job.home

/-- What is asked of a run: whether each turn starts later than the turns before it, and which
conversations may be deleted when. -/
structure Bounds where
  ticks : Prop
  deletes : World → (UserId → Id → Prop) → Prop

/-- The bounds that allow everything. -/
def Bounds.any : Bounds := ⟨False, fun _ _ => True⟩

/-- Nothing a change is about happens beside the database. -/
structure World.Beside (w w' : World) : Prop where
  nextId : w.nextId ≤ w'.nextId
  copies : w'.history.copies = w.history.copies
  plans : ∀ plan ∈ w'.plans, plan ∈ w.plans

lemma World.Beside.of_db (w : World) (db : Db) : w.Beside { w with db := db } :=
  ⟨le_rfl, rfl, fun _ h => h⟩

/-- The plan is what a fork or an edit leads to. -/
def BranchPlan.ReadFrom (plan : BranchPlan) (db : Db) : Prop :=
  (∃ u source afterTurnId title key,
    forkConversationPlan db u source afterTurnId title key = .ok (.plan plan)) ∨
  ∃ u source turnId title key,
    branchForEditPlan db u source turnId title key = .ok (.plan plan)

/-- One change of the tables. -/
inductive Change (B : Bounds) : World → World → Prop
  | keep {w w' : World} (h : w.db.Keeps w'.db) (hb : w.Beside w') : Change B w w'
  | plan {w : World} {plan : BranchPlan} (h : plan.ReadFrom w.db) :
      Change B w { w with plans := w.plans ++ [plan] }
  | converse {w : World} (u : UserId) (title : Option Text) (agentArch agentVersion : Text)
      (strict : Bool) (now : Instant) :
      Change B w { w with
        db := createConversation now w.nextId u title agentArch agentVersion strict w.db
        nextId := w.nextId + 1 }
  | start {w w' : World} {a : StartArgs} {now : Instant} {cid : Id}
      (h : Db.Starts w.nextId a now cid w.db w'.db)
      (hticks : B.ticks → ∀ t ∈ w.db.turns, t.startedAt < now)
      (hn : w'.nextId = w.nextId + 2) (hc : w'.history.copies = w.history.copies)
      (hp : w'.plans = w.plans) : Change B w w'
  | finish {w w' : World} {now : Instant} {u : UserId} {tid : Id} {f : FinalizeArgs} {turn : Turn}
      {m : Message} (h : Finished now u tid f w.db w'.db turn m) (hb : w.Beside w') : Change B w w'
  | branch {w w' : World} {plan : BranchPlan} {now : Instant} (hplan : plan ∈ w.plans)
      (h : commitBranch now w.nextId plan w.db = (.ok (plan.child w.nextId now), w'.db))
      (hn : w'.nextId = w.nextId + 1 +
        (plan.srcTurns (w.db.insertConversation (plan.child w.nextId now))).length)
      (hc : w'.history.copies = w.history.copies ++ turnMap (w.nextId + 1)
        (plan.srcTurns (w.db.insertConversation (plan.child w.nextId now))))
      (hp : ∀ plan' ∈ w'.plans, plan' ∈ w.plans) : Change B w w'
  | delete {w w' : World} (c : UserId → Id → Prop) (hB : B.deletes w c)
      (h : Db.Drops c w.db w'.db) (hb : w.Beside w') : Change B w w'

/-- A sequence of changes. -/
def Changes (B : Bounds) : World → World → Prop := Relation.ReflTransGen (Change B)

variable {B : Bounds}

lemma Change.changes {w w' : World} (h : Change B w w') : Changes B w w' := .single h

/-- What every change preserves, every sequence of changes preserves. -/
lemma Changes.preserve {I : World → Prop} (hchange : ∀ w w', I w → Change B w w' → I w')
    {w w' : World} (h : Changes B w w') (hw : I w) : I w' := by
  induction h with
  | refl => exact hw
  | tail _ hstep ih => exact hchange _ _ ih hstep

lemma Db.Keeps.changes {w w' : World} (h : w.db.Keeps w'.db) (hb : w.Beside w') :
    Changes B w w' := (Change.keep h hb).changes

/-! ### Starting a turn -/

lemma endAbandoned_keeps (p : Process) (now : Instant) (u : UserId) (t : Turn) (db : Db) :
    db.Keeps (endAbandoned p now u t db).2 := by
  rcases endAbandoned_snd p now u t db with h | ⟨-, h⟩
  · rw [h]
    exact .refl db
  · rw [h]
    exact (Db.Keeps.failRunning db u t.id now).trans (.releaseTurn _ u t.id)

lemma replayBranch_keeps {p : Process} {now : Instant} {a : StartArgs} {db db' : Db}
    {cid : Option Id} (h : replayBranch p now a db = .ok (.start cid, db')) : db.Keeps db' := by
  rcases replayBranch_start h with ⟨-, rfl, -⟩ | ⟨named, -, -, -, -, rfl⟩
  · exact .refl _
  · exact (endAbandoned_keeps p now a.userId named db).trans (.releaseRequest _ a.userId a.key)

lemma evictLease_keeps {p : Process} {now : Instant} {u : UserId} {cid : Id} {db db' : Db}
    (h : evictLease p now u cid db = .ok db') : db.Keeps db' := by
  rcases evictLease_ok h with ⟨-, rfl⟩ | ⟨l, -, -, rfl⟩
  · exact .refl _
  · exact (Db.Keeps.failRunning db u l.turnId now).trans (.releaseConversation _ u cid)

lemma Db.has_of_conversationOf {db : Db} {u : UserId} {cid : Id}
    (h : (db.conversationOf u cid).isSome) : db.Has u cid := by
  obtain ⟨c, hc, hu, hid⟩ := selectOne_isSome.1 h
  exact ⟨c.kin, List.mem_map_of_mem hc, hu, hid⟩

/-- The conversation a turn starts in is there, or is created. -/
lemma resolveConversation_kin {a : StartArgs} {now : Instant} {newCid cid' : Id} {cid : Option Id}
    {db db' : Db} (h : resolveConversation a now newCid cid db = .ok (cid', db')) :
    (db' = db ∧ db.Has a.userId cid') ∨
      cid' = newCid ∧ ∃ c : Conversation, c.kin = rootKin a.userId newCid ∧
        db' = db.insertConversation c := by
  rcases resolveConversation_ok h with ⟨-, hsome, rfl⟩ | ⟨-, rfl, rfl⟩
  · exact .inl ⟨rfl, Db.has_of_conversationOf hsome⟩
  · exact .inr ⟨rfl, _, rfl, rfl⟩

lemma Db.kin_insertConversation (db : Db) (c : Conversation) :
    (db.insertConversation c).kin = db.kin ++ [c.kin] := by
  simp [Db.kin, Db.insertConversation]

/-- The rows of a fresh turn, put into tables that keep those there were but for a conversation
that may have been created for it. -/
lemma insertTurn_starts {n : Id} {p : Process} {a : StartArgs} {now : Instant} {cid : Id}
    {db₀ db₁ db₂ db₃ : Db} (h₁ : db₀.Keeps db₁)
    (h₂ : (db₂ = db₁ ∧ db₁.Has a.userId cid) ∨
      cid = n + 1 ∧ ∃ c : Conversation, c.kin = rootKin a.userId (n + 1) ∧
        db₂ = db₁.insertConversation c)
    (h₃ : db₂.Keeps db₃) :
    Db.Starts n a now cid db₀ ((db₃.insertTurn p a now n cid).touch a.userId cid now) := by
  have hsame : ∃ db₀' : Db, db₀.Keeps db₀' ∧ db₀'.turns = db₂.turns ∧
      db₀'.messages = db₂.messages ∧ db₀'.nextMessageId = db₂.nextMessageId ∧
      db₀'.leases = db₂.leases ∧ db₀'.turnRequests = db₂.turnRequests ∧
      db₀'.snapshots = db₂.snapshots ∧ db₀'.jobs = db₂.jobs := by
    rcases h₂ with ⟨rfl, -⟩ | ⟨-, c, -, rfl⟩
    · exact ⟨_, h₁, rfl, rfl, rfl, rfl, rfl, rfl, rfl⟩
    · exact ⟨_, h₁, rfl, rfl, rfl, rfl, rfl, rfl, rfl⟩
  obtain ⟨db₀', hkeep, ht, hm, hk, hl, hr, hs, hj⟩ := hsame
  obtain ⟨g, hg, hturns⟩ := hkeep.turns
  obtain ⟨g', hg', hturns'⟩ := h₃.turns
  have htouch := Db.Keeps.touch (db₃.insertTurn p a now n cid) a.userId cid now
  have hkin : ((db₃.insertTurn p a now n cid).touch a.userId cid now).kin = db₂.kin :=
    htouch.kin.trans h₃.kin
  constructor
  case kin =>
    rcases h₂ with ⟨rfl, -⟩ | ⟨rfl, c, hc, rfl⟩
    · exact .inl (hkin.trans h₁.kin)
    · refine .inr ⟨rfl, hkin.trans ?_⟩
      rw [Db.kin_insertConversation, h₁.kin, hc]
  case has =>
    rw [Db.Has, hkin]
    rcases h₂ with ⟨rfl, hhas⟩ | ⟨rfl, c, hc, rfl⟩
    · exact hhas
    · refine ⟨c.kin, ?_, by rw [hc]; rfl, by rw [hc]; rfl⟩
      rw [Db.kin_insertConversation]
      exact List.mem_append_right _ (List.mem_singleton_self _)
  case turns =>
    refine ⟨g' ∘ g, fun t => (hg t).trans (hg' (g t)), ?_⟩
    have hfresh : freshTurn a now n cid db₃.nextMessageId
        = freshTurn a now n cid db₀.nextMessageId := by
      rw [h₃.nextMessageId, ← hk, hkeep.nextMessageId]
    rw [← List.map_map, ← hturns, ht, ← hturns', ← hfresh]
    rfl
  case messages =>
    rw [← hkeep.messages, hm, ← h₃.messages, ← hkeep.nextMessageId, hk, ← h₃.nextMessageId]
    rfl
  case nextMessageId =>
    rw [← hkeep.nextMessageId, hk, ← h₃.nextMessageId]
    rfl
  case leases =>
    intro l hlease
    rcases List.mem_append.1 hlease with hold | hnew
    · exact .inl (hkeep.leases (hl ▸ h₃.leases hold))
    · rw [List.mem_singleton.1 hnew]
      exact .inr ⟨rfl, rfl, rfl⟩
  case turnRequests =>
    intro r hrequest
    rcases List.mem_append.1 hrequest with hold | hnew
    · exact .inl (hkeep.turnRequests (hr ▸ h₃.turnRequests hold))
    · rw [List.mem_singleton.1 hnew]
      exact .inr ⟨rfl, rfl, rfl⟩
  case snapshots => exact h₃.snapshots.trans (by rw [← hs, hkeep.snapshots])
  case jobs => exact h₃.jobs.trans (by rw [← hj, hkeep.jobs])

/-- A fresh start, on the tables as the replay branch left them. -/
lemma startFresh_starts {p : Process} {now : Instant} {n : Id} {a : StartArgs} {cid : Option Id}
    {db₀ db₁ db : Db} {s : StartedTurn} (hkeep : db₀.Keeps db₁)
    (h : startFresh p now n a cid db₁ = .ok (s, db)) :
    ∃ cid', Db.Starts n a now cid' db₀ db := by
  obtain ⟨cid', db₂, db₃, hresolve, hevict, -, -, rfl⟩ := startFresh_ok h
  exact ⟨cid', insertTurn_starts hkeep (resolveConversation_kin hresolve)
    ((evictLease_keeps hevict).trans (.retitle db₃ a.userId cid' a.createTitle))⟩

lemma start_changes {w : World} {p : Process} {now : Instant} {a : StartArgs}
    (hticks : B.ticks → ∀ t ∈ w.db.turns, t.startedAt < now) : Changes B w (w.start p now a) := by
  have hn : w.nextId ≤ w.nextId + 2 := Nat.le_add_right _ _
  rcases startRequestTurn_cases p now w.nextId a w.db with
    ⟨e, h⟩ | ⟨t, db, h, -, hreplay⟩ | ⟨cid, db₁, s, db, h, -, hreplay, hfresh⟩
  · refine Db.Keeps.changes ?_ ⟨hn, by simp [World.start, h], fun _ hplan => hplan⟩
    simp only [World.start, h]
    exact .refl _
  · obtain ⟨named, -, -, hdb, -⟩ := replayBranch_replayed hreplay
    have hdb' : db = (endAbandoned p now a.userId named w.db).2 := by rw [← hdb]
    refine Db.Keeps.changes ?_ ⟨hn, by simp [World.start, h], fun _ hplan => hplan⟩
    simp only [World.start, h, hdb']
    exact endAbandoned_keeps p now a.userId named w.db
  · obtain ⟨cid', hstarts⟩ := startFresh_starts (replayBranch_keeps hreplay) hfresh
    have hstarts' : Db.Starts w.nextId a now cid' w.db (w.start p now a).db := by
      simp only [World.start, h]
      exact hstarts
    exact (Change.start hstarts' hticks rfl rfl rfl).changes

/-! ### Finishing, deleting, branching -/

lemma finalize_changes (w : World) (now : Instant) (u : UserId) (tid : Id) (f : FinalizeArgs) :
    Changes B w (w.finalize now u tid f) := by
  have hb : w.Beside (w.finalize now u tid f) := ⟨le_rfl, rfl, fun _ hplan => hplan⟩
  rcases finalizeRequestTurn_cases now u tid f w.db with
    ⟨e, h⟩ | ⟨turn, -, -, h⟩ | ⟨turn, m, db, hfin, h⟩
  · refine Db.Keeps.changes ?_ hb
    simp only [World.finalize, h]
    exact .refl _
  · refine Db.Keeps.changes ?_ hb
    simp only [World.finalize, h]
    exact .refl _
  · have hfin' : Finished now u tid f w.db (w.finalize now u tid f).db turn m := by
      simp only [World.finalize, h]
      exact hfin
    exact (Change.finish hfin' hb).changes

/-- The condition of the deletes that go by a conversation. -/
lemma drops_deleteConversationRows (db : Db) (u : UserId) (cid : Id) :
    Db.Drops (fun u' c => u' = u ∧ c = cid) db (db.deleteConversationRows u cid) where
  kin := List.Sublist.refl _
  kept := fun _ hk _ => hk
  turns := List.filter_sublist
  mem_turns := fun _ => mem_deleteWhere
  messages := List.filter_sublist
  mem_messages := fun _ => mem_deleteWhere
  nextMessageId := rfl
  leases := fun _ hl => mem_deleteWhere.1 hl
  turnRequests := fun _ hr => mem_deleteWhere.1 hr
  snapshots := List.filter_sublist
  mem_snapshots := fun _ => mem_deleteWhere
  jobs := fun _ hj => mem_deleteWhere.1 hj

lemma drops_deleteUserRows (db : Db) (u : UserId) :
    Db.Drops (fun u' _ => u' = u) db (db.deleteUserRows u) where
  kin := List.filter_sublist.map _
  kept := fun k hk hnot => by
    obtain ⟨c, hc, rfl⟩ := List.mem_map.1 hk
    exact List.mem_map_of_mem (mem_deleteWhere.2 ⟨hc, hnot⟩)
  turns := List.filter_sublist
  mem_turns := fun _ => mem_deleteWhere
  messages := List.filter_sublist
  mem_messages := fun _ => mem_deleteWhere
  nextMessageId := rfl
  leases := fun _ hl => mem_deleteWhere.1 hl
  turnRequests := fun _ hr => mem_deleteWhere.1 hr
  snapshots := List.filter_sublist
  mem_snapshots := fun _ => mem_deleteWhere
  jobs := fun _ hj => mem_deleteWhere.1 hj

/-- Rows that are not referred to may change with a deletion, and kept rows after it. -/
lemma Db.Drops.of_kin {c : UserId → Id → Prop} {db db₁ db' : Db} (h : Db.Drops c db db₁)
    (hkin : db'.kin.Sublist db₁.kin) (hkept : ∀ k ∈ db₁.kin, ¬ c k.userId k.id → k ∈ db'.kin)
    (ht : db'.turns = db₁.turns) (hm : db'.messages = db₁.messages)
    (hn : db'.nextMessageId = db₁.nextMessageId) (hl : db'.leases = db₁.leases)
    (hr : db'.turnRequests = db₁.turnRequests) (hs : db'.snapshots = db₁.snapshots)
    (hj : db'.jobs = db₁.jobs) : Db.Drops c db db' where
  kin := hkin.trans h.kin
  kept := fun k hk hnot => hkept k (h.kept k hk hnot) hnot
  turns := ht ▸ h.turns
  mem_turns := ht ▸ h.mem_turns
  messages := hm ▸ h.messages
  mem_messages := hm ▸ h.mem_messages
  nextMessageId := hn.trans h.nextMessageId
  leases := hl ▸ h.leases
  turnRequests := hr ▸ h.turnRequests
  snapshots := hs ▸ h.snapshots
  mem_snapshots := hs ▸ h.mem_snapshots
  jobs := hj ▸ h.jobs

lemma Db.Drops.changes {c : UserId → Id → Prop} {w : World} {db : Db} (hB : B.deletes w c)
    (h : Db.Drops c w.db db) : Changes B w { w with db := db } :=
  (Change.delete c hB h (.of_db w db)).changes

lemma Db.Keeps.changes_db {w : World} {db : Db} (h : w.db.Keeps db) :
    Changes B w { w with db := db } :=
  Db.Keeps.changes h (.of_db w db)

lemma clearConversation_changes {w : World} {u : UserId} {cid : Id}
    (hB : B.deletes w fun u' c => u' = u ∧ c = cid) (p : Process) (now : Instant) :
    Changes B w { w with db := (clearConversationMessages p now u cid w.db).2 } := by
  rcases clearConversationMessages_snd p now u cid w.db with h | ⟨-, h⟩
  · rw [h]
    exact .refl
  · rw [h]
    have htouch := Db.Keeps.touch (w.db.deleteConversationRows u cid) u cid now
    refine Db.Drops.changes hB ((drops_deleteConversationRows w.db u cid).of_kin ?_ ?_ rfl rfl rfl
      rfl rfl rfl rfl)
    · rw [htouch.kin]
    · rw [htouch.kin]
      exact fun k hk _ => hk

lemma deleteConversation_changes {w : World} {u : UserId} {cid : Id}
    (hB : B.deletes w fun u' c => u' = u ∧ c = cid) (p : Process) (now : Instant) :
    Changes B w { w with db := (deleteConversation p now u cid w.db).2 } := by
  rcases deleteConversation_snd p now u cid w.db with h | ⟨-, h⟩
  · rw [h]
    exact .refl
  · rw [h]
    refine Db.Drops.changes hB ((drops_deleteConversationRows w.db u cid).of_kin ?_ ?_ rfl rfl rfl
      rfl rfl rfl rfl)
    · exact List.filter_sublist.map _
    · intro k hk hnot
      obtain ⟨c, hc, rfl⟩ := List.mem_map.1 hk
      exact List.mem_map_of_mem (mem_deleteWhere.2 ⟨hc, hnot⟩)

lemma deleteAllUserData_changes {w : World} {u : UserId} (hB : B.deletes w fun u' _ => u' = u) :
    Changes B w { w with db := (deleteAllUserData u w.db).2 } := by
  rcases deleteAllUserData_snd u w.db with h | h
  · rw [h]
    exact .refl
  · rw [h]
    exact (drops_deleteUserRows w.db u).changes hB

lemma deleteAllConversations_changes {w : World} {u : UserId}
    (hB : B.deletes w fun u' _ => u' = u) (p : Process) (now : Instant) :
    Changes B w { w with db := (deleteAllConversations p now u w.db).2 } := by
  rcases deleteAllConversations_snd p now u w.db with h | h
  · rw [h]
    exact .refl
  · rw [h]
    refine Db.Drops.changes hB ((drops_deleteUserRows w.db u).of_kin ?_ ?_ rfl rfl rfl rfl rfl rfl
      rfl)
    · exact List.Sublist.refl _
    · exact fun _ hk _ => hk

lemma beginPrivacyErasure_changes (w : World) (p : Process) (now : Instant) (u : UserId) :
    Changes B w { w with db := (beginPrivacyErasure p now u w.db).2 } := by
  rcases beginPrivacyErasure_cases p now u w.db with ⟨e, h⟩ | ⟨db₁, -, hfail, -, h⟩
  · rw [h]
    exact .refl
  · obtain ⟨-, rfl⟩ := failLeaseTurns_ok hfail
    rw [h]
    have hfailed := Db.Keeps.failTurns w.db (fun t : Turn => t.userId = u ∧
      t.id ∈ (w.db.leasesOf u).map (·.turnId) ∧ t.status = .running) now
    refine (Db.Keeps.changes_db ?_ : Changes B w _)
    have hleases : deleteWhere (fun l : Lease => l.userId = u) w.db.leases ⊆ w.db.leases :=
      fun _ => mem_of_mem_deleteWhere
    refine (hfailed.trans (.dropLeases _ hleases)).trans ?_
    exact (Db.Keeps.updateJobs _ (f := (·.requeue now)) fun _ => rfl).trans
      (.aside _ _ _ _ rfl rfl)

lemma commit_changes (w : World) (now : Instant) (i : Nat) : Changes B w (w.commit now i) := by
  unfold World.commit
  split
  · exact .refl
  · next plan hplan =>
    have hleft : ∀ plan' ∈ w.plans.eraseIdx i, plan' ∈ w.plans :=
      fun plan' => List.mem_of_mem_eraseIdx
    rcases commitBranch_cases now w.nextId plan w.db with ⟨e, h⟩ | ⟨db₂, -, h⟩
    · refine Db.Keeps.changes ?_ ⟨?_, ?_, hleft⟩
      · simp only [h]
        exact .refl _
      · exact (Nat.le_add_right _ 1).trans (Nat.le_add_right _ _)
      · simp [h, Except.isOk, Except.toBool]
    · simp only [h, Except.isOk, Except.toBool, if_true]
      exact (Change.branch (List.mem_of_getElem? hplan) h rfl rfl hleft).changes

lemma plan_changes {w : World} {r : Except StoreError BranchRead}
    (hr : ∀ plan, r = .ok (.plan plan) → plan.ReadFrom w.db) : Changes B w (w.plan r) := by
  unfold World.plan
  split
  · next plan => exact (Change.plan (hr plan rfl)).changes
  · exact .refl

/-! ### Every call -/

/-- An action keeps to the bounds. -/
def World.Within (B : Bounds) (w : World) : Action → Prop
  | .startRequestTurn _ now _ => B.ticks → ∀ t ∈ w.db.turns, t.startedAt < now
  | .clearConversation _ _ u cid | .deleteConversation _ _ u cid =>
    B.deletes w fun u' c => u' = u ∧ c = cid
  | .deleteAllUserData u => B.deletes w fun u' _ => u' = u
  | _ => True

lemma World.within_any (w : World) (a : Action) : w.Within .any a := by
  cases a <;> simp [World.Within, Bounds.any]

/-- Every action is a sequence of changes. -/
theorem act_changes {w : World} {a : Action} (ha : w.Within B a) : Changes B w (w.act a) := by
  cases a with
  | startRequestTurn p now a => exact start_changes ha
  | finalizeRequestTurn now u tid f => exact finalize_changes w now u tid f
  | failTurn now u tid =>
    exact Db.Keeps.changes_db ((Db.Keeps.failTurns w.db _ now).trans (.releaseTurn _ u tid))
  | scanOrphans p now => exact Db.Keeps.changes (.refl _) ⟨le_rfl, rfl, fun _ h => h⟩
  | closeOrphan now i =>
    simp only [World.act]
    split
    · exact .refl
    · next o _ =>
      have h : Changes B w { w with orphans := w.orphans.eraseIdx i } :=
        Db.Keeps.changes (.refl _) ⟨le_rfl, rfl, fun _ h => h⟩
      exact h.trans (finalize_changes _ now o.userId o.turnId (orphanArgs w.db o))
  | createConversation now u title agentArch agentVersion strict =>
    exact (Change.converse u title agentArch agentVersion strict now).changes
  | planFork u source afterTurnId title key =>
    exact plan_changes fun plan h => .inl ⟨u, source, afterTurnId, title, key, h⟩
  | planEdit u source turnId title key =>
    exact plan_changes fun plan h => .inr ⟨u, source, turnId, title, key, h⟩
  | commitBranch now i => exact commit_changes w now i
  | clearConversation p now u cid => exact clearConversation_changes ha p now
  | deleteConversation p now u cid => exact deleteConversation_changes ha p now
  | beginPrivacyErasure p now u => exact beginPrivacyErasure_changes w p now u
  | deleteAllUserData u => exact deleteAllUserData_changes ha
  | endPrivacyErasure u => exact Db.Keeps.changes_db (.aside _ _ _ _ rfl rfl)
  | claimJob worker now leaseSeconds =>
    simp only [World.act]
    split
    · exact .refl
    · refine Db.Keeps.changes ?_ ⟨le_rfl, rfl, fun _ h => h⟩
      have hsweep : w.db.Keeps (w.db.sweepExpired now) := .updateJobs _ fun _ => rfl
      simp only [claimBackgroundJob]
      split
      · exact hsweep
      · exact hsweep.trans (.updateJobs _ fun _ => rfl)
  | saveJobResult worker id now result =>
    refine Db.Keeps.changes_db ?_
    unfold saveBackgroundJobResult
    split <;> exact .updateJobs _ fun _ => rfl
  | completeJob worker id now =>
    refine Db.Keeps.changes_db ?_
    unfold completeBackgroundJob
    split <;> exact .updateJobs _ fun _ => rfl
  | readRetry worker id => exact Db.Keeps.changes (.refl _) ⟨le_rfl, rfl, fun _ h => h⟩
  | writeRetry i error maxAttempts now =>
    simp only [World.act]
    split
    · exact .refl
    · exact Db.Keeps.changes (.updateJobs _ fun _ => rfl) ⟨le_rfl, rfl, fun _ h => h⟩
  | patchSummary now u cid summary through =>
    refine Db.Keeps.changes_db ?_
    unfold patchLatestSnapshotSummary
    split
    · exact .refl _
    · next row _ =>
      refine .aside _ _ _ _ rfl ?_
      simp only [updateWhere, List.map_map]
      refine List.map_congr_left fun s _ => ?_
      simp only [Function.comp_apply]
      split <;> rfl
  | owners rows => exact Db.Keeps.changes_db (.aside _ _ _ _ rfl rfl)

end RentCompass.Store
