import RentCompass.Store.World
import Mathlib.Logic.Relation

/-!
# What an action does to turns, messages, leases and request ids

Twenty-one actions change the four tables that turns live in, and they do it by a handful of
statements. A `Move` is one of these; `act_moves` says that every action is a sequence of moves.
Invariants of the turns are proved for moves and hold along every run.
-/

namespace RentCompass.Store

open Rows

/-- The history of a finish that closes the turn. -/
def History.finish (h : History) (tid : Id) (f : FinalizeArgs) : History :=
  { h with
    completed := h.completed ++ if f.status = .completed then [tid] else []
    delivered := h.delivered ++ if f.answers then [tid] else [] }

/-- The turns that a user's leases name fail, and the leases are gone. -/
def Db.failLeased (db : Db) (u : UserId) (tids : List Id) (now : Instant) : Db :=
  { db with
    turns := updateWhere (fun t : Turn => t.userId = u ∧ t.id ∈ tids ∧ t.status = .running)
      (fun t => { t with status := .failed, completedAt := some now }) db.turns
    leases := deleteWhere (fun l : Lease => l.userId = u) db.leases }

/-- The rows a branch adds. -/
def Db.addBranch (db : Db) (fresh : Id) (u : UserId) (source child : Id) (srcTurns : List Turn)
    (cutoff : Option Nat) : Db :=
  let ms := inheritedMessages db u source srcTurns cutoff
  { db with
    messages := db.messages ++ copiedMessages db.nextMessageId u child (turnMap fresh srcTurns) ms
    nextMessageId := db.nextMessageId + ms.length
    turns := db.turns ++ copiedTurns fresh u child (messageMap db.nextMessageId ms) srcTurns }

/-- A fresh turn under a request id, which is released first if it was taken; its conversation
may be created with it. -/
def World.beginTurn (w : World) (p : Process) (a : StartArgs) (now : Instant) (cid : Id)
    (created : Bool) : World :=
  let db := if created then w.db.insertConversation (rootConversation a.userId a.createTitle
    a.agentArch a.agentVersion a.strict cid now) else w.db
  { w with
    db := (db.releaseRequest a.userId a.key).insertTurn p a now w.nextId cid
    nextId := w.nextId + 2
    history := { w.history with started := w.history.started ++ [a.record w.nextId] } }

/-- The conversation and the copies a plan adds. -/
def World.addPlan (w : World) (plan : BranchPlan) (now : Instant) : World :=
  let db := w.db.insertConversation (plan.child w.nextId now)
  { w with
    db := db.addBranch (w.nextId + 1) plan.userId plan.source.id w.nextId (plan.srcTurns db)
      plan.cutoff
    nextId := w.nextId + 1 + (plan.srcTurns db).length
    history := { w.history with
      copies := w.history.copies ++ turnMap (w.nextId + 1) (plan.srcTurns db) } }

/-- What a row of `conversations` says about where the conversation comes from. -/
structure Origin where
  userId : UserId
  id : Id
  parent : Option Id
  forkedFrom : Option Id

def Conversation.origin (c : Conversation) : Origin where
  userId := c.userId
  id := c.id
  parent := c.parentConversationId
  forkedFrom := c.forkedFromTurnId

def Db.origins (db : Db) : List Origin := db.conversations.map Conversation.origin

/-- What is asked of a run: whether rows may be deleted and closed turns failed, whether each
turn starts later than the turns before it, and which turns may be completed. -/
structure Terms where
  deletes : Prop
  ticks : Prop
  completes : Id → Prop

/-- The terms that allow everything. -/
def Terms.any : Terms := ⟨True, False, fun _ => True⟩

/-- Nothing that a move is about changes, but for ids drawn and plans dropped. -/
structure Untouched (w w' : World) : Prop where
  turns : w'.db.turns = w.db.turns
  messages : w'.db.messages = w.db.messages
  leases : w'.db.leases = w.db.leases
  turnRequests : w'.db.turnRequests = w.db.turnRequests
  nextMessageId : w'.db.nextMessageId = w.db.nextMessageId
  origins : w'.db.origins = w.db.origins
  nextId : w.nextId ≤ w'.nextId
  started : w'.history.started = w.history.started
  completed : w'.history.completed = w.history.completed
  delivered : w'.history.delivered = w.history.delivered
  copies : w'.history.copies = w.history.copies
  plans : ∀ plan ∈ w'.plans, plan ∈ w.plans

/-- One elementary change. -/
inductive Move (T : Terms) : World → World → Prop
  | quiet {w w' : World} (h : Untouched w w') : Move T w w'
  | plan {w : World} {plan : BranchPlan}
      (h : (∃ u source afterTurnId title key,
          forkConversationPlan w.db u source afterTurnId title key = .ok (.plan plan)) ∨
        ∃ u source turnId title key,
          branchForEditPlan w.db u source turnId title key = .ok (.plan plan)) :
      Move T w { w with plans := w.plans ++ [plan] }
  | converse {w : World} (u : UserId) (title : Option Text) (agentArch agentVersion : Text)
      (strict : Bool) (now : Instant) :
      Move T w { w with
        db := createConversation now w.nextId u title agentArch agentVersion strict w.db
        nextId := w.nextId + 1 }
  | abandon {w : World} (u : UserId) (tid : Id) (now : Instant) :
      Move T w { w with db := (w.db.failRunning u tid now).releaseTurn u tid }
  | evict {w : World} {u : UserId} {cid : Id} {l : Lease} (now : Instant)
      (hl : w.db.leaseOf u cid = some l) :
      Move T w { w with db := (w.db.failRunning u l.turnId now).releaseConversation u cid }
  | start {w : World} (p : Process) (a : StartArgs) (now : Instant) (cid : Id) (created : Bool)
      (hcreated : created = true → cid = w.nextId + 1)
      (hexists : created = false → (w.db.conversationOf a.userId cid).isSome)
      (hfree : w.db.leaseOf a.userId cid = none)
      (hnamed : ∀ t, getRequestTurn w.db a.userId a.key = some t →
        t.status = .failed ∧ neverDelivered w.db a.userId t = true)
      (hkey : Text.strip a.requestId ≠ [])
      (hticks : T.ticks → ∀ t ∈ w.db.turns, t.startedAt < now) :
      Move T w (w.beginTurn p a now cid created)
  | finish {w : World} {now : Instant} {u : UserId} {tid : Id} {f : FinalizeArgs} {turn : Turn}
      {m : Message} {recommendations metadata : Option Json} (hturn : w.db.turnOf u tid = some turn)
      (hrun : turn.status = .running) (hstatus : f.status ≠ .running)
      (hT : f.status = .completed → T.completes tid)
      (hm : m = { assistantMessage turn f recommendations metadata now with
                    id := w.db.nextMessageId }) :
      Move T w { w with
        db := ((w.db.insertMessage m).closeTurn u tid f.status w.db.nextMessageId now).releaseTurn
          u tid
        history := w.history.finish tid f }
  | branch {w : World} {plan : BranchPlan} (hplan : plan ∈ w.plans) (now : Instant) :
      Move T w (w.addPlan plan now)
  | failTurn {w : World} (hT : T.deletes) (now : Instant) (u : UserId) (tid : Id) :
      Move T w { w with db := failTurn now u tid w.db }
  | deleteConversation {w : World} (hT : T.deletes) (u : UserId) (cid : Id) :
      Move T w { w with db := w.db.deleteConversationRows u cid }
  | dropConversations {w : World} (hT : T.deletes) (conversations : List Conversation) :
      Move T w { w with db := { w.db with conversations := conversations } }
  | deleteUser {w : World} (hT : T.deletes) (u : UserId) :
      Move T w { w with db := w.db.deleteUserRows u }
  | erase {w : World} (hT : T.deletes) (u : UserId) (now : Instant) :
      Move T w { w with
        db := w.db.failLeased u ((w.db.leasesOf u).map (·.turnId)) now }

/-- A sequence of moves. -/
def Moves (T : Terms) : World → World → Prop := Relation.ReflTransGen (Move T)

variable {T : Terms}

lemma Move.moves {w w' : World} (h : Move T w w') : Moves T w w' := .single h

/-- What every move preserves, every sequence of moves preserves. -/
lemma Moves.preserve {I : World → Prop} (hmove : ∀ w w', I w → Move T w w' → I w') {w w' : World}
    (h : Moves T w w') (hw : I w) : I w' := by
  induction h with
  | refl => exact hw
  | tail _ hstep ih => exact hmove _ _ ih hstep

/-- Ids are drawn and not given back. -/
lemma Move.nextId_le {w w' : World} (hmove : Move T w w') : w.nextId ≤ w'.nextId := by
  cases hmove with
  | quiet hsame => exact hsame.nextId
  | converse => exact Nat.le_succ _
  | start => exact Nat.le_add_right _ 2
  | branch => exact (Nat.le_add_right _ 1).trans (Nat.le_add_right _ _)
  | _ => exact le_rfl

lemma Untouched.moves {w w' : World} (h : Untouched w w') : Moves T w w' := (Move.quiet h).moves

@[simp] lemma origins_touch (db : Db) (u : UserId) (cid : Id) (now : Instant) :
    (db.touch u cid now).origins = db.origins := by
  simp only [Db.origins, Db.touch, updateWhere, List.map_map]
  refine List.map_congr_left fun c _ => ?_
  by_cases h : c.userId = u ∧ c.id = cid <;> simp [h, Conversation.origin]

@[simp] lemma origins_retitle (db : Db) (u : UserId) (cid : Id) (title : Option Text) :
    (db.retitle u cid title).origins = db.origins := by
  unfold Db.retitle
  split
  · rfl
  · simp only [Db.origins, updateWhere, List.map_map]
    refine List.map_congr_left fun c _ => ?_
    simp only [Function.comp_apply]
    split <;> rfl

/-! ### Start -/

lemma endAbandoned_moves (w : World) (p : Process) (now : Instant) (u : UserId) (t : Turn) :
    Moves T w { w with db := (endAbandoned p now u t w.db).2 } := by
  rcases endAbandoned_snd p now u t w.db with h | ⟨-, h⟩
  · rw [h]
    exact .refl
  · rw [h]
    exact (Move.abandon u t.id now).moves

lemma getRequestTurn_turnOf {u : UserId} {rid : Text} {t : Turn} {db : Db}
    (h : getRequestTurn db u rid = some t) : db.turnOf u t.id = some t := by
  obtain ⟨r, hr, ht⟩ := Option.bind_eq_some_iff.1 h
  rw [Db.turnOf, ← ht]
  refine selectOne_congr fun t' => ?_
  rw [(selectOne_holds hr).1, (selectOne_holds ht).1, and_comm]

lemma getRequestTurn_failRunning {u u' : UserId} {rid : Text} {tid : Id} {now : Instant} {db : Db} :
    getRequestTurn (db.failRunning u tid now) u' rid = (getRequestTurn db u' rid).map fun t =>
      if t.userId = u ∧ t.id = tid ∧ t.status = .running then
        { t with status := .failed, completedAt := some now } else t := by
  simp only [getRequestTurn, Db.failRunning, Option.map_bind]
  congr 1
  funext r
  exact selectOne_updateWhere fun t => Iff.rfl

/-- After an abandoned turn is ended, its request id names the turn as it is now. -/
lemma getRequestTurn_endAbandoned {p : Process} {now : Instant} {u : UserId} {rid : Text}
    {t : Turn} {db : Db} (h : getRequestTurn db u rid = some t) :
    getRequestTurn (endAbandoned p now u t db).2 u rid = some (endAbandoned p now u t db).1 := by
  rcases hend : endAbandoned p now u t db with ⟨t', db'⟩
  unfold endAbandoned at hend
  split at hend
  · dsimp only at hend
    split at hend
    · cases hend
      exact h
    · simp only [Prod.mk.injEq] at hend
      obtain ⟨rfl, rfl⟩ := hend
      have hturns : ∀ db₂ : Db, db₂.turns = (db.failRunning u t.id now).turns →
          db₂.turnRequests = db.turnRequests →
          getRequestTurn db₂ u rid = some ((db₂.turnOf u t.id).getD t) := by
        intro db₂ h₁ h₂
        have hsame : getRequestTurn db₂ u rid
            = getRequestTurn (db.failRunning u t.id now) u rid := by
          simp only [getRequestTurn, h₁, h₂, Db.failRunning]
        rw [getRequestTurn_failRunning, h] at hsame
        have hid := getRequestTurn_turnOf hsame
        have htid : ∀ c : Prop, [Decidable c] →
            (if c then { t with status := .failed, completedAt := some now } else t).id = t.id := by
          intro c _
          split <;> rfl
        rw [htid] at hid
        rw [hsame, hid]
        rfl
      split
      · exact hturns _ rfl rfl
      · exact hturns _ rfl rfl
  · cases hend
    exact h

/-- Two databases agree on turns, messages, leases and conversations. -/
structure SameTurns (db db' : Db) : Prop where
  turns : db'.turns = db.turns
  messages : db'.messages = db.messages
  leases : db'.leases = db.leases
  nextMessageId : db'.nextMessageId = db.nextMessageId

/-- The database of a call in its replay branch, before a request id is released. -/
structure Reopened (w : World) (u : UserId) (db : Db) : Prop where
  moves : ∀ {T : Terms}, Moves T w { w with db := db }
  conversations : db.conversations = w.db.conversations
  starts : ∀ t ∈ db.turns, ∃ t₀ ∈ w.db.turns, t.startedAt = t₀.startedAt

lemma failRunning_starts {db : Db} {u : UserId} {tid : Id} {now : Instant} {t : Turn}
    (ht : t ∈ (db.failRunning u tid now).turns) : ∃ t₀ ∈ db.turns, t.startedAt = t₀.startedAt := by
  rcases mem_updateWhere_cases ht with ⟨hold, -⟩ | ⟨t₀, hold, -, rfl⟩
  · exact ⟨t, hold, rfl⟩
  · exact ⟨t₀, hold, rfl⟩

lemma reopened_endAbandoned (w : World) (p : Process) (now : Instant) (u : UserId) (t : Turn) :
    Reopened w u (endAbandoned p now u t w.db).2 := by
  refine ⟨endAbandoned_moves w p now u t, ?_, ?_⟩
  · rcases endAbandoned_snd p now u t w.db with h | ⟨-, h⟩
    · rw [h]
    · rw [h]
      rfl
  · intro t' ht'
    rcases endAbandoned_snd p now u t w.db with h | ⟨-, h⟩
    · exact ⟨t', h ▸ ht', rfl⟩
    · rw [h] at ht'
      exact failRunning_starts ht'

/-- What the id names after the replay branch, if anything, has failed and was never delivered. -/
lemma replayBranch_reopened {w : World} {p : Process} {now : Instant} {a : StartArgs} {db : Db}
    {cid : Option Id} (h : replayBranch p now a w.db = .ok (.start cid, db)) :
    ∃ db₀, Reopened w a.userId db₀ ∧ (db = db₀ ∨ db = db₀.releaseRequest a.userId a.key) ∧
      ∀ t, getRequestTurn db₀ a.userId a.key = some t →
        t.status = .failed ∧ neverDelivered db₀ a.userId t = true := by
  rcases replayBranch_start h with ⟨hnone, rfl, -⟩ | ⟨named, hnamed, -, hfailed, hnever, rfl⟩
  · exact ⟨w.db, ⟨.refl, rfl, fun t ht => ⟨t, ht, rfl⟩⟩, .inl rfl, by simp [hnone]⟩
  · refine ⟨_, reopened_endAbandoned w p now a.userId named, .inr rfl, ?_⟩
    intro t ht
    rw [getRequestTurn_endAbandoned hnamed] at ht
    rw [← Option.some.inj ht]
    exact ⟨hfailed, hnever⟩

/-- After the eviction the conversation has no lease. -/
lemma evictLease_free {p : Process} {now : Instant} {u : UserId} {cid : Id} {db db' : Db}
    (h : evictLease p now u cid db = .ok db') : db'.leaseOf u cid = none := by
  rcases evictLease_ok h with ⟨hnone, rfl⟩ | ⟨l, -, -, rfl⟩
  · exact hnone
  · rw [Db.leaseOf, selectOne_eq_none]
    intro l' hl'
    exact (mem_deleteWhere.1 hl').2

/-- An eviction keeps what a request id names, if that has failed. -/
lemma getRequestTurn_failRunning_failed {u u' : UserId} {rid : Text} {tid : Id} {now : Instant}
    {db : Db} (h : ∀ t, getRequestTurn db u' rid = some t → t.status = .failed) :
    getRequestTurn (db.failRunning u tid now) u' rid = getRequestTurn db u' rid := by
  rw [getRequestTurn_failRunning]
  cases hnamed : getRequestTurn db u' rid with
  | none => rfl
  | some t => simp [h t hnamed]

/-- An eviction is a move of any database with these turns and leases, and keeps the rest. -/
lemma evictLease_moves {w : World} {p : Process} {now : Instant} {u : UserId} {cid : Id}
    {db db' : Db} (h : evictLease p now u cid db = .ok db') (hsame : SameTurns w.db db) :
    ∃ dbₑ, Moves T w { w with db := dbₑ } ∧ SameTurns dbₑ db' ∧
      dbₑ.turnRequests = w.db.turnRequests ∧ dbₑ.conversations = w.db.conversations ∧
      db'.turnRequests = db.turnRequests ∧ db'.conversations = db.conversations ∧
      (dbₑ = w.db ∨ ∃ tid, dbₑ = (w.db.failRunning u tid now).releaseConversation u cid) := by
  rcases evictLease_ok h with ⟨-, rfl⟩ | ⟨l, hl, -, rfl⟩
  · exact ⟨w.db, .refl, hsame, rfl, rfl, rfl, rfl, .inl rfl⟩
  · have hl' : w.db.leaseOf u cid = some l := by
      rw [Db.leaseOf, ← hsame.leases]
      exact hl
    refine ⟨_, (Move.evict now hl').moves, ⟨?_, hsame.messages, ?_, hsame.nextMessageId⟩, rfl, rfl,
      rfl, rfl, .inr ⟨l.turnId, rfl⟩⟩
    · simp only [Db.failRunning, Db.releaseConversation, hsame.turns]
    · simp only [Db.failRunning, Db.releaseConversation, hsame.leases]

/-- A fresh start, move by move: an abandoned turn of the same request ends, the lease of the
conversation is evicted, and the turn begins. -/
lemma startFresh_moves {w : World} {p : Process} {now : Instant} {a : StartArgs} {cid : Option Id}
    {db₁ db : Db} {s : StartedTurn} (hreplay : replayBranch p now a w.db = .ok (.start cid, db₁))
    (hfresh : startFresh p now w.nextId a cid db₁ = .ok (s, db))
    (hkey : Text.strip a.requestId ≠ [])
    (hticks : T.ticks → ∀ t ∈ w.db.turns, t.startedAt < now) :
    Moves T w { w with
      db := db
      nextId := w.nextId + 2
      history := { w.history with started := w.history.started ++ [a.record w.nextId] } } := by
  obtain ⟨cid', db₂, db₃, hresolve, hevict, hnew, -, rfl⟩ := startFresh_ok hfresh
  obtain ⟨db₀, hreopened, hrelease, hnamed⟩ := replayBranch_reopened hreplay
  have hconv₁ : db₁.conversations = db₀.conversations := by
    rcases hrelease with rfl | rfl <;> rfl
  have hresolved : SameTurns db₁ db₂ ∧ db₂.turnRequests = db₁.turnRequests := by
    rcases resolveConversation_ok hresolve with ⟨-, -, rfl⟩ | ⟨-, -, rfl⟩
    · exact ⟨⟨rfl, rfl, rfl, rfl⟩, rfl⟩
    · exact ⟨⟨rfl, rfl, rfl, rfl⟩, rfl⟩
  have hsame : SameTurns db₀ db₂ := by
    rcases hrelease with rfl | rfl
    · exact hresolved.1
    · exact ⟨hresolved.1.turns, hresolved.1.messages, hresolved.1.leases,
        hresolved.1.nextMessageId⟩
  obtain ⟨dbₑ, hevicted, hsameₑ, hreqₑ, hconvₑ, hreq₃, hconv₃, hshape⟩ :=
    evictLease_moves (w := { w with db := db₀ }) hevict hsame
  have hfree : dbₑ.leaseOf a.userId cid' = none := by
    rw [Db.leaseOf, ← hsameₑ.leases]
    exact evictLease_free hevict
  have hnamedₑ : ∀ t, getRequestTurn dbₑ a.userId a.key = some t →
      t.status = .failed ∧ neverDelivered dbₑ a.userId t = true := by
    rcases hshape with rfl | ⟨tid, rfl⟩
    · exact hnamed
    · intro t ht
      have heq : getRequestTurn (db₀.failRunning a.userId tid now) a.userId a.key
          = getRequestTurn db₀ a.userId a.key :=
        getRequestTurn_failRunning_failed fun t ht => (hnamed t ht).1
      exact hnamed t (heq.symm.trans ht)
  -- the id is free in the database the row is inserted into
  have hreq : db₃.turnRequests = (dbₑ.releaseRequest a.userId a.key).turnRequests := by
    rcases hrelease with rfl | rfl
    · simp only [Db.releaseRequest]
      rw [hreqₑ, deleteWhere_eq_self, hreq₃, hresolved.2]
      intro r hr
      rw [hreq₃, hresolved.2] at hnew
      exact hnew r hr
    · rw [hreq₃, hresolved.2]
      simp only [Db.releaseRequest, hreqₑ]
  have hticksₑ : T.ticks → ∀ t ∈ dbₑ.turns, t.startedAt < now := by
    intro hT t ht
    have hback : ∃ t₀ ∈ db₀.turns, t.startedAt = t₀.startedAt := by
      rcases hshape with rfl | ⟨tid, rfl⟩
      · exact ⟨t, ht, rfl⟩
      · exact failRunning_starts ht
    obtain ⟨t₀, ht₀, he₀⟩ := hback
    obtain ⟨t₁, ht₁, he₁⟩ := hreopened.starts t₀ ht₀
    rw [he₀, he₁]
    exact hticks hT t₁ ht₁
  have hcreated : cid.isNone = true → cid' = w.nextId + 1 := by
    rcases resolveConversation_ok hresolve with ⟨rfl, -, -⟩ | ⟨-, h, -⟩
    · simp
    · exact fun _ => h
  have hexists : cid.isNone = false → (dbₑ.conversationOf a.userId cid').isSome := by
    have hconv : dbₑ.conversations = db₁.conversations := hconvₑ.trans hconv₁.symm
    rw [Db.conversationOf, hconv]
    rcases resolveConversation_ok hresolve with ⟨-, h, -⟩ | ⟨rfl, -, -⟩
    · exact fun _ => h
    · simp
  refine (hreopened.moves.trans hevicted).trans ?_
  refine (Move.start (w := { w with db := dbₑ }) p a now cid' cid.isNone hcreated hexists hfree hnamedₑ hkey
    hticksₑ).moves.trans (Untouched.moves ?_)
  have horigins : db₃.origins = (if cid.isNone then dbₑ.insertConversation (rootConversation a.userId
      a.createTitle a.agentArch a.agentVersion a.strict cid' now) else dbₑ).origins := by
    rcases resolveConversation_ok hresolve with ⟨rfl, -, rfl⟩ | ⟨rfl, rfl, rfl⟩
    · simp [Db.origins, hconv₃, hconv₁, hconvₑ]
    · simp [Db.origins, Db.insertConversation, hconv₃, hconv₁, hconvₑ]
  have hinserted : ((db₃.retitle a.userId cid' a.createTitle).insertTurn p a now w.nextId
      cid').origins = db₃.origins := origins_retitle db₃ a.userId cid' a.createTitle
  constructor
  case origins =>
    rw [origins_touch, hinserted, horigins]
    rfl
  case plans => exact fun plan hplan => hplan
  all_goals
    cases cid.isNone <;>
    simp [World.beginTurn, Db.touch, freshTurn, Db.insertTurn, Db.insertMessage,
      Db.insertConversation, hreq, hsameₑ.turns, hsameₑ.messages, hsameₑ.leases,
      hsameₑ.nextMessageId, Db.releaseRequest]

theorem start_moves {w : World} {p : Process} {now : Instant} {a : StartArgs}
    (hticks : T.ticks → ∀ t ∈ w.db.turns, t.startedAt < now) : Moves T w (w.start p now a) := by
  rcases startRequestTurn_cases p now w.nextId a w.db with
    ⟨e, h⟩ | ⟨t, db, h, -, hreplay⟩ | ⟨cid, db₁, s, db, h, -, hreplay, hfresh⟩
  · refine Untouched.moves ?_
    constructor <;> simp [World.start, h]
  · obtain ⟨named, -, -, hdb, -⟩ := replayBranch_replayed hreplay
    have hdb' : db = (endAbandoned p now a.userId named w.db).2 := by rw [← hdb]
    refine (hdb' ▸ endAbandoned_moves w p now a.userId named).trans (Untouched.moves ?_)
    constructor <;> simp [World.start, h]
  · have hkey : Text.strip a.requestId ≠ [] := by
      intro hempty
      simp [startRequestTurn, hempty] at h
    have hfinal : w.start p now a = { w with
        db := db
        nextId := w.nextId + 2
        history := { w.history with started := w.history.started ++ [a.record w.nextId] } } := by
      obtain ⟨cid', db₂, db₃, -, -, -, rfl, -⟩ := startFresh_ok hfresh
      simp only [World.start, h]
      rfl
    rw [hfinal]
    exact startFresh_moves hreplay hfresh hkey hticks

/-- A fresh start draws the next id for its turn, which runs. -/
lemma start_fresh {w : World} {p : Process} {now : Instant} {a : StartArgs} {s : StartedTurn}
    {db : Db} (h : startRequestTurn p now w.nextId a w.db = (.ok s, db))
    (hs : s.replayed = false) :
    (w.start p now a).db = db ∧
      (w.start p now a).history = { w.history with
        started := w.history.started ++ [a.record w.nextId] } ∧
      s.turn ∈ db.turns ∧ s.turn.id = w.nextId ∧ s.turn.userId = a.userId ∧
      s.turn.status = .running := by
  rcases startRequestTurn_cases p now w.nextId a w.db with
    ⟨e, h'⟩ | ⟨t, db', h', -⟩ | ⟨cid, db₁, s', db', h', -, -, hfresh⟩
  · rw [h] at h'
    cases h'
  · rw [h] at h'
    cases h'
    cases hs
  · rw [h] at h'
    cases h'
    obtain ⟨cid', db₂, db₃, -, -, -, rfl, rfl⟩ := startFresh_ok hfresh
    simp only [World.start, h]
    refine ⟨trivial, rfl, List.mem_append_right _ ?_, rfl, rfl, rfl⟩
    rw [Db.retitle_nextMessageId]
    exact List.mem_singleton_self _

/-! ### Finish, fail, delete, erase -/

theorem finalize_moves (w : World) (now : Instant) (u : UserId) {tid : Id} {f : FinalizeArgs}
    (hT : f.status = .completed → T.completes tid) : Moves T w (w.finalize now u tid f) := by
  rcases finalizeRequestTurn_cases now u tid f w.db with
    ⟨e, h⟩ | ⟨turn, hturn, hclosed, h⟩ | ⟨turn, m, db, hfin, h⟩
  · refine Untouched.moves ?_
    constructor <;> simp [World.finalize, World.closes, h, Except.isOk, Except.toBool]
  · refine Untouched.moves ?_
    constructor <;> simp [World.finalize, World.closes, h, hturn, hclosed]
  · obtain ⟨recommendations, metadata, hm⟩ := hfin.message
    obtain ⟨db₃, hpersist, rfl⟩ := hfin.persisted
    obtain ⟨snapshots, jobs, next, rfl⟩ := persistCompletion_ok hpersist
    refine (Move.finish hfin.named hfin.running hfin.status hT hm).moves.trans (Untouched.moves ?_)
    have hfinal : (w.finalize now u tid f).history = w.history.finish tid f := by
      simp [World.finalize, World.closes, h, hfin.named, hfin.running, History.finish,
        Except.isOk, Except.toBool]
    constructor
    case origins =>
      simp only [World.finalize, h]
      exact origins_touch _ u turn.conversationId now
    case plans => exact fun plan hplan => hplan
    case nextId => exact le_rfl
    case started => rw [hfinal]
    case completed => rw [hfinal]
    case delivered => rw [hfinal]
    case copies => rw [hfinal]
    all_goals simp only [World.finalize, h]; rfl

lemma clearConversation_moves (hT : T.deletes) (w : World) (p : Process) (now : Instant)
    (u : UserId) (cid : Id) :
    Moves T w { w with db := (clearConversationMessages p now u cid w.db).2 } := by
  rcases clearConversationMessages_snd p now u cid w.db with h | ⟨-, h⟩
  · rw [h]
    exact .refl
  · rw [h]
    refine (Move.deleteConversation hT u cid).moves.trans (Untouched.moves ?_)
    constructor
    case origins => exact origins_touch _ u cid now
    case plans => exact fun plan hplan => hplan
    case nextId => exact le_rfl
    all_goals rfl

lemma deleteConversation_moves (hT : T.deletes) (w : World) (p : Process) (now : Instant)
    (u : UserId) (cid : Id) :
    Moves T w { w with db := (deleteConversation p now u cid w.db).2 } := by
  rcases deleteConversation_snd p now u cid w.db with h | ⟨-, h⟩
  · rw [h]
    exact .refl
  · rw [h]
    exact (Move.dropConversations hT _).moves.trans (Move.deleteConversation hT u cid).moves

lemma deleteAllUserData_moves (hT : T.deletes) (w : World) (u : UserId) :
    Moves T w { w with db := (deleteAllUserData u w.db).2 } := by
  rcases deleteAllUserData_snd u w.db with h | h
  · rw [h]
    exact .refl
  · rw [h]
    exact (Move.deleteUser hT u).moves

theorem beginPrivacyErasure_moves (hT : T.deletes) (w : World) (p : Process) (now : Instant)
    (u : UserId) : Moves T w { w with db := (beginPrivacyErasure p now u w.db).2 } := by
  rcases beginPrivacyErasure_cases p now u w.db with ⟨e, h⟩ | ⟨db₁, -, hfail, -, h⟩
  · rw [h]
    exact .refl
  · obtain ⟨-, rfl⟩ := failLeaseTurns_ok hfail
    rw [h]
    refine (Move.erase hT u now).moves.trans (Untouched.moves ?_)
    exact ⟨rfl, rfl, rfl, rfl, rfl, rfl, le_rfl, rfl, rfl, rfl, rfl, fun plan hplan => hplan⟩

/-! ### Branches -/

lemma copySnapshot_fields (now : Instant) (u : UserId) (child : Id) (db : Db) (tt : Id × Id) :
    ∃ snapshots, copySnapshot now u child db tt = { db with snapshots := snapshots } := by
  unfold copySnapshot
  split
  · exact ⟨db.snapshots, rfl⟩
  · exact ⟨_, rfl⟩

lemma foldl_copySnapshot_fields (now : Instant) (u : UserId) (child : Id) (tts : List (Id × Id))
    (db : Db) :
    ∃ snapshots, tts.foldl (copySnapshot now u child) db = { db with snapshots := snapshots } := by
  induction tts generalizing db with
  | nil => exact ⟨db.snapshots, rfl⟩
  | cons tt tts ih =>
    obtain ⟨_, h₁⟩ := copySnapshot_fields now u child db tt
    obtain ⟨snapshots, h₂⟩ := ih (copySnapshot now u child db tt)
    refine ⟨snapshots, ?_⟩
    rw [List.foldl_cons, h₂, h₁]

/-- A materialised branch adds the copies, and the snapshots of the copies. -/
lemma materializeBranch_ok {now : Instant} {fresh : Id} {u : UserId} {source child : Id}
    {srcTurns : List Turn} {cutoff : Option Nat} {db db' : Db}
    (h : materializeBranch now fresh u source child srcTurns cutoff db = .ok db') :
    ∃ snapshots, db' = { db.addBranch fresh u source child srcTurns cutoff with
      snapshots := snapshots } := by
  unfold materializeBranch at h
  dsimp only at h
  split at h
  · cases h
  · cases h
    exact foldl_copySnapshot_fields now u child _ _

lemma commitBranch_cases (now : Instant) (fresh : Id) (plan : BranchPlan) (db : Db) :
    (∃ e, commitBranch now fresh plan db = (.error e, db)) ∨
    ∃ db₂, materializeBranch now (fresh + 1) plan.userId plan.source.id fresh
        (plan.srcTurns (db.insertConversation (plan.child fresh now))) plan.cutoff
        (db.insertConversation (plan.child fresh now)) = .ok db₂ ∧
      commitBranch now fresh plan db
        = (.ok (plan.child fresh now), db₂.recordForkRequest plan fresh now) := by
  unfold commitBranch branchBody
  simp only [bind, Except.bind, pure, Except.pure]
  split
  · exact .inl ⟨_, rfl⟩
  · next db₂ hdb₂ => exact .inr ⟨db₂, hdb₂, rfl⟩

lemma recordForkRequest_fields (db : Db) (plan : BranchPlan) (child : Id) (now : Instant) :
    ∃ rows, db.recordForkRequest plan child now = { db with forkRequests := rows } := by
  unfold Db.recordForkRequest
  split
  · exact ⟨db.forkRequests, rfl⟩
  · exact ⟨db.forkRequests, rfl⟩
  · exact ⟨_, rfl⟩

theorem commit_moves (w : World) (now : Instant) (i : Nat) : Moves T w (w.commit now i) := by
  unfold World.commit
  split
  · exact .refl
  · next plan hplan =>
    rcases commitBranch_cases now w.nextId plan w.db with ⟨e, h⟩ | ⟨db₂, hmat, h⟩
    · refine Untouched.moves ?_
      simp only [h]
      constructor
      case nextId => exact (Nat.le_add_right _ 1).trans (Nat.le_add_right _ _)
      case copies => exact List.append_nil _
      case plans => exact fun plan hplan => List.mem_of_mem_eraseIdx hplan
      all_goals rfl
    · refine (Move.branch (List.mem_of_getElem? hplan) now).moves.trans (Untouched.moves ?_)
      simp only [h]
      obtain ⟨snapshots, rfl⟩ := materializeBranch_ok hmat
      obtain ⟨rows, hrows⟩ := recordForkRequest_fields
        { (w.db.insertConversation (plan.child w.nextId now)).addBranch (w.nextId + 1) plan.userId
            plan.source.id w.nextId
            (plan.srcTurns (w.db.insertConversation (plan.child w.nextId now))) plan.cutoff with
          snapshots := snapshots } plan w.nextId now
      rw [hrows]
      exact ⟨rfl, rfl, rfl, rfl, rfl, rfl, le_rfl, rfl, rfl, rfl, rfl,
        fun plan hplan => List.mem_of_mem_eraseIdx hplan⟩

lemma plan_moves {w : World} {r : Except StoreError BranchRead}
    (hr : ∀ plan, r = .ok (.plan plan) →
      (∃ u source afterTurnId title key,
        forkConversationPlan w.db u source afterTurnId title key = .ok (.plan plan)) ∨
      ∃ u source turnId title key,
        branchForEditPlan w.db u source turnId title key = .ok (.plan plan)) :
    Moves T w (w.plan r) := by
  unfold World.plan
  split
  · next plan => exact (Move.plan (hr plan rfl)).moves
  · exact .refl

/-! ### Every action -/

/-- An action keeps to the terms. -/
def World.Meets (T : Terms) (w : World) : Action → Prop
  | .startRequestTurn _ now _ => T.ticks → ∀ t ∈ w.db.turns, t.startedAt < now
  | .finalizeRequestTurn _ _ tid f => f.status = .completed → T.completes tid
  | .failTurn .. | .clearConversation .. | .deleteConversation .. | .beginPrivacyErasure ..
  | .deleteAllUserData .. => T.deletes
  | _ => True

lemma World.meets_any (w : World) (a : Action) : w.Meets .any a := by
  cases a <;> simp [World.Meets, Terms.any]

/-- A change of the outbox, the owners, the barriers and the orphans only. -/
lemma Untouched.aside {w : World} {db : Db} {orphans : List Orphan} {retries : List RetryRead}
    {claims : List Nat} (ht : db.turns = w.db.turns) (hm : db.messages = w.db.messages)
    (hl : db.leases = w.db.leases) (hr : db.turnRequests = w.db.turnRequests)
    (hk : db.nextMessageId = w.db.nextMessageId) (ho : db.origins = w.db.origins) :
    Moves T w { w with
      db := db
      orphans := orphans
      retries := retries
      history := { w.history with claims := claims } } :=
  Untouched.moves ⟨ht, hm, hl, hr, hk, ho, le_rfl, rfl, rfl, rfl, rfl, fun _ hplan => hplan⟩

/-- Every action is a sequence of moves. -/
theorem act_moves {w : World} {a : Action} (ha : w.Meets T a) : Moves T w (w.act a) := by
  cases a with
  | startRequestTurn p now a => exact start_moves ha
  | finalizeRequestTurn now u tid f => exact finalize_moves w now u ha
  | failTurn now u tid => exact (Move.failTurn ha now u tid).moves
  | scanOrphans p now => exact Untouched.aside rfl rfl rfl rfl rfl rfl
  | closeOrphan now i =>
    simp only [World.act]
    split
    · exact .refl
    · next o _ =>
      have h : Moves T w { w with orphans := w.orphans.eraseIdx i } :=
        Untouched.aside rfl rfl rfl rfl rfl rfl
      exact h.trans (finalize_moves _ now o.userId fun hstatus => by cases hstatus)
  | createConversation now u title agentArch agentVersion strict =>
    exact (Move.converse u title agentArch agentVersion strict now).moves
  | planFork u source afterTurnId title key =>
    exact plan_moves fun plan h => .inl ⟨u, source, afterTurnId, title, key, h⟩
  | planEdit u source turnId title key =>
    exact plan_moves fun plan h => .inr ⟨u, source, turnId, title, key, h⟩
  | commitBranch now i => exact commit_moves w now i
  | clearConversation p now u cid => exact clearConversation_moves ha w p now u cid
  | deleteConversation p now u cid => exact deleteConversation_moves ha w p now u cid
  | beginPrivacyErasure p now u => exact beginPrivacyErasure_moves ha w p now u
  | deleteAllUserData u => exact deleteAllUserData_moves ha w u
  | endPrivacyErasure u => exact Untouched.aside rfl rfl rfl rfl rfl rfl
  | claimJob worker now leaseSeconds =>
    simp only [World.act]
    split
    · exact .refl
    · refine Untouched.aside ?_ ?_ ?_ ?_ ?_ ?_ <;> simp only [claimBackgroundJob] <;> split <;> rfl
  | saveJobResult worker id now result =>
    refine Untouched.aside ?_ ?_ ?_ ?_ ?_ ?_ <;> simp only [saveBackgroundJobResult] <;> split <;>
      rfl
  | completeJob worker id now =>
    refine Untouched.aside ?_ ?_ ?_ ?_ ?_ ?_ <;> simp only [completeBackgroundJob] <;> split <;> rfl
  | readRetry worker id => exact Untouched.aside rfl rfl rfl rfl rfl rfl
  | writeRetry i error maxAttempts now =>
    simp only [World.act]
    split
    · exact .refl
    · exact Untouched.aside rfl rfl rfl rfl rfl rfl
  | patchSummary now u cid summary through =>
    obtain ⟨snapshots, h⟩ := patchLatestSnapshotSummary_fields now u cid summary through w.db
    simp only [World.act, h]
    exact Untouched.aside rfl rfl rfl rfl rfl rfl
  | owners rows => exact Untouched.aside rfl rfl rfl rfl rfl rfl

end RentCompass.Store
