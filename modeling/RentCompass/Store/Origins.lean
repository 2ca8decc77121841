import RentCompass.Store.SingleFlight
import RentCompass.Store.JobMoves

/-!
# Where rows come from

What an action can add to the tables: the conversations it adds have ids that it draws, and only the
calls that branch record keys.
-/

namespace RentCompass.Store

open Rows

lemma act_nextId_le (w : World) (a : Action) : w.nextId ≤ (w.act a).nextId :=
  Moves.preserve (I := fun w₁ => w.nextId ≤ w₁.nextId)
    (fun _ _ h hmove => h.trans hmove.nextId_le) (act_moves (w.meets_any a)) le_rfl

/-! ### Conversations -/

/-- Where nothing is deleted, the conversations that are added have ids drawn in the move. -/
lemma Move.origins_new {T : Terms} (hT : ¬ T.deletes) {w w' : World} (hmove : Move T w w') :
    ∀ o ∈ w'.db.origins, o ∈ w.db.origins ∨ w.nextId ≤ o.id ∧ o.id < w'.nextId := by
  cases hmove with
  | quiet hsame =>
    rw [hsame.origins]
    exact fun o ho => .inl ho
  | plan => exact fun o ho => .inl ho
  | converse u title agentArch agentVersion strict now =>
    intro o ho
    have ho' : o ∈ w.db.origins ++ [(rootConversation u title agentArch agentVersion strict
        w.nextId now).origin] := by
      simpa [Db.origins, createConversation, Db.insertConversation] using ho
    rcases List.mem_append.1 ho' with ho | ho
    · exact .inl ho
    · rw [List.mem_singleton.1 ho]
      exact .inr ⟨le_rfl, Nat.lt_succ_self _⟩
  | abandon => exact fun o ho => .inl ho
  | evict => exact fun o ho => .inl ho
  | start p a now cid created hcreated hexists hfree hnamed hkey hticks =>
    cases created with
    | false => exact fun o ho => .inl ho
    | true =>
      intro o ho
      have ho' : o ∈ w.db.origins ++ [(rootConversation a.userId a.createTitle a.agentArch
          a.agentVersion a.strict cid now).origin] := by
        simpa [World.beginTurn, Db.origins, Db.insertTurn, Db.insertMessage, Db.releaseRequest,
          Db.insertConversation] using ho
      rcases List.mem_append.1 ho' with ho | ho
      · exact .inl ho
      · rw [List.mem_singleton.1 ho]
        have hcid : (rootConversation a.userId a.createTitle a.agentArch a.agentVersion a.strict cid
            now).origin.id = w.nextId + 1 := hcreated rfl
        rw [hcid]
        exact .inr ⟨Nat.le_succ _, Nat.lt_succ_self _⟩
  | finish => exact fun o ho => .inl ho
  | @branch plan hplan now =>
    intro o ho
    have ho' : o ∈ w.db.origins ++ [(plan.child w.nextId now).origin] := by
      simpa [World.addPlan, Db.origins, Db.addBranch, Db.insertConversation] using ho
    rcases List.mem_append.1 ho' with ho | ho
    · exact .inl ho
    · rw [List.mem_singleton.1 ho]
      exact .inr ⟨le_rfl, lt_of_lt_of_le (Nat.lt_succ_self _) (Nat.le_add_right _ _)⟩
  | failTurn h => exact absurd h hT
  | deleteConversation h => exact absurd h hT
  | dropConversations h => exact absurd h hT
  | deleteUser h => exact absurd h hT
  | erase h => exact absurd h hT

/-- The conversations an action adds have ids drawn in it. -/
lemma act_origins_new (w : World) (a : Action) : ∀ o ∈ (w.act a).db.origins,
    o ∈ w.db.origins ∨ w.nextId ≤ o.id ∧ o.id < (w.act a).nextId := by
  have hmoves : w.Meets ⟨False, False, fun _ => True⟩ a → ∀ o ∈ (w.act a).db.origins,
      o ∈ w.db.origins ∨ w.nextId ≤ o.id ∧ o.id < (w.act a).nextId := by
    intro h
    refine (Moves.preserve (I := fun w₁ => w.nextId ≤ w₁.nextId ∧ ∀ o ∈ w₁.db.origins,
        o ∈ w.db.origins ∨ w.nextId ≤ o.id ∧ o.id < w₁.nextId)
      (fun w₁ w₂ h₁ hmove => ⟨h₁.1.trans hmove.nextId_le, fun o ho => ?_⟩) (act_moves h)
      ⟨le_rfl, fun o ho => .inl ho⟩).2
    rcases hmove.origins_new not_false o ho with hold | ⟨hge, hlt⟩
    · rcases h₁.2 o hold with hold | ⟨hge, hlt⟩
      · exact .inl hold
      · exact .inr ⟨hge, lt_of_lt_of_le hlt hmove.nextId_le⟩
    · exact .inr ⟨h₁.1.trans hge, hlt⟩
  have hdeleted : ∀ {p : Conversation → Prop} [DecidablePred p] {o : Origin},
      o ∈ (deleteWhere p w.db.conversations).map Conversation.origin → o ∈ w.db.origins := by
    intro p _ o ho
    obtain ⟨c, hc, rfl⟩ := List.mem_map.1 ho
    exact List.mem_map_of_mem (mem_of_mem_deleteWhere hc)
  cases a with
  | startRequestTurn => exact hmoves fun h => h.elim
  | finalizeRequestTurn => exact hmoves fun _ => trivial
  | failTurn => exact fun o ho => .inl ho
  | clearConversation p now u cid =>
    rcases clearConversationMessages_snd p now u cid w.db with h | ⟨-, h⟩
    · simp only [World.act, h]
      exact fun o ho => .inl ho
    · simp only [World.act, h, origins_touch]
      exact fun o ho => .inl ho
  | deleteConversation p now u cid =>
    rcases deleteConversation_snd p now u cid w.db with h | ⟨-, h⟩
    · simp only [World.act, h]
      exact fun o ho => .inl ho
    · simp only [World.act, h]
      exact fun o ho => .inl (hdeleted ho)
  | deleteAllUserData u =>
    rcases deleteAllUserData_snd u w.db with h | h
    · simp only [World.act, h]
      exact fun o ho => .inl ho
    · simp only [World.act, h]
      exact fun o ho => .inl (hdeleted ho)
  | beginPrivacyErasure p now u =>
    rcases beginPrivacyErasure_cases p now u w.db with ⟨e, h⟩ | ⟨db₁, -, hfail, -, h⟩
    · simp only [World.act, h]
      exact fun o ho => .inl ho
    · obtain ⟨-, rfl⟩ := failLeaseTurns_ok hfail
      simp only [World.act, h]
      exact fun o ho => .inl ho
  | _ => exact hmoves trivial

/-! ### Recorded keys -/

lemma startRequestTurn_forkRequests (p : Process) (now : Instant) (fresh : Id) (a : StartArgs)
    (db : Db) : (startRequestTurn p now fresh a db).2.forkRequests = db.forkRequests := by
  have hend : ∀ t, (endAbandoned p now a.userId t db).2.forkRequests = db.forkRequests := by
    intro t
    rcases endAbandoned_snd p now a.userId t db with h | ⟨-, h⟩
    · rw [h]
    · rw [h]
      rfl
  rcases startRequestTurn_cases p now fresh a db with
    ⟨e, h⟩ | ⟨t, db', h, -, hreplay⟩ | ⟨cid, db₁, s, db', h, -, hreplay, hfresh⟩
  · rw [h]
  · rw [h]
    obtain ⟨named, -, -, hdb, -⟩ := replayBranch_replayed hreplay
    have hdb' : db' = (endAbandoned p now a.userId named db).2 := by rw [← hdb]
    rw [hdb']
    exact hend named
  · rw [h]
    have h₁ : db₁.forkRequests = db.forkRequests := by
      rcases replayBranch_start hreplay with ⟨-, rfl, -⟩ | ⟨named, -, -, -, -, rfl⟩
      · rfl
      · exact hend named
    obtain ⟨cid', db₂, db₃, hresolve, hevict, -, -, rfl⟩ := startFresh_ok hfresh
    have h₂ : db₂.forkRequests = db₁.forkRequests := by
      rcases resolveConversation_ok hresolve with ⟨-, -, rfl⟩ | ⟨-, -, rfl⟩ <;> rfl
    have h₃ : db₃.forkRequests = db₂.forkRequests := by
      rcases evictLease_ok hevict with ⟨-, rfl⟩ | ⟨l, -, -, rfl⟩ <;> rfl
    have h₄ : (db₃.retitle a.userId cid' a.createTitle).forkRequests = db₃.forkRequests := by
      unfold Db.retitle
      split <;> rfl
    exact h₄.trans (h₃.trans (h₂.trans h₁))

lemma finalize_forkRequests (w : World) (now : Instant) (u : UserId) (tid : Id) (f : FinalizeArgs) :
    (w.finalize now u tid f).db.forkRequests = w.db.forkRequests := by
  rcases finalizeRequestTurn_cases now u tid f w.db with
    ⟨e, h⟩ | ⟨turn, -, -, h⟩ | ⟨turn, m, db, hfin, h⟩
  · simp only [World.finalize, h]
  · simp only [World.finalize, h]
  · obtain ⟨db₃, hpersist, rfl⟩ := hfin.persisted
    obtain ⟨snapshots, jobs, next, rfl⟩ := persistCompletion_ok hpersist
    simp only [World.finalize, h]
    rfl

/-- Whether an action is one of the branch calls. -/
def Action.branches : Action → Bool
  | .planFork .. | .planEdit .. | .commitBranch .. => true
  | _ => false

/-- Only branch calls record keys; only the erasure of a user, who is left without conversations,
deletes them. -/
lemma act_forkRequests {w : World} {a : Action} (ha : a.branches = false) :
    (w.act a).db.forkRequests = w.db.forkRequests ∨
      ∃ u, (w.act a).db.forkRequests
          = deleteWhere (fun r : ForkRequest => r.userId = u) w.db.forkRequests ∧
        ∀ o ∈ (w.act a).db.origins, o.userId ≠ u := by
  cases a with
  | planFork => cases ha
  | planEdit => cases ha
  | commitBranch => cases ha
  | startRequestTurn p now args =>
    exact .inl (startRequestTurn_forkRequests p now w.nextId args w.db)
  | finalizeRequestTurn now u tid f => exact .inl (finalize_forkRequests w now u tid f)
  | closeOrphan now i =>
    simp only [World.act]
    split
    · exact .inl rfl
    · next o _ => exact .inl (finalize_forkRequests _ now o.userId o.turnId _)
  | clearConversation p now u cid =>
    rcases clearConversationMessages_snd p now u cid w.db with h | ⟨-, h⟩
    · simp only [World.act, h, true_or]
    · simp only [World.act, h]
      exact .inl rfl
  | deleteConversation p now u cid =>
    rcases deleteConversation_snd p now u cid w.db with h | ⟨-, h⟩
    · simp only [World.act, h, true_or]
    · simp only [World.act, h]
      exact .inl rfl
  | beginPrivacyErasure p now u =>
    rcases beginPrivacyErasure_cases p now u w.db with ⟨e, h⟩ | ⟨db₁, -, hfail, -, h⟩
    · simp only [World.act, h, true_or]
    · obtain ⟨-, rfl⟩ := failLeaseTurns_ok hfail
      simp only [World.act, h, true_or]
  | deleteAllUserData u =>
    rcases deleteAllUserData_snd u w.db with h | h
    · simp only [World.act, h, true_or]
    · simp only [World.act, h]
      refine .inr ⟨u, rfl, fun o ho => ?_⟩
      obtain ⟨c, hc, rfl⟩ := List.mem_map.1 ho
      exact (mem_deleteWhere.1 hc).2
  | claimJob worker now leaseSeconds =>
    simp only [World.act]
    split
    · exact .inl rfl
    · simp only [claimBackgroundJob]
      split <;> exact .inl rfl
  | saveJobResult worker id now result =>
    simp only [World.act, saveBackgroundJobResult]
    split <;> exact .inl rfl
  | completeJob worker id now =>
    simp only [World.act, completeBackgroundJob]
    split <;> exact .inl rfl
  | writeRetry i error maxAttempts now =>
    simp only [World.act]
    split
    · exact .inl rfl
    · exact .inl rfl
  | patchSummary now u cid summary through =>
    obtain ⟨snapshots, h⟩ := patchLatestSnapshotSummary_fields now u cid summary through w.db
    simp only [World.act, h, true_or]
  | _ => exact .inl rfl

end RentCompass.Store
