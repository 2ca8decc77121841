import RentCompass.Store.Moves

/-!
# What an action does to the jobs

The outbox is changed by eight statements. A `JobMove` is one of them, under a policy that says
who may claim, which jobs may go back to pending without a report, and which status a report may
give; `act_jobMoves` says that an action which respects the policy is a sequence of such moves.
-/

namespace RentCompass.Store

open Rows

/-- What is asked of the workers and of the moments they are interrupted at, and the turns that may
leave jobs. -/
structure Policy where
  claims : Text → Prop
  requeues : Job → Prop
  reports : Job → JobStatus → Prop
  enqueues : UserId → Id → Prop

/-- The policy that allows everything. -/
def Policy.any : Policy := ⟨fun _ => True, fun _ => True, fun _ _ => True, fun _ _ => True⟩

/-- One change of the outbox. -/
inductive JobMove (P : Policy) : World → World → Prop
  | quiet {w w' : World} (hj : w'.db.jobs = w.db.jobs) (hk : w'.db.nextJobId = w.db.nextJobId)
      (he : ∀ u, w'.db.erasing u = true → w.db.erasing u = true)
      (hc : w'.history.claims = w.history.claims) : JobMove P w w'
  | enqueue {w : World} (u : UserId) (cid tid : Id) (kind dedupeKey : Text) (payload : Json)
      (now : Instant) (hE : P.enqueues u tid) :
      JobMove P w { w with db := w.db.enqueue u cid tid kind dedupeKey payload now }
  | delete {w w' : World} (c : UserId → Id → Prop) [∀ u cid, Decidable (c u cid)]
      (hj : w'.db.jobs = deleteWhere (fun j => c j.userId j.conversationId) w.db.jobs)
      (hk : w'.db.nextJobId = w.db.nextJobId) (he : w'.db.erasureLocks = w.db.erasureLocks)
      (hc : w'.history.claims = w.history.claims) : JobMove P w w'
  | sweep {w : World} (now : Instant) (hC : ∀ j ∈ w.db.jobs, j.expired now = true → P.requeues j) :
      JobMove P w { w with db := w.db.sweepExpired now }
  | claim {w : World} {row : Job} (worker : Text) (now : Instant) (leaseSeconds : Int)
      (hworker : P.claims worker) (hrow : row ∈ w.db.jobs) (hready : w.db.claimable now row) :
      JobMove P w { w with
        db := w.db.updateJobs (fun j => j.id = row.id ∧ j.status = .pending)
          (·.claim worker now leaseSeconds)
        history := { w.history with claims := w.history.claims ++ [row.id] } }
  | begin {w w' : World} (u : UserId) (now : Instant)
      (hC : ∀ j ∈ w.db.jobs, j.userId = u → j.status = .running → P.requeues j)
      (hj : w'.db.jobs = updateWhere (fun j : Job => j.userId = u ∧ j.status = .running)
        (·.requeue now) w.db.jobs)
      (hk : w'.db.nextJobId = w.db.nextJobId)
      (he : ∀ u', w'.db.erasing u' = true → w.db.erasing u' = true ∨ u' = u)
      (hc : w'.history.claims = w.history.claims) : JobMove P w w'
  | saveResult {w : World} (worker : Text) (id : Nat) (now : Instant) (result : Json) :
      JobMove P w { w with
        db := w.db.updateJobs (Job.heldBy worker id) (·.saveResult result now) }
  | complete {w : World} (worker : Text) (id : Nat) (now : Instant) :
      JobMove P w { w with db := w.db.updateJobs (Job.heldBy worker id) (·.complete now) }
  | retry {w : World} (worker : Text) (id attempts : Nat) (error : Text) (maxAttempts : Int)
      (now : Instant)
      (hR : ∀ j ∈ w.db.jobs, j.id = id → j.claimedBy = some worker →
        P.reports j (retryStatus attempts maxAttempts)) :
      JobMove P w { w with
        db := retryBackgroundJob worker id attempts error maxAttempts now w.db }

/-- A sequence of changes of the outbox. -/
def JobMoves (P : Policy) : World → World → Prop := Relation.ReflTransGen (JobMove P)

variable {P : Policy}

lemma JobMove.moves {w w' : World} (h : JobMove P w w') : JobMoves P w w' := .single h

/-- What every change preserves, every sequence of changes preserves. -/
lemma JobMoves.preserve {I : World → Prop} (hmove : ∀ w w', I w → JobMove P w w' → I w')
    {w w' : World} (h : JobMoves P w w') (hw : I w) : I w' := by
  induction h with
  | refl => exact hw
  | tail _ hstep ih => exact hmove _ _ ih hstep

/-- Two databases agree on the outbox and the erasure barriers. -/
structure SameJobs (db db' : Db) : Prop where
  jobs : db'.jobs = db.jobs
  nextJobId : db'.nextJobId = db.nextJobId
  erasureLocks : db'.erasureLocks = db.erasureLocks

lemma SameJobs.refl (db : Db) : SameJobs db db := ⟨rfl, rfl, rfl⟩

lemma SameJobs.trans {db₁ db₂ db₃ : Db} (h : SameJobs db₁ db₂) (h' : SameJobs db₂ db₃) :
    SameJobs db₁ db₃ :=
  ⟨h'.jobs.trans h.jobs, h'.nextJobId.trans h.nextJobId, h'.erasureLocks.trans h.erasureLocks⟩

lemma SameJobs.moves {w w' : World} (h : SameJobs w.db w'.db)
    (hc : w'.history.claims = w.history.claims) : JobMoves P w w' := by
  refine JobMove.moves (JobMove.quiet h.jobs h.nextJobId (fun u hu => ?_) hc)
  rw [Db.erasing, h.erasureLocks] at hu
  exact hu

/-! ### The transactions of a turn -/

lemma retitle_sameJobs (db : Db) (u : UserId) (cid : Id) (title : Option Text) :
    SameJobs db (db.retitle u cid title) := by
  unfold Db.retitle
  split
  · exact .refl db
  · exact ⟨rfl, rfl, rfl⟩

lemma endAbandoned_sameJobs (p : Process) (now : Instant) (u : UserId) (t : Turn) (db : Db) :
    SameJobs db (endAbandoned p now u t db).2 := by
  rcases endAbandoned_snd p now u t db with h | ⟨-, h⟩
  · rw [h]
    exact .refl db
  · rw [h]
    exact ⟨rfl, rfl, rfl⟩

/-- A start leaves the outbox alone. -/
lemma startRequestTurn_sameJobs (p : Process) (now : Instant) (fresh : Id) (a : StartArgs)
    (db : Db) : SameJobs db (startRequestTurn p now fresh a db).2 := by
  rcases startRequestTurn_cases p now fresh a db with
    ⟨e, h⟩ | ⟨t, db', h, -, hreplay⟩ | ⟨cid, db₁, s, db', h, -, hreplay, hfresh⟩
  · rw [h]
    exact .refl db
  · rw [h]
    obtain ⟨named, -, -, hend, -⟩ := replayBranch_replayed hreplay
    have hdb : db' = (endAbandoned p now a.userId named db).2 := by rw [← hend]
    rw [hdb]
    exact endAbandoned_sameJobs p now a.userId named db
  · rw [h]
    have h₁ : SameJobs db db₁ := by
      rcases replayBranch_start hreplay with ⟨-, rfl, -⟩ | ⟨named, -, -, -, -, rfl⟩
      · exact .refl db₁
      · have hend := endAbandoned_sameJobs p now a.userId named db
        exact ⟨hend.jobs, hend.nextJobId, hend.erasureLocks⟩
    obtain ⟨cid', db₂, db₃, hresolve, hevict, -, -, rfl⟩ := startFresh_ok hfresh
    have h₂ : SameJobs db₁ db₂ := by
      rcases resolveConversation_ok hresolve with ⟨-, -, rfl⟩ | ⟨-, -, rfl⟩
      · exact .refl db₂
      · exact ⟨rfl, rfl, rfl⟩
    have h₃ : SameJobs db₂ db₃ := by
      rcases evictLease_ok hevict with ⟨-, rfl⟩ | ⟨l, -, -, rfl⟩
      · exact .refl db₃
      · exact ⟨rfl, rfl, rfl⟩
    have h₄ := retitle_sameJobs db₃ a.userId cid' a.createTitle
    exact (h₁.trans h₂).trans ((h₃.trans h₄).trans ⟨rfl, rfl, rfl⟩)

lemma enqueueJobs_moves {w : World} {u : UserId} {cid tid : Id} {now : Instant}
    {specs : List JobSpec} {db db' : Db} (h : enqueueJobs u cid tid now specs db = .ok db')
    (hE : P.enqueues u tid) : JobMoves P { w with db := db } { w with db := db' } := by
  induction specs generalizing db with
  | nil =>
    rw [Except.ok.inj h]
    exact .refl
  | cons spec specs ih =>
    cases spec with
    | notObject => cases h
    | badPayload kind => simp only [enqueueJobs] at h; split at h <;> cases h
    | job kind payload key =>
      simp only [enqueueJobs] at h
      split at h
      · cases h
      · split at h
        · cases h
        · exact .head (JobMove.enqueue u cid tid _ _ _ now hE) (ih h)

/-- A finish adds pending jobs. -/
lemma finalize_jobMoves (w : World) (now : Instant) {u : UserId} {tid : Id} {f : FinalizeArgs}
    (hE : f.status = .completed → ∀ t, w.db.turnOf u tid = some t → t.status = .running →
      P.enqueues u tid) : JobMoves P w (w.finalize now u tid f) := by
  rcases finalizeRequestTurn_cases now u tid f w.db with
    ⟨e, h⟩ | ⟨turn, -, -, h⟩ | ⟨turn, m, db, hfin, h⟩
  · refine SameJobs.moves ?_ rfl
    simp only [World.finalize, h]
    exact .refl w.db
  · refine SameJobs.moves ?_ rfl
    simp only [World.finalize, h]
    exact .refl w.db
  · obtain ⟨db₃, hpersist, rfl⟩ := hfin.persisted
    have hclose : JobMoves P w { w with
        db := (w.db.insertMessage m).closeTurn u tid f.status w.db.nextMessageId now } :=
      SameJobs.moves ⟨rfl, rfl, rfl⟩ rfl
    have hjobs : JobMoves P { w with
        db := (w.db.insertMessage m).closeTurn u tid f.status w.db.nextMessageId now }
        { w with db := db₃ } := by
      unfold persistCompletion at hpersist
      split at hpersist
      · rw [Except.ok.inj hpersist]
        exact .refl
      · next hdone =>
        have hallowed : P.enqueues turn.userId turn.id := by
          obtain ⟨hu, hid⟩ := selectOne_holds hfin.named
          rw [hu, hid]
          exact hE (not_not.1 hdone) turn hfin.named hfin.running
        split at hpersist
        · refine .trans ?_ (enqueueJobs_moves hpersist hallowed)
          exact SameJobs.moves ⟨rfl, rfl, rfl⟩ rfl
        · cases hpersist
    refine (hclose.trans hjobs).trans (SameJobs.moves ?_ rfl)
    simp only [World.finalize, h]
    exact ⟨rfl, rfl, rfl⟩

lemma commit_jobMoves (w : World) (now : Instant) (i : Nat) :
    JobMoves P w (w.commit now i) := by
  unfold World.commit
  split
  · exact .refl
  · next plan _ =>
    refine SameJobs.moves ?_ rfl
    rcases commitBranch_cases now w.nextId plan w.db with ⟨e, h⟩ | ⟨db₂, hmat, h⟩
    · simp only [h]
      exact .refl w.db
    · simp only [h]
      obtain ⟨snapshots, rfl⟩ := materializeBranch_ok hmat
      unfold Db.recordForkRequest
      split <;> exact ⟨rfl, rfl, rfl⟩

/-! ### Every action -/

/-- An action stays within the policy. -/
def World.Respects (P : Policy) (w : World) : Action → Prop
  | .finalizeRequestTurn _ u tid f => f.status = .completed →
      ∀ t, w.db.turnOf u tid = some t → t.status = .running → P.enqueues u tid
  | .claimJob worker now _ => ((∀ r ∈ w.retries, r.worker ≠ worker) → P.claims worker) ∧
      ∀ j ∈ w.db.jobs, j.expired now = true → P.requeues j
  | .beginPrivacyErasure _ _ u =>
      ∀ j ∈ w.db.jobs, j.userId = u → j.status = .running → P.requeues j
  | .writeRetry i _ maxAttempts _ => ∀ r, w.retries[i]? = some r →
      ∀ j ∈ w.db.jobs, j.id = r.jobId → j.claimedBy = some r.worker →
        P.reports j (retryStatus r.attempts maxAttempts)
  | _ => True

lemma World.respects_any (w : World) (a : Action) : w.Respects .any a := by
  cases a <;> simp [World.Respects, Policy.any]

/-- Every action is a sequence of changes of the outbox. -/
theorem act_jobMoves {w : World} {a : Action} (ha : w.Respects P a) :
    JobMoves P w (w.act a) := by
  cases a with
  | startRequestTurn p now a =>
    exact SameJobs.moves (startRequestTurn_sameJobs p now w.nextId a w.db) rfl
  | finalizeRequestTurn now u tid f => exact finalize_jobMoves w now ha
  | failTurn now u tid => exact SameJobs.moves ⟨rfl, rfl, rfl⟩ rfl
  | scanOrphans p now => exact SameJobs.moves ⟨rfl, rfl, rfl⟩ rfl
  | closeOrphan now i =>
    simp only [World.act]
    split
    · exact .refl
    · next o _ =>
      have h : JobMoves P w { w with orphans := w.orphans.eraseIdx i } :=
        SameJobs.moves ⟨rfl, rfl, rfl⟩ rfl
      exact h.trans (finalize_jobMoves _ now fun hdone => by cases hdone)
  | createConversation now u title agentArch agentVersion strict =>
    exact SameJobs.moves ⟨rfl, rfl, rfl⟩ rfl
  | planFork u source afterTurnId title key =>
    simp only [World.act, World.plan]
    split <;> exact SameJobs.moves ⟨rfl, rfl, rfl⟩ rfl
  | planEdit u source turnId title key =>
    simp only [World.act, World.plan]
    split <;> exact SameJobs.moves ⟨rfl, rfl, rfl⟩ rfl
  | commitBranch now i => exact commit_jobMoves w now i
  | clearConversation p now u cid =>
    rcases clearConversationMessages_snd p now u cid w.db with h | ⟨-, h⟩
    · simp only [World.act, h]
      exact .refl
    · simp only [World.act, h]
      exact JobMove.moves (JobMove.delete (fun u' cid' => u' = u ∧ cid' = cid) rfl rfl rfl rfl)
  | deleteConversation p now u cid =>
    rcases deleteConversation_snd p now u cid w.db with h | ⟨-, h⟩
    · simp only [World.act, h]
      exact .refl
    · simp only [World.act, h]
      exact JobMove.moves (JobMove.delete (fun u' cid' => u' = u ∧ cid' = cid) rfl rfl rfl rfl)
  | beginPrivacyErasure p now u =>
    rcases beginPrivacyErasure_cases p now u w.db with ⟨e, h⟩ | ⟨db₁, -, hfail, -, h⟩
    · simp only [World.act, h]
      exact .refl
    · obtain ⟨-, rfl⟩ := failLeaseTurns_ok hfail
      simp only [World.act, h]
      refine JobMove.moves (JobMove.begin u now ha rfl rfl (fun u' hu' => ?_) rfl)
      rw [Db.erasing, List.any_append, Bool.or_eq_true] at hu'
      rcases hu' with hold | hnew
      · exact .inl hold
      · simp only [List.any_cons, List.any_nil, Bool.or_false, decide_eq_true_eq] at hnew
        exact .inr hnew.symm
  | deleteAllUserData u =>
    rcases deleteAllUserData_snd u w.db with h | h
    · simp only [World.act, h]
      exact .refl
    · simp only [World.act, h]
      exact JobMove.moves (JobMove.delete (fun u' _ => u' = u) rfl rfl rfl rfl)
  | endPrivacyErasure u =>
    refine JobMove.moves (JobMove.quiet rfl rfl (fun u' hu' => ?_) rfl)
    simp only [World.act, endPrivacyErasure, Db.erasing, List.any_eq_true] at hu' ⊢
    obtain ⟨l, hl, hlu⟩ := hu'
    exact ⟨l, mem_of_mem_deleteWhere hl, hlu⟩
  | claimJob worker now leaseSeconds =>
    simp only [World.act]
    split
    · exact .refl
    · next hidle =>
      have hworker : P.claims worker := by
        refine ha.1 fun r hr hrw => hidle ?_
        exact List.any_eq_true.2 ⟨r, hr, by simpa using hrw⟩
      have hsweep : JobMoves P w { w with db := w.db.sweepExpired now } :=
        (JobMove.sweep now ha.2).moves
      unfold claimBackgroundJob
      dsimp only
      split
      · exact hsweep.trans (SameJobs.moves (.refl _) (List.append_nil _))
      · next row hrow =>
        exact hsweep.trans (JobMove.claim (w := { w with db := w.db.sweepExpired now }) worker now
          leaseSeconds hworker (selectOne_mem hrow) (selectOne_holds hrow)).moves
  | saveJobResult worker id now result =>
    have h : (saveBackgroundJobResult worker id now result w.db).2
        = w.db.updateJobs (Job.heldBy worker id) (·.saveResult result now) := by
      simp only [saveBackgroundJobResult]
      split <;> rfl
    simp only [World.act, h]
    exact (JobMove.saveResult worker id now result).moves
  | completeJob worker id now =>
    have h : (completeBackgroundJob worker id now w.db).2
        = w.db.updateJobs (Job.heldBy worker id) (·.complete now) := by
      simp only [completeBackgroundJob]
      split <;> rfl
    simp only [World.act, h]
    exact (JobMove.complete worker id now).moves
  | readRetry worker id => exact SameJobs.moves ⟨rfl, rfl, rfl⟩ rfl
  | writeRetry i error maxAttempts now =>
    simp only [World.act]
    split
    · exact .refl
    · next r hr =>
      have h := JobMove.retry (P := P) r.worker r.jobId r.attempts error maxAttempts now
        (ha r hr)
      exact h.moves.trans (SameJobs.moves ⟨rfl, rfl, rfl⟩ rfl)
  | patchSummary now u cid summary through =>
    obtain ⟨snapshots, h⟩ := patchLatestSnapshotSummary_fields now u cid summary through w.db
    simp only [World.act, h]
    exact SameJobs.moves ⟨rfl, rfl, rfl⟩ rfl
  | owners rows => exact SameJobs.moves ⟨rfl, rfl, rfl⟩ rfl

end RentCompass.Store
