import RentCompass.Store.OutboxSafety

/-!
# The bound on the attempts of a job

A worker that reports a failure quarantines the job once its attempts are used up. The sweep of
expired leases and the erasure set a job back to pending without a look at its attempts, so the
bound holds in the runs where neither meets a job that has used them up, and fails in others.
-/

namespace RentCompass.Store

open Rows

/-! ### Reports -/

/-- The attempts of the reads in `rs` are those of the jobs still claimed by the same workers. -/
def World.Fresh (rs : List RetryRead) (w : World) : Prop :=
  ∀ r ∈ rs, ∀ j ∈ w.db.jobs, j.id = r.jobId → j.claimedBy = some r.worker →
    j.attempts = r.attempts

/-- No worker with a report in `rs` claims. -/
def Policy.reporting (rs : List RetryRead) : Policy :=
  ⟨fun worker => ∀ r ∈ rs, r.worker ≠ worker, fun _ => True, fun _ _ => True, fun _ _ => True⟩

lemma JobMove.fresh {rs : List RetryRead} {w w' : World} (h : w.Fresh rs)
    (hmove : JobMove (.reporting rs) w w') : w'.Fresh rs := by
  have hupdate : ∀ {p : Job → Prop} [DecidablePred p] {f : Job → Job},
      (∀ j, (f j).claimedBy = none ∨
        (f j).id = j.id ∧ (f j).claimedBy = j.claimedBy ∧ (f j).attempts = j.attempts) →
      ∀ r ∈ rs, ∀ j ∈ updateWhere p f w.db.jobs, j.id = r.jobId →
        j.claimedBy = some r.worker → j.attempts = r.attempts := by
    intro p _ f hf r hr j hj hid hclaimed
    rcases mem_updateWhere_cases hj with ⟨hold, -⟩ | ⟨j₀, hold, -, rfl⟩
    · exact h r hr j hold hid hclaimed
    · rcases hf j₀ with hnone | ⟨hid₀, hclaimed₀, hattempts⟩
      · rw [hnone] at hclaimed
        cases hclaimed
      · rw [hattempts]
        exact h r hr j₀ hold (hid₀.symm.trans hid) (hclaimed₀.symm.trans hclaimed)
  cases hmove with
  | quiet hj hk he hc =>
    intro r hr j hjm
    exact h r hr j (hj ▸ hjm)
  | enqueue u cid tid kind dedupeKey payload now hE =>
    unfold Db.enqueue
    split
    · exact h
    · intro r hr j hj hid hclaimed
      rcases List.mem_append.1 hj with hj | hj
      · exact h r hr j hj hid hclaimed
      · rw [List.mem_singleton.1 hj] at hclaimed
        cases hclaimed
  | delete c hj hk he hc =>
    intro r hr j hjm
    exact h r hr j (mem_of_mem_deleteWhere (hj ▸ hjm))
  | sweep now hC => exact hupdate fun j => .inl rfl
  | claim worker now leaseSeconds hworker hrow hready =>
    intro r hr j hj hid hclaimed
    rcases mem_updateWhere_cases hj with ⟨hold, -⟩ | ⟨j₀, -, -, rfl⟩
    · exact h r hr j hold hid hclaimed
    · exact absurd (Option.some.inj hclaimed).symm (hworker r hr)
  | begin u now hC hj hk he hc =>
    intro r hr j hjm
    rw [hj] at hjm
    exact hupdate (fun j => .inl rfl) r hr j hjm
  | saveResult worker id now result => exact hupdate fun j => .inr ⟨rfl, rfl, rfl⟩
  | complete worker id now => exact hupdate fun j => .inl rfl
  | retry worker id attempts error maxAttempts now hR => exact hupdate fun j => .inl rfl

/-- A read that is kept was kept before, or has just been made. -/
lemma act_retries {w : World} {a : Action} {r : RetryRead} (hr : r ∈ (w.act a).retries) :
    r ∈ w.retries ∨ ∃ worker id attempts, a = .readRetry worker id ∧
      retryAttempts worker id w.db = some attempts ∧ r = ⟨worker, id, attempts⟩ := by
  cases a with
  | readRetry worker id =>
    rcases List.mem_append.1 hr with hr | hr
    · exact .inl hr
    · refine .inr ⟨worker, id, ?_⟩
      simp only [Option.mem_toList, Option.map_eq_some_iff] at hr
      obtain ⟨attempts, hattempts, rfl⟩ := hr
      exact ⟨attempts, rfl, hattempts, rfl⟩
  | writeRetry i error maxAttempts now =>
    simp only [World.act] at hr
    split at hr
    · exact .inl hr
    · exact .inl (List.mem_of_mem_eraseIdx hr)
  | closeOrphan now i =>
    simp only [World.act] at hr
    split at hr <;> exact .inl hr
  | planFork u source afterTurnId title key =>
    simp only [World.act, World.plan] at hr
    split at hr <;> exact .inl hr
  | planEdit u source turnId title key =>
    simp only [World.act, World.plan] at hr
    split at hr <;> exact .inl hr
  | commitBranch now i =>
    simp only [World.act, World.commit] at hr
    split at hr <;> exact .inl hr
  | claimJob worker now leaseSeconds =>
    simp only [World.act] at hr
    split at hr <;> exact .inl hr
  | _ => exact .inl hr

/-- A report uses the attempts of the claim it is about. -/
lemma fresh_act {w : World} (hsafe : OutboxSafe w) (h : w.Fresh w.retries) (a : Action) :
    (w.act a).Fresh (w.act a).retries := by
  have hold : (w.act a).Fresh w.retries := by
    refine JobMoves.preserve (fun _ _ hw hm => hm.fresh hw) (act_jobMoves ?_) h
    cases a <;> simp [World.Respects, Policy.reporting]
  intro r hr j hj hid hclaimed
  rcases act_retries hr with hr | ⟨worker, id, attempts, rfl, hread, rfl⟩
  · exact hold r hr j hj hid hclaimed
  · obtain ⟨row, hrow, rfl⟩ := Option.map_eq_some_iff.1 hread
    rw [hsafe.ids.eq hj (selectOne_mem hrow) (hid.trans (selectOne_holds hrow).1.symm)]

/-! ### Claims -/

/-- Claims are counted by the attempts, and a pending job has one left. -/
structure Bounded (M : Nat) (w : World) : Prop where
  counted : ∀ j ∈ w.db.jobs, w.history.claims.count j.id = j.attempts
  bound : ∀ id, w.history.claims.count id ≤ M
  pending : ∀ j ∈ w.db.jobs, j.status = .pending → j.attempts < M
  future : ∀ id, w.db.nextJobId ≤ id → w.history.claims.count id = 0

/-- Only a job with an attempt left goes back to pending. -/
def Policy.bounded (M : Nat) : Policy :=
  ⟨fun _ => True, fun j => j.attempts < M, fun j status => status = .pending → j.attempts < M,
    fun _ _ => True⟩

namespace Bounded

variable {M : Nat} {w w' : World}

lemma update (h : Bounded M w) {p : Job → Prop} [DecidablePred p] {f : Job → Job}
    (hj : w'.db.jobs = updateWhere p f w.db.jobs) (hk : w'.db.nextJobId = w.db.nextJobId)
    (hc : w'.history.claims = w.history.claims)
    (hf : ∀ j, (f j).id = j.id ∧ (f j).attempts = j.attempts)
    (hp : ∀ j ∈ w.db.jobs, p j → (f j).status = .pending → j.attempts < M) : Bounded M w' where
  counted := by
    intro j hjm
    rw [hj] at hjm
    rw [hc]
    rcases mem_updateWhere_cases hjm with ⟨hold, -⟩ | ⟨j₀, hold, -, rfl⟩
    · exact h.counted j hold
    · rw [(hf j₀).1, (hf j₀).2]
      exact h.counted j₀ hold
  bound := hc ▸ h.bound
  pending := by
    intro j hjm hpending
    rw [hj] at hjm
    rcases mem_updateWhere_cases hjm with ⟨hold, -⟩ | ⟨j₀, hold, hpj, rfl⟩
    · exact h.pending j hold hpending
    · rw [(hf j₀).2]
      exact hp j₀ hold hpj hpending
  future := by
    rw [hc, hk]
    exact h.future

lemma claim (h : Bounded M w) (hsafe : OutboxSafe w) {row : Job} (worker : Text) (now : Instant)
    (leaseSeconds : Int) (hrow : row ∈ w.db.jobs) (hpending : row.status = .pending) :
    Bounded M { w with
      db := w.db.updateJobs (fun j => j.id = row.id ∧ j.status = .pending)
        (·.claim worker now leaseSeconds)
      history := { w.history with claims := w.history.claims ++ [row.id] } } := by
  have hcount : ∀ id, (w.history.claims ++ [row.id]).count id
      = w.history.claims.count id + if row.id = id then 1 else 0 := by
    intro id
    rw [List.count_append, List.count_singleton]
    simp
  exact
  { counted := by
      intro j hj
      show (w.history.claims ++ [row.id]).count j.id = j.attempts
      rw [hcount]
      rcases mem_updateWhere_cases hj with ⟨hold, hnot⟩ | ⟨j₀, hold, hp, rfl⟩
      · have hne : row.id ≠ j.id := by
          intro hid
          rw [hsafe.ids.eq hrow hold hid] at hpending
          exact hnot ⟨hid.symm, hpending⟩
        rw [if_neg hne]
        exact h.counted j hold
      · have hid : (j₀.claim worker now leaseSeconds).id = j₀.id := rfl
        rw [hid, if_pos hp.1.symm, h.counted j₀ hold]
        rfl
    bound := by
      intro id
      show (w.history.claims ++ [row.id]).count id ≤ M
      rw [hcount]
      by_cases hid : row.id = id
      · rw [if_pos hid, ← hid, h.counted row hrow]
        exact h.pending row hrow hpending
      · rw [if_neg hid]
        exact h.bound id
    pending := by
      intro j hj hpend
      rcases mem_updateWhere_cases hj with ⟨hold, -⟩ | ⟨j₀, -, -, rfl⟩
      · exact h.pending j hold hpend
      · cases hpend
    future := by
      intro id hid
      have hne : row.id ≠ id := (lt_of_lt_of_le (hsafe.below row hrow) hid).ne
      show (w.history.claims ++ [row.id]).count id = 0
      rw [hcount, if_neg hne]
      exact h.future id hid }

theorem move (h : Bounded M w) (hM : 0 < M) (hsafe : OutboxSafe w)
    (hmove : JobMove (.bounded M) w w') : Bounded M w' := by
  cases hmove with
  | quiet hj hk he hc =>
    have hnone : w'.db.jobs = updateWhere (fun _ => False) id w.db.jobs := by
      rw [hj, updateWhere_eq_self (by simp)]
    exact h.update hnone hk hc (fun _ => ⟨rfl, rfl⟩) fun _ _ hp => hp.elim
  | enqueue u cid tid kind dedupeKey payload now hE =>
    unfold Db.enqueue
    split
    · exact h
    · exact
      { counted := by
          intro j hj
          rcases List.mem_append.1 hj with hj | hj
          · exact h.counted j hj
          · rw [List.mem_singleton.1 hj]
            exact h.future _ le_rfl
        bound := h.bound
        pending := by
          intro j hj hpending
          rcases List.mem_append.1 hj with hj | hj
          · exact h.pending j hj hpending
          · rw [List.mem_singleton.1 hj]
            exact hM
        future := fun id hid => h.future id ((Nat.le_succ _).trans hid) }
  | delete c hj hk he hc =>
    exact
    { counted := fun j hjm => hc ▸ h.counted j (mem_of_mem_deleteWhere (hj ▸ hjm))
      bound := hc ▸ h.bound
      pending := fun j hjm => h.pending j (mem_of_mem_deleteWhere (hj ▸ hjm))
      future := by
        rw [hc, hk]
        exact h.future }
  | sweep now hC => exact h.update rfl rfl rfl (fun _ => ⟨rfl, rfl⟩) fun j hj hp _ => hC j hj hp
  | claim worker now leaseSeconds hworker hrow hready =>
    exact h.claim hsafe worker now leaseSeconds hrow hready.1
  | begin u now hC hj hk he hc =>
    exact h.update hj hk hc (fun _ => ⟨rfl, rfl⟩) fun j hjm hp _ => hC j hjm hp.1 hp.2
  | saveResult worker id now result =>
    refine h.update rfl rfl rfl (fun _ => ⟨rfl, rfl⟩) fun j hj _ hpending => ?_
    exact h.pending j hj hpending
  | complete worker id now =>
    exact h.update rfl rfl rfl (fun _ => ⟨rfl, rfl⟩) fun j _ _ hpending => by cases hpending
  | retry worker id attempts error maxAttempts now hR =>
    refine h.update rfl rfl rfl (fun _ => ⟨rfl, rfl⟩) fun j hj hp hpending => ?_
    exact hR j hj hp.1 hp.2 hpending

end Bounded

/-! ### Every run -/

/-- All workers are built with the same `max_attempts`. -/
def Action.RetriesUpTo (maxAttempts : Int) : Action → Prop
  | .writeRetry _ _ m _ => m = maxAttempts
  | _ => True

/-- The attempts a job may use. -/
def attemptBound (maxAttempts : Int) : Nat := (max 1 maxAttempts).toNat

/-- The action sets no running job back to pending that has used up its attempts: no lease of
such a job is found expired by a claim, and none is found by an erasure that begins. -/
def World.SparesExhausted (maxAttempts : Int) (w : World) : Action → Prop
  | .claimJob _ now _ =>
      ∀ j ∈ w.db.jobs, j.expired now = true → j.attempts < attemptBound maxAttempts
  | .beginPrivacyErasure _ _ u => ∀ j ∈ w.db.jobs, j.userId = u → j.status = .running →
      j.attempts < attemptBound maxAttempts
  | _ => True

lemma retryStatus_pending {attempts : Nat} {maxAttempts : Int}
    (h : retryStatus attempts maxAttempts = .pending) : attempts < attemptBound maxAttempts := by
  unfold retryStatus at h
  split at h
  · cases h
  · next hlt =>
    unfold attemptBound
    omega

/-- The invariants of the outbox with its reports and its bound. -/
structure World.BoundedOutbox (maxAttempts : Int) (w : World) : Prop where
  safe : OutboxSafe w
  fresh : w.Fresh w.retries
  bounded : Bounded (attemptBound maxAttempts) w

lemma boundedOutbox_act {maxAttempts : Int} {w : World} (h : w.BoundedOutbox maxAttempts)
    {a : Action} (hretry : a.RetriesUpTo maxAttempts) (ha : w.SparesExhausted maxAttempts a) :
    (w.act a).BoundedOutbox maxAttempts := by
  have hM : 0 < attemptBound maxAttempts := by
    unfold attemptBound
    omega
  have hrespects : w.Respects (.bounded (attemptBound maxAttempts)) a := by
    cases a with
    | claimJob worker now leaseSeconds => exact ⟨fun _ => trivial, ha⟩
    | beginPrivacyErasure p now u => exact ha
    | writeRetry i error m now =>
      intro r hr j hj hid hclaimed hpending
      rw [h.fresh r (List.mem_of_getElem? hr) j hj hid hclaimed]
      rw [hretry] at hpending
      exact retryStatus_pending hpending
    | finalizeRequestTurn now u tid f => exact fun _ _ _ _ => trivial
    | _ => trivial
  refine ⟨h.safe.act a, fresh_act h.safe h.fresh a, ?_⟩
  exact (JobMoves.preserve (I := fun w => OutboxSafe w ∧ Bounded (attemptBound maxAttempts) w)
    (fun _ _ hw hm => ⟨hw.1.move hm, hw.2.move hM hw.1 hm⟩) (act_jobMoves hrespects)
    ⟨h.safe, h.bounded⟩).2

lemma boundedOutbox_empty (maxAttempts : Int) : World.empty.BoundedOutbox maxAttempts where
  safe := outboxSafe_empty
  fresh := by simp [World.Fresh, World.empty]
  bounded :=
    { counted := by simp [World.empty, Db.empty]
      bound := by simp [World.empty]
      pending := by simp [World.empty, Db.empty]
      future := by simp [World.empty] }

/-- Along a run that sets no exhausted job back to pending, no job is claimed more often than
`max_attempts` says; a job claimed that often still runs or has ended, and one that has ended is
never claimed again. -/
theorem job_claims_bounded (maxAttempts : Int) (as : List Action)
    (hretry : ∀ a ∈ as, a.RetriesUpTo maxAttempts)
    (has : Runs.Along World.act (World.SparesExhausted maxAttempts) .empty as) :
    (∀ id, (World.after as).history.claims.count id ≤ attemptBound maxAttempts) ∧
    (∀ j ∈ (World.after as).db.jobs,
      attemptBound maxAttempts ≤ (World.after as).history.claims.count j.id →
      j.status = .running ∨ j.status = .completed ∨ j.status = .dead) ∧
    ∀ j ∈ (World.after as).db.jobs, j.status = .completed ∨ j.status = .dead → ∀ as',
      (Runs.run World.act (World.after as) as').history.claims.count j.id
        = (World.after as).history.claims.count j.id := by
  have h : (World.after as).BoundedOutbox maxAttempts := by
    have hboth : Runs.Along World.act
        (fun w a => a.RetriesUpTo maxAttempts ∧ w.SparesExhausted maxAttempts a) .empty as :=
      Runs.Along.and World.act (Runs.along_of_forall World.act _ hretry) has
    exact Runs.run_preserves_along (I := World.BoundedOutbox maxAttempts)
      (fun _ _ hw ha => boundedOutbox_act hw ha.1 ha.2) (boundedOutbox_empty maxAttempts) hboth
  refine ⟨h.bounded.bound, ?_, ?_⟩
  · intro j hj hcount
    cases hstatus : j.status with
    | pending =>
      rw [h.bounded.counted j hj] at hcount
      exact absurd (h.bounded.pending j hj hstatus) (not_lt.2 hcount)
    | running => exact .inl rfl
    | completed => exact .inr (.inl rfl)
    | dead => exact .inr (.inr rfl)
  · intro j hj hended as'
    have hall : (World.after as).Ended j.id := by
      refine ⟨h.safe.below j hj, fun j₁ hj₁ hid₁ => ?_⟩
      rw [h.safe.ids.eq hj₁ hj hid₁]
      exact hended
    exact (hall.run h.safe as').2

/-- A turn that leaves one job. -/
def sampleJobRun : List Action :=
  [.startRequestTurn sampleProcess 0 sampleStart,
   .finalizeRequestTurn 1 sampleStart.userId 0 { sampleAnswer 0 with
     backgroundJobs := [.job (Text.ofString "memory_turn") (.json (.obj [])) none] }]

/-- The handler fails on the only attempt, and the worker says so. -/
def sampleReportedRun : List Action :=
  sampleJobRun ++ [.claimJob (Text.ofString "w1") second 300, .readRetry (Text.ofString "w1") 1,
    .writeRetry 0 (Text.ofString "ValueError") 1 (2 * second)]

/-- A reported failure on the last attempt leaves the job dead. -/
theorem job_claims_bounded_reported :
    (∀ id, (World.after sampleReportedRun).history.claims.count id ≤ 1) ∧
      ∃ j ∈ (World.after sampleReportedRun).db.jobs, j.id = 1 ∧ j.status = .dead := by
  have hretry : ∀ a ∈ sampleReportedRun, a.RetriesUpTo 1 := by
    intro a ha
    simp only [sampleReportedRun, sampleJobRun, List.cons_append, List.nil_append, List.mem_cons,
      List.not_mem_nil, or_false] at ha
    rcases ha with rfl | rfl | rfl | rfl | rfl
    · trivial
    · trivial
    · trivial
    · trivial
    · rfl
  have hspares : Runs.Along World.act (World.SparesExhausted 1) .empty sampleReportedRun := by
    refine ⟨trivial, trivial, ?_, trivial, trivial, trivial⟩
    show ∀ j ∈ (World.after sampleJobRun).db.jobs, j.expired second = true →
      j.attempts < attemptBound 1
    decide
  obtain ⟨hbound, -, -⟩ := job_claims_bounded 1 sampleReportedRun hretry hspares
  exact ⟨hbound, by decide⟩

/-- `n` workers claim the job in turn, each after the one before died with its lease. -/
def crashes (n : Nat) : List Action :=
  (List.range n).map fun i => .claimJob (Text.ofNat i) (400 * (i + 1) * second) 300

/-- Workers that die are not counted: with five attempts allowed, the job is claimed a sixth
time. -/
theorem job_claims_unbounded : ¬ ∀ as : List Action, (∀ a ∈ as, a.RetriesUpTo 5) →
    ∀ id, (World.after as).history.claims.count id ≤ 5 := by
  intro hall
  have hretry : ∀ a ∈ sampleJobRun ++ crashes 6, a.RetriesUpTo 5 := by
    intro a ha
    rcases List.mem_append.1 ha with ha | ha
    · simp only [sampleJobRun, List.mem_cons, List.not_mem_nil, or_false] at ha
      rcases ha with rfl | rfl <;> trivial
    · obtain ⟨i, -, rfl⟩ := List.mem_map.1 ha
      trivial
  have hsix : (World.after (sampleJobRun ++ crashes 6)).history.claims.count 1 = 6 := by decide
  have hle := hall _ hretry 1
  rw [hsix] at hle
  exact absurd hle (by decide)

end RentCompass.Store
