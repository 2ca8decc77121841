import RentCompass.Store.JobMoves

/-!
# Safety of the outbox

The invariant `OutboxSafe` holds in every reachable state: a job is claimed exactly while it runs,
one job of a conversation runs at a time, a dedupe key names one job, and no job of a user under
erasure runs. The bound on the attempts of a poisonous job is a second invariant, which holds as
long as no job that has used up its attempts goes back to pending without a report.
-/

namespace RentCompass.Store

open Rows

/-- The invariant of the outbox. -/
structure OutboxSafe (w : World) : Prop where
  ids : Keyed (fun j : Job => j.id) w.db.jobs
  below : ∀ j ∈ w.db.jobs, j.id < w.db.nextJobId
  keys : Keyed (fun j : Job => (j.userId, j.dedupeKey)) w.db.jobs
  claimed : ∀ j ∈ w.db.jobs, j.claimedBy.isSome ↔ j.status = .running
  exclusive : ∀ j ∈ w.db.jobs, ∀ j' ∈ w.db.jobs, j.status = .running → j'.status = .running →
    j.userId = j'.userId → j.conversationId = j'.conversationId → j.id = j'.id
  erased : ∀ j ∈ w.db.jobs, w.db.erasing j.userId = true → j.status ≠ .running

lemma retryStatus_ne_running (attempts : Nat) (maxAttempts : Int) :
    retryStatus attempts maxAttempts ≠ .running := by
  unfold retryStatus
  split <;> simp

/-- What a statement that starts no job makes of a job. -/
structure Job.Kept (j j' : Job) : Prop where
  id : j'.id = j.id
  userId : j'.userId = j.userId
  conversationId : j'.conversationId = j.conversationId
  dedupeKey : j'.dedupeKey = j.dedupeKey
  claimed : j'.claimedBy.isSome ↔ j'.status = .running
  running : j'.status = .running → j.status = .running

namespace OutboxSafe

variable {w w' : World}

/-- A statement that starts no job and lets no erasure begin. -/
lemma update (h : OutboxSafe w) {p : Job → Prop} [DecidablePred p] {f : Job → Job}
    (hf : ∀ j ∈ w.db.jobs, p j → j.Kept (f j)) (hj : w'.db.jobs = updateWhere p f w.db.jobs)
    (hk : w'.db.nextJobId = w.db.nextJobId)
    (he : ∀ j ∈ w'.db.jobs, w'.db.erasing j.userId = true → j.status = .running →
      w.db.erasing j.userId = true) : OutboxSafe w' := by
  have hback : ∀ j' ∈ w'.db.jobs, ∃ j ∈ w.db.jobs, j.Kept j' := by
    intro j' hj'
    rw [hj] at hj'
    rcases mem_updateWhere_cases hj' with ⟨hold, -⟩ | ⟨j, hold, hp, rfl⟩
    · exact ⟨j', hold, rfl, rfl, rfl, rfl, h.claimed j' hold, fun hr => hr⟩
    · exact ⟨j, hold, hf j hold hp⟩
  exact
  { ids := hj ▸ h.ids.updateWhere fun j hjm hp => (hf j hjm hp).id
    below := by
      intro j' hj'
      obtain ⟨j, hjm, hkept⟩ := hback j' hj'
      rw [hkept.id, hk]
      exact h.below j hjm
    keys := by
      rw [hj]
      refine h.keys.updateWhere fun j hjm hp => ?_
      rw [(hf j hjm hp).userId, (hf j hjm hp).dedupeKey]
    claimed := by
      intro j' hj'
      obtain ⟨j, -, hkept⟩ := hback j' hj'
      exact hkept.claimed
    exclusive := by
      intro j₁ h₁ j₂ h₂ hr₁ hr₂ hu hc
      obtain ⟨i₁, hi₁, hk₁⟩ := hback j₁ h₁
      obtain ⟨i₂, hi₂, hk₂⟩ := hback j₂ h₂
      rw [hk₁.id, hk₂.id]
      refine h.exclusive i₁ hi₁ i₂ hi₂ (hk₁.running hr₁) (hk₂.running hr₂) ?_ ?_
      · rw [← hk₁.userId, ← hk₂.userId, hu]
      · rw [← hk₁.conversationId, ← hk₂.conversationId, hc]
    erased := by
      intro j' hj' her hr
      obtain ⟨j, hjm, hkept⟩ := hback j' hj'
      have her' := he j' hj' her hr
      rw [hkept.userId] at her'
      exact h.erased j hjm her' (hkept.running hr) }

/-- Fewer jobs, or fewer barriers, or neither. -/
lemma shrink (h : OutboxSafe w) (hj : w'.db.jobs.Sublist w.db.jobs)
    (hk : w'.db.nextJobId = w.db.nextJobId)
    (he : ∀ u, w'.db.erasing u = true → w.db.erasing u = true) : OutboxSafe w' where
  ids := h.ids.sublist (hj.map _)
  below := fun j hjm => hk ▸ h.below j (hj.subset hjm)
  keys := h.keys.sublist (hj.map _)
  claimed := fun j hjm => h.claimed j (hj.subset hjm)
  exclusive := fun j hjm j' hjm' => h.exclusive j (hj.subset hjm) j' (hj.subset hjm')
  erased := fun j hjm her => h.erased j (hj.subset hjm) (he _ her)

/-- A new job is pending, under a key that was free. -/
lemma enqueue (h : OutboxSafe w) (u : UserId) (cid tid : Id) (kind dedupeKey : Text)
    (payload : Json) (now : Instant) :
    OutboxSafe { w with db := w.db.enqueue u cid tid kind dedupeKey payload now } := by
  unfold Db.enqueue
  split
  · exact h
  · next hfree =>
    exact
    { ids := h.ids.append_one fun j hj => (h.below j hj).ne
      below := by
        intro j hj
        rcases List.mem_append.1 hj with hj | hj
        · exact Nat.lt_succ_of_lt (h.below j hj)
        · rw [List.mem_singleton.1 hj]
          exact Nat.lt_succ_self _
      keys := by
        refine h.keys.append_one fun j hj hkeys => hfree ?_
        simp only [Prod.mk.injEq] at hkeys
        exact List.any_eq_true.2 ⟨j, hj, by simp [hkeys]⟩
      claimed := by
        intro j hj
        rcases List.mem_append.1 hj with hj | hj
        · exact h.claimed j hj
        · rw [List.mem_singleton.1 hj]
          simp
      exclusive := by
        intro j hj j' hj' hr hr' hu hc
        rcases List.mem_append.1 hj with hj | hj
        · rcases List.mem_append.1 hj' with hj' | hj'
          · exact h.exclusive j hj j' hj' hr hr' hu hc
          · rw [List.mem_singleton.1 hj'] at hr'
            cases hr'
        · rw [List.mem_singleton.1 hj] at hr
          cases hr
      erased := by
        intro j hj her
        rcases List.mem_append.1 hj with hj | hj
        · exact h.erased j hj her
        · rw [List.mem_singleton.1 hj]
          simp }

/-- A claimed job runs alone in its conversation, and no barrier stands before its user. -/
lemma claim (h : OutboxSafe w) {row : Job} (worker : Text) (now : Instant) (leaseSeconds : Int)
    (hrow : row ∈ w.db.jobs) (hready : w.db.claimable now row) : OutboxSafe { w with
      db := w.db.updateJobs (fun j => j.id = row.id ∧ j.status = .pending)
        (·.claim worker now leaseSeconds)
      history := { w.history with claims := w.history.claims ++ [row.id] } } := by
  obtain ⟨hpending, -, hfree, hidle⟩ := hready
  have hback : ∀ j' ∈ updateWhere (fun j : Job => j.id = row.id ∧ j.status = .pending)
      (·.claim worker now leaseSeconds) w.db.jobs,
      (j' ∈ w.db.jobs ∧ j'.id ≠ row.id) ∨ j' = row.claim worker now leaseSeconds := by
    intro j' hj'
    rcases mem_updateWhere_cases hj' with ⟨hold, hnot⟩ | ⟨j, hold, hp, rfl⟩
    · refine .inl ⟨hold, fun hid => hnot ⟨hid, ?_⟩⟩
      rw [h.ids.eq hold hrow hid]
      exact hpending
    · rw [h.ids.eq hold hrow hp.1]
      exact .inr rfl
  have halone : ∀ j ∈ w.db.jobs, j.status = .running → row.userId = j.userId →
      row.conversationId = j.conversationId → False :=
    fun j hj hr hu hc => hidle ⟨j, hj, hu.symm, hc.symm, hr⟩
  exact
  { ids := h.ids.updateWhere fun j _ _ => rfl
    below := by
      intro j' hj'
      rcases hback j' hj' with ⟨hold, -⟩ | rfl
      · exact h.below j' hold
      · exact h.below row hrow
    keys := h.keys.updateWhere fun j _ _ => rfl
    claimed := by
      intro j' hj'
      rcases hback j' hj' with ⟨hold, -⟩ | rfl
      · exact h.claimed j' hold
      · simp [Job.claim]
    exclusive := by
      intro j₁ h₁ j₂ h₂ hr₁ hr₂ hu hc
      rcases hback j₁ h₁ with ⟨hold₁, -⟩ | rfl
      · rcases hback j₂ h₂ with ⟨hold₂, -⟩ | rfl
        · exact h.exclusive j₁ hold₁ j₂ hold₂ hr₁ hr₂ hu hc
        · exact (halone j₁ hold₁ hr₁ hu.symm hc.symm).elim
      · rcases hback j₂ h₂ with ⟨hold₂, -⟩ | rfl
        · exact (halone j₂ hold₂ hr₂ hu hc).elim
        · rfl
    erased := by
      intro j' hj' her
      rcases hback j' hj' with ⟨hold, -⟩ | rfl
      · exact h.erased j' hold her
      · obtain ⟨l, hl, hlu⟩ := List.any_eq_true.1 her
        exact absurd ⟨l, hl, of_decide_eq_true hlu⟩ hfree }

/-! ### Every change keeps the invariant -/

variable {P : Policy}

lemma expired_running {j : Job} {now : Instant} (h : j.expired now = true) : j.status = .running := by
  simp only [Job.expired, decide_eq_true_eq] at h
  exact h.1

theorem move (h : OutboxSafe w) (hmove : JobMove P w w') : OutboxSafe w' := by
  cases hmove with
  | quiet hj hk he hc => exact h.shrink (hj ▸ List.Sublist.refl _) hk he
  | enqueue u cid tid kind dedupeKey payload now hE => exact h.enqueue u cid tid kind dedupeKey payload now
  | delete c hj hk he hc =>
    refine h.shrink (hj ▸ List.filter_sublist) hk fun u hu => ?_
    rw [Db.erasing, he] at hu
    exact hu
  | sweep now hC =>
    refine h.update (fun j _ hp => ?_) rfl rfl fun j _ her _ => her
    exact ⟨rfl, rfl, rfl, rfl, by simp [Job.expire], fun hr => by cases hr⟩
  | claim worker now leaseSeconds hworker hrow hready =>
    exact h.claim worker now leaseSeconds hrow hready
  | begin u now hC hj hk he hc =>
    refine h.update (fun j _ hp => ?_) hj hk fun j hjm her hr => ?_
    · exact ⟨rfl, rfl, rfl, rfl, by simp [Job.requeue], fun hr => by cases hr⟩
    · rcases he _ her with hold | hu
      · exact hold
      · -- no job of the user runs after the barrier went up
        rw [hj] at hjm
        rcases mem_updateWhere_cases hjm with ⟨-, hnot⟩ | ⟨j₀, -, -, rfl⟩
        · exact absurd ⟨hu, hr⟩ hnot
        · cases hr
  | saveResult worker id now result =>
    refine h.update (fun j hjm hp => ?_) rfl rfl fun j _ her _ => her
    exact ⟨rfl, rfl, rfl, rfl, h.claimed j hjm, fun hr => hr⟩
  | complete worker id now =>
    refine h.update (fun j _ hp => ?_) rfl rfl fun j _ her _ => her
    exact ⟨rfl, rfl, rfl, rfl, by simp [Job.complete], fun hr => by cases hr⟩
  | retry worker id attempts error maxAttempts now hR =>
    refine h.update (fun j _ hp => ?_) rfl rfl fun j _ her _ => her
    have hne := retryStatus_ne_running attempts maxAttempts
    exact ⟨rfl, rfl, rfl, rfl, by simp [Job.retry, hne], fun hr => absurd hr hne⟩

end OutboxSafe

/-! ### Every run -/

lemma outboxSafe_empty : OutboxSafe World.empty where
  ids := keyed_nil
  below := by simp [World.empty, Db.empty]
  keys := keyed_nil
  claimed := by simp [World.empty, Db.empty]
  exclusive := by simp [World.empty, Db.empty]
  erased := by simp [World.empty, Db.empty]

lemma OutboxSafe.act {w : World} (h : OutboxSafe w) (a : Action) : OutboxSafe (w.act a) :=
  JobMoves.preserve (fun _ _ hw hm => hw.move hm) (act_jobMoves (w.respects_any a)) h

theorem outboxSafe_after (as : List Action) : OutboxSafe (World.after as) :=
  Runs.run_preserves (fun _ a h => h.act a) outboxSafe_empty as

/-- The job `id` has ended, or has ended and is gone. -/
def World.Ended (id : Nat) (w : World) : Prop :=
  id < w.db.nextJobId ∧
    ∀ j ∈ w.db.jobs, j.id = id → j.status = .completed ∨ j.status = .dead

/-- Nothing revives an ended job, and no claim takes it. -/
lemma JobMove.ended {P : Policy} {w w' : World} {id : Nat} (hsafe : OutboxSafe w)
    (h : w.Ended id) (hmove : JobMove P w w') :
    w'.Ended id ∧ w'.history.claims.count id = w.history.claims.count id := by
  obtain ⟨hlt, hended⟩ := h
  have hnot : ∀ j ∈ w.db.jobs, j.id = id → j.status ≠ .running ∧ j.status ≠ .pending := by
    intro j hj hid
    rcases hended j hj hid with he | he <;> simp [he]
  have hupdate : ∀ {p : Job → Prop} [DecidablePred p] {f : Job → Job},
      (∀ j, (f j).id = j.id) → (∀ j ∈ w.db.jobs, p j → j.status = .running) →
      ∀ j ∈ updateWhere p f w.db.jobs, j.id = id → j.status = .completed ∨ j.status = .dead := by
    intro p _ f hf hp j hj hid
    rcases mem_updateWhere_cases hj with ⟨hold, -⟩ | ⟨j₀, hold, hpj, rfl⟩
    · exact hended j hold hid
    · exact absurd (hp j₀ hold hpj) (hnot j₀ hold ((hf j₀).symm.trans hid)).1
  cases hmove with
  | quiet hj hk he hc =>
    rw [hc]
    exact ⟨⟨hk ▸ hlt, by rw [hj]; exact hended⟩, rfl⟩
  | enqueue u cid tid kind dedupeKey payload now hE =>
    unfold Db.enqueue
    split
    · exact ⟨⟨hlt, hended⟩, rfl⟩
    · refine ⟨⟨Nat.lt_succ_of_lt hlt, fun j hj hid => ?_⟩, rfl⟩
      rcases List.mem_append.1 hj with hj | hj
      · exact hended j hj hid
      · rw [List.mem_singleton.1 hj] at hid
        exact absurd hlt (hid ▸ lt_irrefl _)
  | delete c hj hk he hc =>
    rw [hc]
    refine ⟨⟨hk ▸ hlt, fun j hjm => ?_⟩, rfl⟩
    rw [hj] at hjm
    exact hended j (mem_of_mem_deleteWhere hjm)
  | sweep now hC =>
    exact ⟨⟨hlt, hupdate (fun _ => rfl) fun j _ hp => OutboxSafe.expired_running hp⟩, rfl⟩
  | @claim row worker now leaseSeconds hworker hrow hready =>
    have hne : row.id ≠ id := fun hid => (hnot row hrow hid).2 hready.1
    refine ⟨⟨hlt, fun j hj hid => ?_⟩, ?_⟩
    · rcases mem_updateWhere_cases hj with ⟨hold, -⟩ | ⟨j₀, -, hp, rfl⟩
      · exact hended j hold hid
      · exact absurd (hp.1.symm.trans hid) hne
    · rw [List.count_append, List.count_singleton]
      simp [hne]
  | begin u now hC hj hk he hc =>
    rw [hc]
    exact ⟨⟨hk ▸ hlt, hj ▸ hupdate (fun _ => rfl) fun j _ hp => hp.2⟩, rfl⟩
  | saveResult worker id now result =>
    exact ⟨⟨hlt, hupdate (fun _ => rfl) fun j _ hp => hp.2.1⟩, rfl⟩
  | complete worker id now =>
    exact ⟨⟨hlt, hupdate (fun _ => rfl) fun j _ hp => hp.2.1⟩, rfl⟩
  | retry worker id attempts error maxAttempts now hR =>
    refine ⟨⟨hlt, hupdate (fun _ => rfl) fun j hj hp => ?_⟩, rfl⟩
    exact (hsafe.claimed j hj).1 (by simp [hp.2])

lemma World.Ended.run {w : World} {id : Nat} (hsafe : OutboxSafe w) (h : w.Ended id)
    (as : List Action) :
    (Runs.run World.act w as).Ended id ∧
      (Runs.run World.act w as).history.claims.count id = w.history.claims.count id := by
  refine Runs.run_preserves_under (I := OutboxSafe)
    (P := fun w' => w'.Ended id ∧ w'.history.claims.count id = w.history.claims.count id)
    (fun _ a h => h.act a) (fun w₁ a hsafe₁ h₁ => ?_) hsafe ⟨h, rfl⟩ as
  refine (JobMoves.preserve (I := fun w' => OutboxSafe w' ∧ w'.Ended id ∧
    w'.history.claims.count id = w.history.claims.count id) (fun w₂ w₃ h₂ hm => ?_)
    (act_jobMoves (w₁.respects_any a)) ⟨hsafe₁, h₁⟩).2
  obtain ⟨hsafe₂, hended₂, hcount₂⟩ := h₂
  obtain ⟨hended₃, hcount₃⟩ := hm.ended hsafe₂ hended₂
  exact ⟨hsafe₂.move hm, hended₃, hcount₃.trans hcount₂⟩

/-- The action is a write that `worker` makes for a job it claimed. -/
def World.WritesAs (w : World) (worker : Text) : Action → Prop
  | .saveJobResult worker' _ _ _ => worker' = worker
  | .completeJob worker' _ _ => worker' = worker
  | .writeRetry i _ _ _ => ∃ r, w.retries[i]? = some r ∧ r.worker = worker
  | _ => False

/-- A worker writes to the jobs it holds and to no other. -/
lemma World.WritesAs.mem {w : World} {worker : Text} {a : Action} (ha : w.WritesAs worker a)
    {j : Job} (hj : j ∈ w.db.jobs) (hlost : j.claimedBy ≠ some worker) :
    j ∈ (w.act a).db.jobs := by
  cases a with
  | saveJobResult worker' id now result =>
    cases ha
    have hmem : j ∈ updateWhere (Job.heldBy worker id) (·.saveResult result now) w.db.jobs :=
      mem_updateWhere_of_not hj fun hp => hlost hp.2.2
    simp only [World.act, saveBackgroundJobResult]
    split <;> exact hmem
  | completeJob worker' id now =>
    cases ha
    have hmem : j ∈ updateWhere (Job.heldBy worker id) (·.complete now) w.db.jobs :=
      mem_updateWhere_of_not hj fun hp => hlost hp.2.2
    simp only [World.act, completeBackgroundJob]
    split <;> exact hmem
  | writeRetry i error maxAttempts now =>
    obtain ⟨r, hr, rfl⟩ := ha
    simp only [World.act, hr]
    exact mem_updateWhere_of_not hj fun hp => hlost hp.2
  | _ => exact ha.elim

/-- In every reachable state a job is claimed exactly while it runs, one job of a conversation
runs at a time, an ended job never runs again, a dedupe key has one job, a worker that lost its
lease changes nothing of the job, and no job of a user under erasure is claimed. -/
theorem outbox_safe (as : List Action) :
    (∀ j ∈ (World.after as).db.jobs, j.claimedBy.isSome ↔ j.status = .running) ∧
    (∀ u cid, (World.after as).db.jobs.countP
      (fun j => j.userId = u ∧ j.conversationId = cid ∧ j.status = .running) ≤ 1) ∧
    (∀ j ∈ (World.after as).db.jobs, j.status = .completed ∨ j.status = .dead → ∀ as',
      ∀ j' ∈ (Runs.run World.act (World.after as) as').db.jobs, j'.id = j.id →
        j'.status ≠ .running) ∧
    (∀ u key, (World.after as).db.jobs.countP
      (fun j => j.userId = u ∧ j.dedupeKey = key) ≤ 1) ∧
    (∀ worker, ∀ j ∈ (World.after as).db.jobs, j.claimedBy ≠ some worker →
      ∀ a, (World.after as).WritesAs worker a → j ∈ ((World.after as).act a).db.jobs) ∧
    ∀ j ∈ (World.after as).db.jobs, (World.after as).db.erasing j.userId = true →
      j.claimedBy = none := by
  have h := outboxSafe_after as
  refine ⟨h.claimed, fun u cid => ?_, ?_, fun u key => ?_, ?_, ?_⟩
  · refine h.ids.countP_le_one fun j hj j' hj' => ?_
    rintro ⟨rfl, rfl, hr⟩ ⟨hu, hc, hr'⟩
    exact h.exclusive j hj j' hj' hr hr' hu.symm hc.symm
  · intro j hj hended as' j' hj' hid
    have hall : (World.after as).Ended j.id := by
      refine ⟨h.below j hj, fun j₁ hj₁ hid₁ => ?_⟩
      rw [h.ids.eq hj₁ hj hid₁]
      exact hended
    rcases (hall.run h as').1.2 j' hj' hid with he | he <;> simp [he]
  · refine h.keys.countP_le_one fun j _ j' _ => ?_
    rintro ⟨rfl, rfl⟩ ⟨hu, hk⟩
    rw [hu, hk]
  · intro worker j hj hlost a ha
    exact ha.mem hj hlost
  · intro j hj her
    have hclaimed := (h.claimed j hj).not.2 (h.erased j hj her)
    simpa using hclaimed

end RentCompass.Store
