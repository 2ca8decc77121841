import RentCompass.Tools.WriteOnce

/-!
# What a record says of the write

A record that says `failed` stands for a callable that raised or returned `success=false`, one that
says `complete` for a callable that succeeded; and a writer whose callable succeeded is not told
that the write failed.
-/

namespace RentCompass.Tools

open Rows Runs

variable {φ : Type}

/-- The callable raised or returned `success=false`. -/
def Execution.Failed (e : Execution φ) : Prop := .raised ∈ e.calls ∨ .unsuccessful ∈ e.calls

/-- The callable succeeded. -/
def Execution.Succeeded (e : Execution φ) : Prop := .success ∈ e.calls

/-- The records and the answers are true. -/
structure Processes.Honest (s : Processes φ) : Prop where
  failed : ∀ row ∈ s.ledger, row.status = .failed →
    ∃ e ∈ s.executions, e.claimed ∧ e.key = row.key ∧ e.Failed
  complete : ∀ row ∈ s.ledger, row.status = .complete →
    ∃ e ∈ s.executions, e.claimed ∧ e.key = row.key ∧ e.Succeeded
  kept : ∀ e ∈ s.executions, e.Succeeded →
    ∀ row ∈ s.ledger, row.key = e.key → row.status ≠ .failed
  told : ∀ e ∈ s.executions, e.Succeeded → ∀ r, e.stage = .returned r → r.success = true

def Choice.faults : Choice φ → Bool
  | .fault => true
  | .faultAfterCommit => true
  | _ => false

/-- The claim of the key is running. -/
def Ledger.Running (l : Ledger) (key : Text) : Prop := ∃ r ∈ l, r.key = key ∧ r.status = .running

/-- A statement that records or reports a failure that was none: the handler of an exception after
the callable succeeded, or before it was started; and a later unsuccessful attempt. -/
def Execution.Misreported (e : Execution φ) (l : Ledger) (choice : Choice φ) : Prop :=
  match e.stage with
  | .handle _ n => e.mayRetry n = false ∧ choice.faults = false ∧
      (e.Succeeded ∨ e.calls = [] ∧ l.Running e.key)
  | .record _ _ false _ _ => choice.faults = false ∧ e.Succeeded
  | _ => False

/-- What an execution knows of its calls. -/
structure Execution.Informed (e : Execution φ) : Prop where
  finish : ∀ kwargs n result, e.stage = .finish kwargs n result →
    if logicalSuccess result then e.Succeeded else e.Failed
  record : ∀ kwargs n success result persisted,
    e.stage = .record kwargs n success result persisted →
      if success then e.Succeeded else e.Failed
  unclaimed : e.claimed = false → e.calls = []

/-! ### Transactions and statuses -/

namespace Ledger

lemma status_expire {l : Ledger} {key : Text} {now : Instant} {r' : Invocation}
    (h : r' ∈ l.expire key now) : r' ∈ l ∨ r'.status = .unknown := by
  rcases mem_updateWhere_cases h with ⟨h, -⟩ | ⟨r, -, -, rfl⟩
  · exact .inl h
  · exact .inr rfl

lemma status_claim {l : Ledger} {key tool : Text} {now : Instant} {r' : Invocation}
    (h : r' ∈ (l.claim key tool now).2) :
    r' ∈ l ∨ r'.status = .unknown ∨ r'.status = .running := by
  unfold claim at h
  split at h
  · exact (status_expire h).imp_right .inl
  · rcases List.mem_append.1 h with h | h
    · exact (status_expire h).imp_right .inl
    · rw [List.mem_singleton.1 h]
      exact .inr (.inr rfl)

lemma status_markUnknown {l : Ledger} {key error : Text} {tool : Option Text} {now : Instant}
    {r' : Invocation} (h : r' ∈ l.markUnknown key error tool now) :
    r' ∈ l ∨ r'.status = .unknown := by
  unfold markUnknown at h
  split at h <;> rcases mem_updateWhere_cases h with ⟨h, hnot⟩ | ⟨r, -, -, rfl⟩
  · rcases List.mem_append.1 h with h | h
    · exact .inl h
    · rw [List.mem_singleton.1 h]
      exact .inr rfl
  · exact .inr rfl
  · exact .inl h
  · exact .inr rfl

lemma status_complete {l : Ledger} {key payload : Text} {now : Instant} {r' : Invocation}
    (h : r' ∈ l.complete key payload now) :
    r' ∈ l ∨ r'.status = .complete ∧ r'.key = key := by
  rcases mem_updateWhere_cases h with ⟨h, -⟩ | ⟨r, -, hr, rfl⟩
  · exact .inl h
  · exact .inr ⟨rfl, hr.1⟩

lemma status_fail {l : Ledger} {key error : Text} {payload : Option Text} {now : Instant}
    {r' : Invocation} (h : r' ∈ l.fail key error payload now) :
    r' ∈ l ∨ r'.status = .failed ∧ r'.key = key ∧ l.Running key := by
  rcases mem_updateWhere_cases h with ⟨h, -⟩ | ⟨r, hr, hrun, rfl⟩
  · exact .inl h
  · exact .inr ⟨rfl, hrun.1, r, hr, hrun⟩

/-- A running claim that fails has a failed record. -/
lemma fail_of_running {l : Ledger} {key : Text} (h : l.Running key) (error : Text)
    (payload : Option Text) (now : Instant) :
    ∃ r ∈ l.fail key error payload now, r.key = key ∧ r.status = .failed := by
  obtain ⟨r, hr, hrun⟩ := h
  refine ⟨_, mem_updateWhere.2 ⟨r, hr, rfl⟩, ?_⟩
  rw [if_pos hrun]
  exact ⟨hrun.1, rfl⟩

end Ledger

variable [FloatFormat φ]

namespace Execution

variable (e : Execution φ) (l : Ledger) (now : Instant) (choice : Choice φ)

/-- The statement records an outcome. -/
def Records : InvocationStatus → Prop
  | .complete => ∃ kwargs n result persisted, e.stage = .record kwargs n true result persisted
  | .failed => l.Running e.key ∧ choice.faults = false ∧
      ((∃ kwargs n result persisted, e.stage = .record kwargs n false result persisted) ∨
        ∃ kwargs n, e.stage = .handle kwargs n ∧ e.mayRetry n = false)
  | _ => False

/-- Where a row of the ledger comes from that a statement leaves: it was there, its outcome is open,
or the statement recorded it. -/
lemma status_step {r' : Invocation} (h : r' ∈ (e.step l now choice).2) :
    r' ∈ l ∨ r'.status = .running ∨ r'.status = .unknown ∨
      r'.key = e.key ∧ e.Records l choice r'.status := by
  have hexpire : r' ∈ l.expire e.key now → r' ∈ l ∨ r'.status = .running ∨ r'.status = .unknown ∨
      r'.key = e.key ∧ e.Records l choice r'.status :=
    fun h => (Ledger.status_expire h).imp_right fun h => .inr (.inl h)
  unfold step at h
  split at h
  next =>
    left
    repeat' split at h
    all_goals exact h
  next =>
    repeat' split at h
    all_goals exact hexpire h
  next =>
    split_ifs at h <;> rcases Ledger.status_claim h with h | h | h
    all_goals first
      | exact .inl h
      | exact .inr (.inr (.inl h))
      | exact .inr (.inl h)
  next => exact hexpire h
  next =>
    left
    split_ifs at h <;> exact h
  next =>
    left
    repeat' split at h
    all_goals exact h
  next =>
    left
    repeat' split at h
    all_goals exact h
  next kwargs n success result persisted hs =>
    cases success with
    | true =>
      have hrecord : r' ∈ e.recording l now true result persisted → r' ∈ l ∨
          r'.status = .running ∨ r'.status = .unknown ∨
            r'.key = e.key ∧ e.Records l choice r'.status := by
        refine fun h => (Ledger.status_complete h).imp_right fun h => .inr (.inr ⟨h.2, ?_⟩)
        rw [h.1]
        exact ⟨kwargs, n, result, persisted, hs⟩
      split at h
      · exact .inl h
      · exact hrecord h
      · exact hrecord h
    | false =>
      split at h
      · exact .inl h
      · exact .inl h
      · next hnot₁ hnot₂ =>
        refine (Ledger.status_fail h).imp_right fun h => .inr (.inr ⟨h.2.1, ?_⟩)
        rw [h.1]
        refine ⟨h.2.2, ?_, .inl ⟨kwargs, n, result, persisted, hs⟩⟩
        cases choice <;> simp [Choice.faults] at hnot₁ hnot₂ ⊢
  next kwargs n hs =>
    split_ifs at h with hretry
    · exact .inl h
    · split at h
      · exact .inl h
      · exact .inl h
      · next hnot₁ hnot₂ =>
        refine (Ledger.status_fail h).imp_right fun h => .inr (.inr ⟨h.2.1, ?_⟩)
        rw [h.1]
        refine ⟨h.2.2, ?_, .inr ⟨kwargs, n, hs, by simpa using hretry⟩⟩
        cases choice <;> simp [Choice.faults] at hnot₁ hnot₂ ⊢
  next =>
    left
    split at h <;> exact h
  next =>
    split at h
    · exact .inl h
    · have h : r' ∈ l.markUnknown e.key cancelledError none now := h
      exact (Ledger.status_markUnknown h).imp_right fun h => .inr (.inl h)
  next => exact .inl h
  next => exact .inl h

/-- A statement keeps the calls that ended, or adds one that was under way. -/
lemma step_calls : (e.step l now choice).1.calls = e.calls ∨
    (∃ kwargs n, e.stage = .calling kwargs n) ∧ ∃ c, (e.step l now choice).1.calls = c :: e.calls := by
  unfold step
  split
  case h_6 kwargs n hs =>
    split
    · exact .inr ⟨⟨kwargs, n, hs⟩, _, rfl⟩
    · exact .inr ⟨⟨kwargs, n, hs⟩, _, rfl⟩
    · exact .inl rfl
    · exact .inl rfl
  all_goals
    left
    repeat' split
    all_goals rfl

lemma calls_subset : e.calls ⊆ (e.step l now choice).1.calls := by
  rcases e.step_calls l now choice with h | ⟨-, c, h⟩
  · rw [h]
    exact fun _ h => h
  · rw [h]
    exact List.subset_cons_self _ _

/-- A callable that has succeeded had succeeded before, or was under way. -/
lemma succeeded_step (h : (e.step l now choice).1.Succeeded) :
    e.Succeeded ∨ ∃ kwargs n, e.stage = .calling kwargs n := by
  unfold Succeeded at h ⊢
  rcases e.step_calls l now choice with hcalls | ⟨hs, -⟩
  · exact .inl (hcalls ▸ h)
  · exact .inr hs

omit [FloatFormat φ] in
lemma Failed.mono {e e' : Execution φ} (h : e.Failed) (hsub : e.calls ⊆ e'.calls) : e'.Failed :=
  h.imp (fun h => hsub h) fun h => hsub h

omit [FloatFormat φ] in
lemma failed_of_not_succeeded (hne : e.calls ≠ []) (h : ¬ e.Succeeded) : e.Failed := by
  obtain ⟨c, hc⟩ := List.exists_mem_of_ne_nil _ hne
  cases c with
  | success => exact absurd hc h
  | unsuccessful => exact .inr hc
  | raised => exact .inl hc

/-- A statement of an informed execution. -/
lemma step_informed (hsound : e.Sound) (h : e.Informed) : (e.step l now choice).1.Informed := by
  have hunclaimed : (e.step l now choice).1.claimed = false →
      (e.step l now choice).1.calls = [] := by
    intro hfree
    have hfree₀ : e.claimed = false := by
      by_contra hc
      have := e.step_keeps_claim l now choice (by simpa using hc)
      rw [hfree] at this
      exact absurd this Bool.false_ne_true
    rcases e.step_calls l now choice with hcalls | ⟨⟨kwargs, n, hs⟩, -⟩
    · rw [hcalls, h.unclaimed hfree₀]
    · have := hsound.writing (by rw [hs]; rfl) (by rw [hs]; rfl)
      rw [hfree₀] at this
      exact absurd this Bool.false_ne_true
  refine ⟨fun kwargs n result hs' => ?_, fun kwargs n success result persisted hs' => ?_, hunclaimed⟩
  · -- the result was just returned
    unfold step at hs' ⊢
    split at hs'
    case h_6 kwargs₀ n₀ hs =>
      split at hs'
      · next result₀ =>
        rw [← (Stage.finish.inj hs').2.2]
        by_cases hsuccess : logicalSuccess result₀ <;>
          simp [hsuccess, Succeeded, Failed]
      · exact absurd hs' (by simp)
      · exact absurd hs' (by simp)
      · exact absurd (hs.symm.trans hs') (by simp)
    all_goals
      revert hs'
      repeat' split
      all_goals simp_all
  · -- the result was just prepared
    have hcalls := e.step_calls l now choice
    generalize hnext : e.step l now choice = next at hs' hcalls ⊢
    unfold step at hnext
    split at hnext
    case h_7 kwargs₀ n₀ result₀ hs =>
      have hfinish := h.finish kwargs₀ n₀ result₀ hs
      have hcalls : next.1.calls = e.calls := hcalls.resolve_right (by simp [hs])
      split_ifs at hnext with hretry
      · simp [← hnext] at hs'
      · split at hnext
        · rw [← hnext] at hs'
          rw [← (Stage.record.inj hs').2.2.1]
          simpa [Succeeded, Failed, hcalls] using hfinish
        · simp [← hnext] at hs'
    all_goals
      rw [← hnext] at hs'
      revert hs'
      repeat' split
      all_goals simp_all

/-- An execution whose callable succeeded is told so, unless the statement misreports. -/
lemma told_step (hsound : e.Sound) (hinformed : e.Informed) (h : ¬ e.Misreported l choice)
    (htold : ∀ r, e.stage = .returned r → r.success = true) (hsuccess : e.Succeeded) :
    ∀ r, (e.step l now choice).1.stage = .returned r → r.success = true := by
  intro r hr
  have hclaimed : e.claimed = true := by
    by_contra hc
    have := hinformed.unclaimed (by simpa using hc)
    simp [Succeeded, this] at hsuccess
  have hlate : e.stage.before = false := by
    by_contra hb
    rw [hsound.before (by simpa using hb)] at hclaimed
    exact absurd hclaimed Bool.false_ne_true
  unfold step at hr
  unfold Misreported at h
  cases hs : e.stage with
  | begin => simp [hs, Stage.before] at hlate
  | lookUp kwargs => simp [hs, Stage.before] at hlate
  | claim kwargs => simp [hs, Stage.before] at hlate
  | readBack => simp [hs, Stage.before] at hlate
  | record kwargs n success result persisted =>
    rw [hs] at hr h
    cases success with
    | true =>
      cases choice <;> simp at hr
      all_goals
        subst hr
        rfl
    | false => cases choice <;> simp [Choice.faults, hsuccess] at hr h
  | handle kwargs n =>
    rw [hs] at hr h
    cases hretry : e.mayRetry n with
    | true => simp [hretry] at hr
    | false => cases choice <;> simp [hretry, Choice.faults, hsuccess] at hr h
  | returned r₀ =>
    rw [hs] at hr
    exact htold r (by rw [hs]; simpa [hs] using hr)
  | _ =>
    rw [hs] at hr
    revert hr
    dsimp only
    repeat' split
    all_goals simp [hs]

end Execution

/-! ### The invariant -/

omit [FloatFormat φ] in
/-- The invariant: what is recorded and told is true, and a writer under way has no failed record. -/
structure Processes.Reliable (s : Processes φ) : Prop where
  coherent : s.Coherent
  informed : ∀ e ∈ s.executions, e.Informed
  honest : s.Honest
  live : ∀ e ∈ s.executions, e.claimed → e.stage.ended = false →
    ∀ row ∈ s.ledger, row.key = e.key → row.status ≠ .failed

omit [FloatFormat φ] in
lemma Processes.reliable_empty : (Processes.empty : Processes φ).Reliable where
  coherent := Processes.coherent_empty
  informed := by simp [Processes.empty]
  honest := ⟨by simp [Processes.empty], by simp [Processes.empty], by simp [Processes.empty],
    by simp [Processes.empty]⟩
  live := by simp [Processes.empty]

lemma mem_set_index {α : Type} {l : List α} {i : Nat} {a b : α} (h : b ∈ l.set i a) :
    b = a ∨ ∃ j, j ≠ i ∧ l[j]? = some b := by
  obtain ⟨j, hj⟩ := List.mem_iff_getElem?.1 h
  by_cases hij : i = j
  · subst hij
    have hlt : i < l.length := by
      have := (List.getElem?_eq_some_iff.1 hj).1
      simpa using this
    rw [List.getElem?_set_self hlt] at hj
    exact .inl (Option.some.inj hj).symm
  · rw [List.getElem?_set_ne hij] at hj
    exact .inr ⟨j, Ne.symm hij, hj⟩

omit [FloatFormat φ] in
/-- What holds of a writer holds after a statement, of the writer itself where it moved. -/
lemma exists_mem_set {s : Processes φ} {i : Nat} {e e' : Execution φ} (hi : s.executions[i]? = some e)
    {P : Execution φ → Prop} (hP : P e → P e') (h : ∃ x ∈ s.executions, P x) :
    ∃ x ∈ s.executions.set i e', P x := by
  obtain ⟨x, hx, hPx⟩ := h
  obtain ⟨j, hj⟩ := List.mem_iff_getElem?.1 hx
  by_cases hij : i = j
  · subst hij
    have : x = e := Option.some.inj (hj.symm.trans hi)
    subst this
    exact ⟨e', List.mem_set (List.getElem?_eq_some_iff.1 hi).1 _, hP hPx⟩
  · exact ⟨x, List.mem_of_getElem? (by rw [List.getElem?_set_ne hij]; exact hj), hPx⟩

omit [FloatFormat φ] in
/-- Transactions that open outcomes only, with no statement of an execution. -/
lemma Processes.Reliable.of_open {s : Processes φ} (h : s.Reliable) {l : Ledger}
    (hcoherent : ({ s with ledger := l } : Processes φ).Coherent)
    (hl : ∀ row ∈ l, row ∈ s.ledger ∨ row.status = .unknown) :
    ({ s with ledger := l } : Processes φ).Reliable := by
  have hold : ∀ row ∈ l, row.status ≠ .unknown → row ∈ s.ledger := fun row hrow hne =>
    (hl row hrow).resolve_right hne
  refine ⟨hcoherent, h.informed, ⟨fun row hrow hs => ?_, fun row hrow hs => ?_,
    fun e he hsuccess row hrow hkey hs => ?_, h.honest.told⟩, fun e he hc hended row hrow hkey hs => ?_⟩
  · exact h.honest.failed row (hold row hrow (by simp [hs])) hs
  · exact h.honest.complete row (hold row hrow (by simp [hs])) hs
  · exact h.honest.kept e he hsuccess row (hold row hrow (by simp [hs])) hkey hs
  · exact h.live e he hc hended row (hold row hrow (by simp [hs])) hkey hs

lemma Processes.Reliable.step {s : Processes φ} (h : s.Reliable) {i : Nat} {e : Execution φ}
    (hi : s.executions[i]? = some e) {now : Instant} {choice : Choice φ}
    (hbad : ¬ e.Misreported s.ledger choice) : (s.act (.step i now choice)).Reliable := by
  have hcoherent := h.coherent.act (.step i now choice)
  rw [Processes.act_step hi] at hcoherent ⊢
  have hmem : e ∈ s.executions := List.mem_of_getElem? hi
  have hsound := h.coherent.sound e hmem
  have hinformed := h.informed e hmem
  obtain ⟨-, hkey, -⟩ := e.step_same s.ledger now choice
  have hcalls := e.calls_subset s.ledger now choice
  have hkeep := e.step_keeps_claim s.ledger now choice
  have hself : (e.step s.ledger now choice).1 ∈
      s.executions.set i (e.step s.ledger now choice).1 :=
    List.mem_set (List.getElem?_eq_some_iff.1 hi).1 _
  -- a statement that records is one of the writer, who then has the call the record tells of
  have hrecords : ∀ status, e.Records s.ledger choice status → e.claimed ∧
      (status = .complete → e.Succeeded) ∧ (status = .failed → e.Failed ∧ ¬ e.Succeeded ∧
        (e.step s.ledger now choice).1.stage.ended) := by
    intro status hstatus
    cases status with
    | complete =>
      obtain ⟨kwargs, n, result, persisted, hs⟩ := hstatus
      have := hinformed.record kwargs n true result persisted hs
      exact ⟨hsound.writing (by rw [hs]; rfl) (by rw [hs]; rfl), fun _ => by simpa using this,
        by simp⟩
    | failed =>
      obtain ⟨hrunning, hfaults, ⟨kwargs, n, result, persisted, hs⟩ | ⟨kwargs, n, hs, hretry⟩⟩ :=
        hstatus
      · have := hinformed.record kwargs n false result persisted hs
        refine ⟨hsound.writing (by rw [hs]; rfl) (by rw [hs]; rfl), by simp, fun _ =>
          ⟨by simpa using this, fun hsuccess => hbad ?_, ?_⟩⟩
        · rw [Execution.Misreported, hs]
          exact ⟨hfaults, hsuccess⟩
        · unfold Execution.step
          rw [hs]
          cases choice <;> simp [Choice.faults] at hfaults <;> rfl
      · have hnot : ¬ (e.Succeeded ∨ e.calls = [] ∧ s.ledger.Running e.key) := by
          rw [Execution.Misreported, hs] at hbad
          exact fun hor => hbad ⟨hretry, hfaults, hor⟩
        refine ⟨hsound.writing (by rw [hs]; rfl) (by rw [hs]; rfl), by simp, fun _ =>
          ⟨e.failed_of_not_succeeded (fun hnil => hnot (.inr ⟨hnil, hrunning⟩))
            fun hsuccess => hnot (.inl hsuccess), fun hsuccess => hnot (.inl hsuccess), ?_⟩⟩
        unfold Execution.step
        rw [hs]
        simp only [hretry, Bool.false_eq_true, if_false]
        cases choice <;> simp [Choice.faults] at hfaults <;> rfl
    | running => exact hstatus.elim
    | unknown => exact hstatus.elim
  -- where a failed row comes from
  have hfailedRow : ∀ row ∈ (e.step s.ledger now choice).2, row.status = .failed →
      row ∈ s.ledger ∨ row.key = e.key ∧ e.Records s.ledger choice .failed := by
    intro row hrow hs
    rcases e.status_step s.ledger now choice hrow with hold | hopen | hopen | ⟨hk, hr⟩
    · exact .inl hold
    · simp [hs] at hopen
    · simp [hs] at hopen
    · exact .inr ⟨hk, hs ▸ hr⟩
  refine ⟨hcoherent, fun x hx => ?_, ⟨fun row hrow hs => ?_, fun row hrow hs => ?_,
    fun x hx hsuccess row hrow hrk hs => ?_, fun x hx hsuccess => ?_⟩,
    fun x hx hc hended row hrow hrk hs => ?_⟩
  · rcases mem_set_cases hx with rfl | hx
    · exact e.step_informed _ _ _ hsound hinformed
    · exact h.informed x hx
  · rcases hfailedRow row hrow hs with hold | ⟨hk, hr⟩
    · exact exists_mem_set hi
        (P := fun x => x.claimed ∧ x.key = row.key ∧ x.Failed)
        (fun hx => ⟨hkeep hx.1, hkey.trans hx.2.1, hx.2.2.mono hcalls⟩)
        (h.honest.failed row hold hs)
    · obtain ⟨hc, -, hf⟩ := hrecords _ hr
      exact ⟨_, hself, hkeep hc, hkey.trans hk.symm, (hf rfl).1.mono hcalls⟩
  · rcases e.status_step s.ledger now choice hrow with hold | hopen | hopen | ⟨hk, hr⟩
    · exact exists_mem_set hi
        (P := fun x => x.claimed ∧ x.key = row.key ∧ x.Succeeded)
        (fun hx => ⟨hkeep hx.1, hkey.trans hx.2.1, hcalls hx.2.2⟩)
        (h.honest.complete row hold hs)
    · simp [hs] at hopen
    · simp [hs] at hopen
    · obtain ⟨hc, hsuccess, -⟩ := hrecords _ hr
      exact ⟨_, hself, hkeep hc, hkey.trans hk.symm, hcalls (hsuccess hs)⟩
  · rcases hfailedRow row hrow hs with hold | ⟨hk, hr⟩
    · rcases mem_set_index hx with rfl | ⟨j, -, hj⟩
      · rw [hkey] at hrk
        rcases e.succeeded_step _ _ _ hsuccess with hsuccess | ⟨kwargs, n, hcalling⟩
        · exact h.honest.kept e hmem hsuccess row hold hrk hs
        · have hc := hsound.writing (by rw [hcalling]; rfl) (by rw [hcalling]; rfl)
          exact h.live e hmem hc (by rw [hcalling]; rfl) row hold hrk hs
      · exact h.honest.kept x (List.mem_of_getElem? hj) hsuccess row hold hrk hs
    · obtain ⟨hc, -, hf⟩ := hrecords _ hr
      rcases mem_set_index hx with rfl | ⟨j, hji, hj⟩
      · rcases e.succeeded_step _ _ _ hsuccess with hsuccess | ⟨kwargs, n, hcalling⟩
        · exact (hf rfl).2.1 hsuccess
        · rcases hr with ⟨-, -, ⟨_, _, _, _, hs'⟩ | ⟨_, _, hs', -⟩⟩ <;>
            exact absurd (hcalling.symm.trans hs') (by simp)
      · have hxc : x.claimed := by
          by_contra hxc
          have := (h.informed x (List.mem_of_getElem? hj)).unclaimed (by simpa using hxc)
          simp [Execution.Succeeded, this] at hsuccess
        exact hji (h.coherent.one j i x e hj hi hxc hc (hrk.symm.trans hk))
  · rcases mem_set_index hx with rfl | ⟨j, -, hj⟩
    · intro r hr
      rcases e.succeeded_step _ _ _ hsuccess with hsuccess | ⟨kwargs, n, hcalling⟩
      · exact e.told_step _ _ _ hsound hinformed hbad
          (fun r hr => h.honest.told e hmem hsuccess r hr) hsuccess r hr
      · unfold Execution.step at hr
        rw [hcalling] at hr
        cases choice <;> simp [hcalling] at hr
    · exact h.honest.told x (List.mem_of_getElem? hj) hsuccess
  · rcases hfailedRow row hrow hs with hold | ⟨hk, hr⟩
    · rcases mem_set_index hx with rfl | ⟨j, -, hj⟩
      · rw [hkey] at hrk
        rcases e.step_claimed s.ledger now choice hc with hc | ⟨-, hwon⟩
        · by_cases hended₀ : e.stage.ended = false
          · exact h.live e hmem hc hended₀ row hold hrk hs
          · have : (e.step s.ledger now choice).1 = e := by
              unfold Execution.step
              cases hstage : e.stage <;> simp [hstage, Stage.ended] at hended₀ <;> rfl
            rw [this] at hended
            exact hended₀ hended
        · exact (claim_won hwon).1 row hold hrk
      · exact h.live x (List.mem_of_getElem? hj) hc hended row hold hrk hs
    · obtain ⟨hc', -, hf⟩ := hrecords _ hr
      rcases mem_set_index hx with rfl | ⟨j, hji, hj⟩
      · rw [(hf rfl).2.2] at hended
        exact absurd hended (by simp)
      · exact hji (h.coherent.one j i x e hj hi hc hc' (hrk.symm.trans hk))

/-- No statement of the action misreports. -/
def Processes.Fair (s : Processes φ) (a : Action φ) : Prop :=
  s.OnStep (fun e l _ choice => ¬ e.Misreported l choice) a

lemma Processes.Reliable.act {s : Processes φ} (h : s.Reliable) {a : Action φ} (ha : s.Fair a) :
    (s.act a).Reliable := by
  cases a with
  | execute tool key params =>
    have hcoherent := h.coherent.act (.execute tool key params)
    have hcalls : (Execution.called tool key params).calls = [] := rfl
    refine ⟨hcoherent, fun x hx => ?_, ⟨fun row hrow hs => ?_, fun row hrow hs => ?_,
      fun x hx hsuccess => ?_, fun x hx hsuccess => ?_⟩, fun x hx hc => ?_⟩
    · rcases List.mem_append.1 hx with hx | hx
      · exact h.informed x hx
      · rw [List.mem_singleton.1 hx]
        exact ⟨by simp [Execution.called], by simp [Execution.called], fun _ => rfl⟩
    · obtain ⟨x, hx, hrest⟩ := h.honest.failed row hrow hs
      exact ⟨x, List.mem_append_left _ hx, hrest⟩
    · obtain ⟨x, hx, hrest⟩ := h.honest.complete row hrow hs
      exact ⟨x, List.mem_append_left _ hx, hrest⟩
    · rcases List.mem_append.1 hx with hx | hx
      · exact h.honest.kept x hx hsuccess
      · rw [List.mem_singleton.1 hx, Execution.Succeeded, hcalls] at hsuccess
        simp at hsuccess
    · rcases List.mem_append.1 hx with hx | hx
      · exact h.honest.told x hx hsuccess
      · rw [List.mem_singleton.1 hx, Execution.Succeeded, hcalls] at hsuccess
        simp at hsuccess
    · rcases List.mem_append.1 hx with hx | hx
      · exact h.live x hx hc
      · rw [List.mem_singleton.1 hx] at hc
        exact absurd hc Bool.false_ne_true
  | step i now choice =>
    cases hi : s.executions[i]? with
    | none => rwa [Processes.act_step_of_none hi]
    | some e => exact h.step hi (ha e hi)
  | release key now =>
    exact h.of_open (h.coherent.act (.release key now)) fun row hrow =>
      Ledger.status_markUnknown hrow
  | markUnknown key error tool now =>
    exact h.of_open (h.coherent.act (.markUnknown key error tool now)) fun row hrow =>
      Ledger.status_markUnknown hrow

/-- A statement that misreports leaves a state that is not honest. -/
lemma Processes.not_honest_of_misreported {s : Processes φ} (h : s.Reliable) {a : Action φ}
    (ha : ¬ s.Fair a) : ¬ (s.act a).Honest := by
  cases a with
  | step i now choice =>
    simp only [Processes.Fair, Processes.OnStep, not_forall, not_not] at ha
    obtain ⟨e, hi, hbad⟩ := ha
    have hi : s.executions[i]? = some e := hi
    have hmem : e ∈ s.executions := List.mem_of_getElem? hi
    have hsound := h.coherent.sound e hmem
    rw [Processes.act_step hi]
    intro honest
    have hself : (e.step s.ledger now choice).1 ∈
        s.executions.set i (e.step s.ledger now choice).1 :=
      List.mem_set (List.getElem?_eq_some_iff.1 hi).1 _
    have hsuccess : e.Succeeded → (e.step s.ledger now choice).1.Succeeded := fun hsuccess =>
      e.calls_subset s.ledger now choice hsuccess
    unfold Execution.Misreported at hbad
    split at hbad
    next kwargs n hs =>
      obtain ⟨hretry, hfaults, hbad⟩ := hbad
      have hstep : e.step s.ledger now choice = (e.goTo (.returned e.executionFailed),
          s.ledger.fail e.key Execution.handledError none now) := by
        unfold Execution.step
        rw [hs]
        cases choice <;> simp [hretry, Choice.faults] at hfaults ⊢
      rcases hbad with hsucceeded | ⟨hnil, hrunning⟩
      · have := honest.told _ hself (hsuccess hsucceeded) e.executionFailed (by rw [hstep]; rfl)
        exact absurd this Bool.false_ne_true
      · -- the only writer of the key has not called its callable
        have hc := hsound.writing (by rw [hs]; rfl) (by rw [hs]; rfl)
        obtain ⟨row, hrow, hk, hfailed⟩ :=
          Ledger.fail_of_running hrunning Execution.handledError none now
        obtain ⟨x, hx, hxc, hxk, hxf⟩ := honest.failed row (by rw [hstep]; exact hrow) hfailed
        rcases mem_set_index hx with rfl | ⟨j, hji, hj⟩
        · rw [Execution.Failed, hstep] at hxf
          simp [hnil] at hxf
        · exact hji (h.coherent.one j i x e hj hi hxc hc (hxk.trans hk))
    next kwargs n result persisted hs =>
      obtain ⟨hfaults, hsucceeded⟩ := hbad
      have hstep : (e.step s.ledger now choice).1.stage =
          .returned (e.finished false result) := by
        unfold Execution.step
        rw [hs]
        cases choice <;> simp [Choice.faults] at hfaults ⊢
      have := honest.told _ hself (hsuccess hsucceeded) _ hstep
      exact absurd this Bool.false_ne_true
    next => exact hbad.elim
  | _ => exact absurd trivial ha

/-- The callable saves, and `complete` raises. -/
def unrecordedSave : List (Action NonFinite) :=
  [.execute rememberTool (Text.ofString "k") [], .step 0 0 .proceed, .step 0 0 .proceed,
    .step 0 0 .proceed, .step 0 0 .proceed, .step 0 0 (.returns savedResult), .step 0 0 .proceed,
    .step 0 0 .fault, .step 0 0 .proceed]

end RentCompass.Tools
