import Mathlib.Tactic.Lemma
import Mathlib.Data.Finset.Card
import Mathlib.Data.Finset.Dedup
import Mathlib.Data.Finset.Lattice.Basic
import Mathlib.Logic.Relation

/-!
# Dependency waves

Tasks carry a key and name the keys they need. A wave is every task that has not run and whose
needs are met; running it adds its keys to the keys that are done. Nothing is assumed of the
tasks: keys may repeat, needs may be unknown or circular. What the waves never reach is what no
order could reach.
-/

namespace Waves

variable {ι τ : Type*} [DecidableEq ι] (key : τ → ι) (needs : τ → List ι)

/-- The tasks that have not run and whose needs are met. -/
def ready (plan : List τ) (done : Finset ι) : List τ :=
  plan.filter fun t => decide (key t ∉ done) && (needs t).all (· ∈ done)

@[simp] lemma mem_ready {plan : List τ} {done : Finset ι} {t : τ} :
    t ∈ ready key needs plan done ↔ t ∈ plan ∧ key t ∉ done ∧ ∀ d ∈ needs t, d ∈ done := by
  simp [ready]

/-- The keys done after `k` waves. -/
def after (plan : List τ) (done : Finset ι) : ℕ → Finset ι
  | 0 => done
  | k + 1 => after plan done k ∪ ((ready key needs plan (after plan done k)).map key).toFinset

/-- The `k`-th wave. -/
def wave (plan : List τ) (done : Finset ι) (k : ℕ) : List τ :=
  ready key needs plan (after key needs plan done k)

variable {key needs} {plan : List τ} {done : Finset ι}

@[simp] lemma after_zero : after key needs plan done 0 = done := rfl

lemma after_succ (k : ℕ) : after key needs plan done (k + 1) =
    after key needs plan done k ∪ ((wave key needs plan done k).map key).toFinset := rfl

@[simp] lemma mem_wave {k : ℕ} {t : τ} : t ∈ wave key needs plan done k ↔
    t ∈ plan ∧ key t ∉ after key needs plan done k ∧
      ∀ d ∈ needs t, d ∈ after key needs plan done k := by
  simp [wave]

@[simp] lemma mem_after_succ {k : ℕ} {i : ι} : i ∈ after key needs plan done (k + 1) ↔
    i ∈ after key needs plan done k ∨ ∃ t ∈ wave key needs plan done k, key t = i := by
  simp [after_succ]

lemma after_mono : Monotone (after key needs plan done) := by
  apply monotone_nat_of_le_succ
  intro k
  rw [after_succ]
  exact Finset.subset_union_left

/-- A task is in one wave at most. -/
lemma wave_unique {j k : ℕ} {t u : τ} (ht : t ∈ wave key needs plan done j)
    (hu : u ∈ wave key needs plan done k) (h : key t = key u) : j = k := by
  have aux : ∀ {j k : ℕ} {t u : τ}, t ∈ wave key needs plan done j →
      u ∈ wave key needs plan done k → key t = key u → ¬ j < k := by
    intro j k t u ht hu h hjk
    have : key t ∈ after key needs plan done k :=
      after_mono hjk (mem_after_succ.2 (Or.inr ⟨t, ht, rfl⟩))
    rw [h] at this
    exact (mem_wave.1 hu).2.1 this
  apply le_antisymm
  · exact not_lt.1 (aux hu ht h.symm)
  · exact not_lt.1 (aux ht hu h)

/-- Once a wave is empty nothing changes any more. -/
lemma after_of_wave_nil {k : ℕ} (h : wave key needs plan done k = []) {j : ℕ} (hj : k ≤ j) :
    after key needs plan done j = after key needs plan done k := by
  induction j, hj using Nat.le_induction with
  | base => rfl
  | succ j _ ih =>
    have : wave key needs plan done j = [] := by
      rw [wave, ih]
      exact h
    simp [after_succ, this, ih]

lemma wave_of_wave_nil {k : ℕ} (h : wave key needs plan done k = []) {j : ℕ} (hj : k ≤ j) :
    wave key needs plan done j = [] := by
  rw [wave, after_of_wave_nil h hj]
  exact h

/-- Waves that are not empty each finish a key of the plan. -/
lemma le_card_after {k : ℕ} (h : ∀ j < k, wave key needs plan done j ≠ []) :
    k ≤ (after key needs plan done k \ done).card := by
  induction k with
  | zero => exact Nat.zero_le _
  | succ k ih =>
    have hk := ih fun j hj => h j (by omega)
    obtain ⟨t, ht⟩ := List.exists_mem_of_ne_nil _ (h k (by omega))
    have hnew : key t ∉ after key needs plan done k := (mem_wave.1 ht).2.1
    have hlt : after key needs plan done k \ done ⊂ after key needs plan done (k + 1) \ done := by
      rw [Finset.ssubset_iff_of_subset (Finset.sdiff_subset_sdiff (after_mono k.le_succ) le_rfl)]
      refine ⟨key t, ?_, ?_⟩
      · simp only [Finset.mem_sdiff, mem_after_succ]
        exact ⟨Or.inr ⟨t, ht, rfl⟩, fun hd => hnew (after_mono k.zero_le hd)⟩
      · simp [hnew]
    have := Finset.card_lt_card hlt
    omega

lemma after_subset (k : ℕ) :
    after key needs plan done k ⊆ done ∪ (plan.map key).toFinset := by
  induction k with
  | zero => exact Finset.subset_union_left
  | succ k ih =>
    intro i hi
    rcases mem_after_succ.1 hi with hi | ⟨t, ht, rfl⟩
    · exact ih hi
    · simp only [Finset.mem_union, List.mem_toFinset, List.mem_map]
      exact Or.inr ⟨t, (mem_wave.1 ht).1, rfl⟩

/-- There are no more waves than tasks. -/
theorem wave_length : wave key needs plan done plan.length = [] := by
  by_contra hne
  have hall : ∀ j < plan.length + 1, wave key needs plan done j ≠ [] := by
    intro j hj hnil
    exact hne (wave_of_wave_nil hnil (by omega))
  have hcard := le_card_after hall
  have hsub : after key needs plan done (plan.length + 1) \ done ⊆ (plan.map key).toFinset := by
    intro i hi
    obtain ⟨hi, hd⟩ := Finset.mem_sdiff.1 hi
    exact (Finset.mem_union.1 (after_subset _ hi)).resolve_left hd
  have := (Finset.card_le_card hsub).trans (List.toFinset_card_le _)
  simp at this
  omega

/-- The tasks of the first `k` waves. -/
lemma after_eq_union (k : ℕ) : after key needs plan done k =
    done ∪ (((List.range k).flatMap (wave key needs plan done)).map key).toFinset := by
  induction k with
  | zero => simp
  | succ k ih =>
    rw [after_succ, ih]
    simp [List.range_succ, Finset.union_assoc]

lemma filter_or_perm {p q : τ → Bool} (h : ∀ t ∈ plan, p t → q t = false) :
    (plan.filter fun t => p t || q t).Perm (plan.filter p ++ plan.filter q) := by
  have hp : (plan.filter fun t => p t || q t).filter p = plan.filter p := by
    rw [List.filter_filter]
    apply List.filter_congr
    intro t _
    cases p t <;> simp
  have hq : (plan.filter fun t => p t || q t).filter (fun t => !p t) = plan.filter q := by
    rw [List.filter_filter]
    apply List.filter_congr
    intro t ht
    cases hpt : p t
    · simp
    · simp [h t ht hpt]
  have := List.filter_append_perm p (plan.filter fun t => p t || q t)
  rw [hp, hq] at this
  exact this.symm

variable (key needs plan done) in
/-- The waves take tasks of the plan, each at most as often as it is there. -/
lemma flatMap_wave_perm (k : ℕ) :
    ∃ p : τ → Bool, ((List.range k).flatMap (wave key needs plan done)).Perm (plan.filter p) ∧
      ∀ t, p t → key t ∈ after key needs plan done k ∨ t ∉ plan := by
  induction k with
  | zero => exact ⟨fun _ => false, by simp, by simp⟩
  | succ k ih =>
    obtain ⟨p, hperm, hp⟩ := ih
    let q : τ → Bool := fun t => decide (key t ∉ after key needs plan done k) &&
      (needs t).all (· ∈ after key needs plan done k)
    have hq : ∀ t ∈ plan, p t → q t = false := by
      intro t ht hpt
      have := (hp t hpt).resolve_right (not_not.2 ht)
      simp [q, this]
    refine ⟨fun t => p t || q t, ?_, fun t ht => ?_⟩
    · rw [List.range_succ, List.flatMap_append, List.flatMap_singleton]
      exact (hperm.append_right _).trans (filter_or_perm hq).symm
    · by_cases hmem : t ∈ plan
      · left
        rcases Bool.or_eq_true _ _ ▸ ht with hpt | hqt
        · exact after_mono k.le_succ ((hp t hpt).resolve_right (not_not.2 hmem))
        · exact mem_after_succ.2 (Or.inr ⟨t, List.mem_filter.2 ⟨hmem, hqt⟩, rfl⟩)
      · exact Or.inr hmem

variable (key needs plan done) in
lemma length_flatMap_wave_le (k : ℕ) :
    ((List.range k).flatMap (wave key needs plan done)).length ≤ plan.length := by
  obtain ⟨p, hperm, -⟩ := flatMap_wave_perm key needs plan done k
  rw [hperm.length_eq]
  exact List.length_filter_le _ _

variable (needs done) in
/-- With distinct keys, the tasks of the first waves are those that are new and done after. -/
lemma flatMap_wave_perm_of_nodup (hkeys : (plan.map key).Nodup) (k : ℕ) :
    ((List.range k).flatMap (wave key needs plan done)).Perm
      (plan.filter fun t => key t ∉ done ∧ key t ∈ after key needs plan done k) := by
  have hplan : plan.Nodup := hkeys.of_map
  obtain ⟨p, hperm, -⟩ := flatMap_wave_perm key needs plan done k
  refine (List.perm_ext_iff_of_nodup (hperm.nodup_iff.2 (hplan.filter p)) (hplan.filter _)).2 ?_
  intro t
  simp only [List.mem_flatMap, List.mem_range, List.mem_filter, decide_eq_true_eq]
  constructor
  · rintro ⟨j, hj, ht⟩
    obtain ⟨hmem, hnew, -⟩ := mem_wave.1 ht
    exact ⟨hmem, fun hd => hnew (after_mono j.zero_le hd),
      after_mono hj (mem_after_succ.2 (Or.inr ⟨t, ht, rfl⟩))⟩
  · rintro ⟨hmem, hnew, hk⟩
    rw [after_eq_union, Finset.mem_union] at hk
    obtain ⟨u, hu, hut⟩ := List.mem_map.1 (List.mem_toFinset.1 (hk.resolve_left hnew))
    obtain ⟨j, hj, hu⟩ := List.mem_flatMap.1 hu
    obtain rfl := List.inj_on_of_nodup_map hkeys (mem_wave.1 hu).1 hmem hut
    exact ⟨j, List.mem_range.1 hj, hu⟩

variable (key needs plan done) in
/-- The keys some order of the tasks can finish. -/
inductive Reachable : ι → Prop
  | done {i : ι} : i ∈ done → Reachable i
  | task {t : τ} : t ∈ plan → (∀ d ∈ needs t, Reachable d) → Reachable (key t)

lemma reachable_of_mem_after {k : ℕ} {i : ι} (h : i ∈ after key needs plan done k) :
    Reachable key needs plan done i := by
  induction k generalizing i with
  | zero => exact .done h
  | succ k ih =>
    rcases mem_after_succ.1 h with h | ⟨t, ht, rfl⟩
    · exact ih h
    · obtain ⟨hmem, -, hneeds⟩ := mem_wave.1 ht
      exact .task hmem fun d hd => ih (hneeds d hd)

/-- When a wave is empty, every key that some order could finish is done. -/
theorem mem_after_iff_reachable {k : ℕ} (h : wave key needs plan done k = []) {i : ι} :
    i ∈ after key needs plan done k ↔ Reachable key needs plan done i := by
  refine ⟨reachable_of_mem_after, fun hi => ?_⟩
  induction hi with
  | done hi => exact after_mono k.zero_le hi
  | task ht _ ih =>
    by_contra hnot
    have : _ ∈ wave key needs plan done k := mem_wave.2 ⟨ht, hnot, ih⟩
    simp [h] at this

/-- With distinct keys, a task is finished one wave after the last of its needs. -/
theorem key_mem_after_succ (hkeys : (plan.map key).Nodup) {t : τ} (ht : t ∈ plan)
    (hnew : key t ∉ done) (k : ℕ) :
    key t ∈ after key needs plan done (k + 1) ↔
      ∀ d ∈ needs t, d ∈ after key needs plan done k := by
  constructor
  · intro h
    induction k with
    | zero =>
      rcases mem_after_succ.1 h with h | ⟨u, hu, hut⟩
      · exact absurd h hnew
      · obtain ⟨hmem, -, hneeds⟩ := mem_wave.1 hu
        rwa [← List.inj_on_of_nodup_map hkeys hmem ht hut]
    | succ k ih =>
      rcases mem_after_succ.1 h with h | ⟨u, hu, hut⟩
      · exact fun d hd => after_mono k.le_succ (ih h d hd)
      · obtain ⟨hmem, -, hneeds⟩ := mem_wave.1 hu
        rwa [← List.inj_on_of_nodup_map hkeys hmem ht hut]
  · intro h
    by_cases hk : key t ∈ after key needs plan done k
    · exact after_mono k.le_succ hk
    · exact mem_after_succ.2 (Or.inr ⟨t, mem_wave.2 ⟨ht, hk, h⟩, rfl⟩)

/-! ### The wave of a key -/

variable (key needs plan) in
/-- The key is finished in the `k`-th wave of a plan that starts with nothing done. -/
def FinishedIn (i : ι) (k : ℕ) : Prop :=
  i ∈ after key needs plan ∅ (k + 1) ∧ i ∉ after key needs plan ∅ k

lemma mem_after_iff_finishedIn {i : ι} {k : ℕ} :
    i ∈ after key needs plan ∅ k ↔ ∃ j < k, FinishedIn key needs plan i j := by
  constructor
  · intro h
    induction k with
    | zero => simp at h
    | succ k ih =>
      by_cases hk : i ∈ after key needs plan ∅ k
      · obtain ⟨j, hj, hfin⟩ := ih hk
        exact ⟨j, by omega, hfin⟩
      · exact ⟨k, k.lt_succ_self, h, hk⟩
  · rintro ⟨j, hj, hfin, -⟩
    exact after_mono hj hfin

lemma FinishedIn.unique {i : ι} {j k : ℕ} (hj : FinishedIn key needs plan i j)
    (hk : FinishedIn key needs plan i k) : j = k := by
  apply le_antisymm
  · exact not_lt.1 fun h => hj.2 (after_mono h hk.1)
  · exact not_lt.1 fun h => hk.2 (after_mono h hj.1)

lemma FinishedIn.mem_keys {i : ι} {k : ℕ} (h : FinishedIn key needs plan i k) :
    ∃ t ∈ plan, key t = i := by
  rcases mem_after_succ.1 h.1 with hi | ⟨t, ht, rfl⟩
  · exact absurd hi h.2
  · exact ⟨t, (mem_wave.1 ht).1, rfl⟩

lemma mem_wave_iff_finishedIn (hkeys : (plan.map key).Nodup) {t : τ} (ht : t ∈ plan) {k : ℕ} :
    t ∈ wave key needs plan ∅ k ↔ FinishedIn key needs plan (key t) k := by
  constructor
  · intro h
    exact ⟨mem_after_succ.2 (Or.inr ⟨t, h, rfl⟩), (mem_wave.1 h).2.1⟩
  · intro h
    rw [mem_wave]
    exact ⟨ht, h.2, (key_mem_after_succ hkeys ht (Finset.notMem_empty _) k).1 h.1⟩

lemma finishedIn_of_needs_nil (hkeys : (plan.map key).Nodup) {t : τ} (ht : t ∈ plan)
    (h : needs t = []) : FinishedIn key needs plan (key t) 0 := by
  rw [← mem_wave_iff_finishedIn hkeys ht, mem_wave]
  simp [ht, h]

/-- A task that has needs is finished one wave after the last of them. -/
theorem finishedIn_iff (hkeys : (plan.map key).Nodup) {t : τ} (ht : t ∈ plan)
    (hne : needs t ≠ []) {k : ℕ} : FinishedIn key needs plan (key t) k ↔
      (∀ d ∈ needs t, ∃ j, FinishedIn key needs plan d j ∧ j + 1 ≤ k) ∧
        ∃ d ∈ needs t, ∃ j, FinishedIn key needs plan d j ∧ j + 1 = k := by
  have hmem : ∀ k, key t ∈ after key needs plan ∅ (k + 1) ↔ ∀ d ∈ needs t, d ∈ after key needs plan ∅ k :=
    key_mem_after_succ hkeys ht (Finset.notMem_empty _)
  constructor
  · rintro ⟨h, hnot⟩
    have hall := (hmem k).1 h
    cases k with
    | zero =>
      obtain ⟨d, hd⟩ := List.exists_mem_of_ne_nil _ hne
      simpa using hall d hd
    | succ k =>
      rw [hmem] at hnot
      push Not at hnot
      obtain ⟨d, hd, hdk⟩ := hnot
      refine ⟨fun d hd => ?_, d, hd, k, ⟨hall d hd, hdk⟩, rfl⟩
      obtain ⟨j, hj, hfin⟩ := mem_after_iff_finishedIn.1 (hall d hd)
      exact ⟨j, hfin, hj⟩
  · rintro ⟨hall, d, hd, j, hfin, rfl⟩
    refine ⟨(hmem _).2 fun d hd => ?_, fun h => hfin.2 ((hmem j).1 h d hd)⟩
    obtain ⟨j', hfin', hj'⟩ := hall d hd
    exact mem_after_iff_finishedIn.2 ⟨j', hj', hfin'⟩

/-- Tasks that would be finished in the `n`-th wave or later may be left out: nothing changes
before, and nothing is left to do after. -/
theorem after_drop_late (hkeys : (plan.map key).Nodup) {n : ℕ} {keep : τ → Bool}
    (hkeep : ∀ t ∈ plan, keep t = false ↔ ∃ k, n ≤ k ∧ FinishedIn key needs plan (key t) k) :
    (∀ k ≤ n, after key needs (plan.filter keep) ∅ k = after key needs plan ∅ k) ∧
      wave key needs (plan.filter keep) ∅ n = [] := by
  have hearly : ∀ {k : ℕ} {t : τ}, k < n → t ∈ wave key needs plan ∅ k → keep t = true := by
    intro k t hk ht
    by_contra hfalse
    have hplan := (mem_wave.1 ht).1
    obtain ⟨j, hj, hfin⟩ := (hkeep t hplan).1 (by simpa using hfalse)
    have := hfin.unique ((mem_wave_iff_finishedIn hkeys hplan).1 ht)
    omega
  have hafter : ∀ k ≤ n, after key needs (plan.filter keep) ∅ k = after key needs plan ∅ k := by
    intro k hk
    induction k with
    | zero => rfl
    | succ k ih =>
      specialize ih (by omega)
      ext i
      simp only [mem_after_succ, mem_wave, ih, List.mem_filter]
      constructor
      · rintro (h | ⟨t, ⟨⟨ht, -⟩, hnew, hneeds⟩, rfl⟩)
        · exact Or.inl h
        · exact Or.inr ⟨t, ⟨ht, hnew, hneeds⟩, rfl⟩
      · rintro (h | ⟨t, ⟨ht, hnew, hneeds⟩, rfl⟩)
        · exact Or.inl h
        · exact Or.inr ⟨t, ⟨⟨ht, hearly (by omega) (mem_wave.2 ⟨ht, hnew, hneeds⟩)⟩, hnew, hneeds⟩,
            rfl⟩
  refine ⟨hafter, ?_⟩
  rw [List.eq_nil_iff_forall_not_mem]
  intro t ht
  obtain ⟨hmem, hnew, hneeds⟩ := mem_wave.1 ht
  obtain ⟨hplan, hkept⟩ := List.mem_filter.1 hmem
  rw [hafter n le_rfl] at hnew hneeds
  have hwave : t ∈ wave key needs plan ∅ n := mem_wave.2 ⟨hplan, hnew, hneeds⟩
  have := (hkeep t hplan).2 ⟨n, le_rfl, (mem_wave_iff_finishedIn hkeys hplan).1 hwave⟩
  rw [this] at hkept
  cases hkept

/-! ### Tasks under another description -/

section Map

variable {σ : Type*} (f : σ → τ)

lemma ready_map (plan : List σ) (done : Finset ι) :
    ready key needs (plan.map f) done =
      (ready (fun t => key (f t)) (fun t => needs (f t)) plan done).map f := by
  simp [ready, List.filter_map, Function.comp_def]

lemma after_map (plan : List σ) (done : Finset ι) (k : ℕ) :
    after key needs (plan.map f) done k =
      after (fun t => key (f t)) (fun t => needs (f t)) plan done k := by
  induction k with
  | zero => rfl
  | succ k ih => simp [after, ih, ready_map, Function.comp_def]

lemma finishedIn_map (plan : List σ) (i : ι) (k : ℕ) :
    FinishedIn key needs (plan.map f) i k ↔
      FinishedIn (fun t => key (f t)) (fun t => needs (f t)) plan i k := by
  rw [FinishedIn, FinishedIn, after_map, after_map]

end Map

/-! ### Tasks that need themselves -/

variable (key needs plan) in
/-- `u` is a task of the plan that `t` needs. -/
def Uses (t u : τ) : Prop := u ∈ plan ∧ key u ∈ needs t

variable (key needs plan) in
/-- Neither the task nor any it comes to need has a need of its own key. -/
def Proper (t : τ) : Prop :=
  ∀ u, Relation.ReflTransGen (Uses key needs plan) t u → key u ∉ needs u

variable (key needs) in
/-- The needs of a task but for its own key. -/
def others (t : τ) : List ι := (needs t).filter (· ≠ key t)

@[simp] lemma mem_others {t : τ} {d : ι} : d ∈ others key needs t ↔ d ∈ needs t ∧ d ≠ key t := by
  simp [others]

lemma self_notMem_needs (hkeys : (plan.map key).Nodup) {t : τ} (ht : t ∈ plan) {k : ℕ}
    (h : key t ∈ after key needs plan ∅ k) : key t ∉ needs t := by
  intro hself
  induction k with
  | zero => simp at h
  | succ k ih =>
    exact ih ((key_mem_after_succ hkeys ht (Finset.notMem_empty _) k).1 h _ hself)

/-- A plan run as if no task needed itself finishes a task in the same wave, unless the task or
one it comes to need does need itself: that one is never finished. -/
theorem mem_after_others (hkeys : (plan.map key).Nodup) (k : ℕ) {t : τ} (ht : t ∈ plan) :
    key t ∈ after key needs plan ∅ k ↔
      key t ∈ after key (others key needs) plan ∅ k ∧ Proper key needs plan t := by
  have hnew : ∀ u : τ, key u ∉ (∅ : Finset ι) := fun u => Finset.notMem_empty _
  induction k generalizing t with
  | zero => simp
  | succ k ih =>
    rw [key_mem_after_succ hkeys ht (hnew t), key_mem_after_succ hkeys ht (hnew t)]
    have hplan : ∀ {needs : τ → List ι} {d : ι}, d ∈ after key needs plan ∅ k →
        ∃ u ∈ plan, key u = d := by
      intro needs d hd
      obtain ⟨j, -, hfin⟩ := mem_after_iff_finishedIn.1 hd
      exact hfin.mem_keys
    constructor
    · intro h
      have hself : key t ∉ needs t := self_notMem_needs hkeys ht
        ((key_mem_after_succ hkeys ht (hnew t) k).2 h)
      refine ⟨fun d hd => ?_, fun u hu => ?_⟩
      · obtain ⟨u, hu, rfl⟩ := hplan (h d (mem_others.1 hd).1)
        exact ((ih hu).1 (h _ (mem_others.1 hd).1)).1
      · rcases hu.cases_head with rfl | ⟨v, ⟨hv, hvt⟩, hvu⟩
        · exact hself
        · exact ((ih hv).1 (h _ hvt)).2 u hvu
    · rintro ⟨h, hproper⟩ d hd
      have hself : key t ∉ needs t := hproper t .refl
      have hother : d ∈ others key needs t := mem_others.2 ⟨hd, fun heq => hself (heq ▸ hd)⟩
      obtain ⟨u, hu, rfl⟩ := hplan (h d hother)
      refine (ih hu).2 ⟨h _ hother, fun v hv => hproper v ?_⟩
      exact Relation.ReflTransGen.head ⟨hu, hd⟩ hv

/-- The same of the wave a task is in. -/
theorem mem_wave_others (hkeys : (plan.map key).Nodup) {t : τ} (ht : t ∈ plan) {k : ℕ} :
    t ∈ wave key needs plan ∅ k ↔
      t ∈ wave key (others key needs) plan ∅ k ∧ Proper key needs plan t := by
  have h : ∀ k, key t ∈ after key needs plan ∅ k ↔
      key t ∈ after key (others key needs) plan ∅ k ∧ Proper key needs plan t :=
    fun k => mem_after_others hkeys k ht
  rw [mem_wave_iff_finishedIn hkeys ht, mem_wave_iff_finishedIn hkeys ht, FinishedIn, FinishedIn,
    h k, h (k + 1)]
  tauto

end Waves
