import Mathlib.Tactic.Lemma
import Mathlib.Data.List.Basic

/-!
# Runs of a transition function

A system is a function `step : σ → α → σ`: whatever may vary between two runs (who acts, when,
on what) is part of the action. A run is a list of actions. The rules below turn a statement
about one step into a statement about every run, with or without a condition on the steps.
-/

namespace Runs

variable {σ α : Type*} (step : σ → α → σ)

/-- The state a list of actions leads to. -/
def run (s : σ) (as : List α) : σ := as.foldl step s

@[simp] lemma run_nil (s : σ) : run step s [] = s := rfl

@[simp] lemma run_cons (s : σ) (a : α) (as : List α) :
    run step s (a :: as) = run step (step s a) as := rfl

lemma run_append (s : σ) (as bs : List α) :
    run step s (as ++ bs) = run step (run step s as) bs := by
  simp [run]

/-- Every step of the run from `s` meets `C`, a condition on the state before it and the action. -/
def Along (C : σ → α → Prop) : σ → List α → Prop
  | _, [] => True
  | s, a :: as => C s a ∧ Along C (step s a) as

instance Along.decidable {C : σ → α → Prop} [∀ s a, Decidable (C s a)] :
    (s : σ) → (as : List α) → Decidable (Along step C s as)
  | _, [] => isTrue trivial
  | s, a :: as => @instDecidableAnd _ _ _ (Along.decidable (step s a) as)

@[simp] lemma along_nil (C : σ → α → Prop) (s : σ) : Along step C s [] := trivial

@[simp] lemma along_cons (C : σ → α → Prop) (s : σ) (a : α) (as : List α) :
    Along step C s (a :: as) ↔ C s a ∧ Along step C (step s a) as := Iff.rfl

lemma along_append (C : σ → α → Prop) (s : σ) (as bs : List α) :
    Along step C s (as ++ bs) ↔ Along step C s as ∧ Along step C (run step s as) bs := by
  induction as generalizing s with
  | nil => simp
  | cons a as ih => simp [ih, and_assoc]

/-- A condition on the actions alone holds along every run made of such actions. -/
lemma along_of_forall {D : α → Prop} (s : σ) {as : List α} (h : ∀ a ∈ as, D a) :
    Along step (fun _ a => D a) s as := by
  induction as generalizing s with
  | nil => trivial
  | cons a as ih =>
    exact ⟨h a (by simp), ih _ fun b hb => h b (by simp [hb])⟩

lemma Along.mono {C D : σ → α → Prop} (hCD : ∀ s a, C s a → D s a) {s : σ} {as : List α}
    (h : Along step C s as) : Along step D s as := by
  induction as generalizing s with
  | nil => trivial
  | cons a as ih => exact ⟨hCD _ _ h.1, ih h.2⟩

lemma Along.and {C D : σ → α → Prop} {s : σ} {as : List α} (h : Along step C s as)
    (h' : Along step D s as) : Along step (fun s a => C s a ∧ D s a) s as := by
  induction as generalizing s with
  | nil => trivial
  | cons a as ih => exact ⟨⟨h.1, h'.1⟩, ih h.2 h'.2⟩

variable {step}

/-- What every step that meets `C` preserves, every run along `C` preserves. -/
theorem run_preserves_along {C : σ → α → Prop} {I : σ → Prop}
    (hstep : ∀ s a, I s → C s a → I (step s a)) {s : σ} {as : List α}
    (hs : I s) (has : Along step C s as) : I (run step s as) := by
  induction as generalizing s with
  | nil => exact hs
  | cons a as ih => exact ih (hstep s a hs has.1) has.2

/-- What every step preserves, every run preserves. -/
theorem run_preserves {I : σ → Prop} (hstep : ∀ s a, I s → I (step s a)) {s : σ}
    (hs : I s) (as : List α) : I (run step s as) := by
  induction as generalizing s with
  | nil => exact hs
  | cons a as ih => exact ih (hstep s a hs)

/-- A property that is preserved where the invariant `I` holds is preserved by every run that
starts where `I` holds. -/
theorem run_preserves_under {I P : σ → Prop} (hI : ∀ s a, I s → I (step s a))
    (hP : ∀ s a, I s → P s → P (step s a)) {s : σ} (hs : I s) (hp : P s) (as : List α) :
    P (run step s as) :=
  (run_preserves (I := fun s => I s ∧ P s)
    (fun s a h => ⟨hI s a h.1, hP s a h.1 h.2⟩) ⟨hs, hp⟩ as).2

/-- Conditions that agree where the invariant holds hold along the same runs. -/
theorem along_congr_under {I : σ → Prop} {C D : σ → α → Prop} (hI : ∀ s a, I s → I (step s a))
    (hCD : ∀ s a, I s → (C s a ↔ D s a)) {s : σ} (hs : I s) (as : List α) :
    Along step C s as ↔ Along step D s as := by
  induction as generalizing s with
  | nil => exact Iff.rfl
  | cons a as ih => exact and_congr (hCD s a hs) (ih (hI s a hs))

/-- To meet `C` and to lead to `P` at every step is to have `P` after every step and `C` along the
run. -/
theorem along_and_iff_of_prefixes {P : σ → Prop} {C : σ → α → Prop} {s : σ} (hs : P s)
    (as : List α) : Along step (fun s a => C s a ∧ P (step s a)) s as ↔
      (∀ n, P (run step s (as.take n))) ∧ Along step C s as := by
  induction as generalizing s with
  | nil => simp [hs]
  | cons a as ih =>
    rw [along_cons, along_cons]
    constructor
    · rintro ⟨⟨hc, hp⟩, has⟩
      obtain ⟨hprefixes, hcs⟩ := (ih hp).1 has
      refine ⟨fun n => ?_, hc, hcs⟩
      cases n with
      | zero => exact hs
      | succ n => exact hprefixes n
    · rintro ⟨hprefixes, hc, hcs⟩
      have hp : P (step s a) := hprefixes 1
      exact ⟨⟨hc, hp⟩, (ih hp).2 ⟨fun n => hprefixes (n + 1), hcs⟩⟩

/-- Where, along `D`, a step that breaks `C` breaks `P`, the runs along `C` are those in which `P`
holds after every step. -/
theorem along_iff_of_prefixes_under {I P : σ → Prop} {C D : σ → α → Prop}
    (hI : ∀ s a, I s → D s a → C s a → I (step s a)) (hP : ∀ s, I s → P s)
    (hbad : ∀ s a, I s → D s a → ¬ C s a → ¬ P (step s a)) {s : σ} (hs : I s) {as : List α}
    (hD : Along step D s as) :
    (∀ n, P (run step s (as.take n))) ↔ Along step C s as := by
  induction as generalizing s with
  | nil =>
    simp only [List.take_nil, run_nil, along_nil, iff_true]
    exact fun _ => hP s hs
  | cons a as ih =>
    obtain ⟨hda, hD⟩ := hD
    rw [along_cons]
    constructor
    · intro h
      have ha : C s a := by
        by_contra hnot
        exact hbad s a hs hda hnot (h 1)
      exact ⟨ha, (ih (hI s a hs hda ha) hD).1 fun n => h (n + 1)⟩
    · rintro ⟨ha, has⟩ n
      cases n with
      | zero => exact hP s hs
      | succ n => exact (ih (hI s a hs hda ha) hD).2 has n

/-- Where a step that breaks `C` breaks `P`, the runs along `C` are those in which `P` holds after
every step. -/
theorem along_iff_of_prefixes {I P : σ → Prop} {C : σ → α → Prop}
    (hI : ∀ s a, I s → C s a → I (step s a)) (hP : ∀ s, I s → P s)
    (hbad : ∀ s a, I s → ¬ C s a → ¬ P (step s a)) {s : σ} (hs : I s) (as : List α) :
    (∀ n, P (run step s (as.take n))) ↔ Along step C s as :=
  along_iff_of_prefixes_under (D := fun _ _ => True) (fun s a h _ => hI s a h) hP
    (fun s a h _ => hbad s a h) hs (along_of_forall step s fun _ _ => trivial)

end Runs
