import Mathlib.Data.List.Induction
import RentCompass.Runs

/-!
# What has happened and has not been undone

A state predicate that one kind of action brings about and another undoes holds after a run if and
only if an action of the first kind happened and none of the second kind did since.
-/

namespace Runs

variable {σ α : Type*} (step : σ → α → σ)

/-- An action that `Makes` happened, and none that `Ends` has happened since. -/
def Since (Makes Ends : σ → α → Prop) (s : σ) (as : List α) : Prop :=
  ∃ before a after, as = before ++ a :: after ∧ Makes (run step s before) a ∧
    Along step (fun s a => ¬ Ends s a) (run step s (before ++ [a])) after

variable {step} {Makes Ends : σ → α → Prop} {s : σ}

@[simp] lemma since_nil : ¬ Since step Makes Ends s [] := by
  rintro ⟨before, a, after, h, -⟩
  simp at h

/-- One more action makes it so, or leaves it so. -/
lemma since_concat (as : List α) (a : α) : Since step Makes Ends s (as ++ [a]) ↔
    Makes (run step s as) a ∨
      Since step Makes Ends s as ∧ ¬ Ends (run step s as) a := by
  constructor
  · rintro ⟨before, b, after, heq, hmakes, hafter⟩
    rcases List.eq_nil_or_concat after with rfl | ⟨after, c, rfl⟩
    · obtain ⟨rfl, hab⟩ := List.append_inj' heq rfl
      cases hab
      exact Or.inl hmakes
    · have heq' : as ++ [a] = (before ++ b :: after) ++ [c] := by
        simpa using heq
      obtain ⟨rfl, hac⟩ := List.append_inj' heq' rfl
      cases hac
      rw [List.concat_eq_append, along_append] at hafter
      refine Or.inr ⟨⟨before, b, after, rfl, hmakes, hafter.1⟩, ?_⟩
      rw [← run_append, List.append_assoc] at hafter
      exact hafter.2.1
  · rintro (hmakes | ⟨⟨before, b, after, rfl, hmakes, hafter⟩, hends⟩)
    · exact ⟨as, a, [], rfl, hmakes, trivial⟩
    · refine ⟨before, b, after ++ [a], by simp, hmakes, ?_⟩
      rw [along_append, ← run_append, List.append_assoc]
      exact ⟨hafter, hends, trivial⟩

/-- **The rule.** What one step does to `R`, where the invariant `I` holds, decides what a run
does. -/
theorem run_iff_since {I R : σ → Prop} (hI : ∀ s a, I s → I (step s a))
    (hR : ∀ s a, I s → (R (step s a) ↔ Makes s a ∨ R s ∧ ¬ Ends s a)) (hs : I s) (hnot : ¬ R s)
    (as : List α) : R (run step s as) ↔ Since step Makes Ends s as := by
  induction as using List.reverseRecOn with
  | nil => simpa using hnot
  | append_singleton as a ih =>
    have hrun : I (run step s as) := run_preserves hI hs as
    rw [run_append, run_cons, run_nil, hR _ a hrun, ih, since_concat]

end Runs
