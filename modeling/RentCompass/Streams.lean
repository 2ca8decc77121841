import Mathlib.Tactic.Lemma
import Mathlib.Algebra.BigOperators.Group.Finset.Piecewise
import Mathlib.Algebra.Order.BigOperators.Group.Finset

/-!
# Streams of keyed events

One stream holds the events of many keys. What it holds of a key is a trace; the stream interleaves
traces of a language. An event that is appended extends the trace of its own key and leaves every
other trace alone, and a count over the stream is the sum of the counts over its traces.
-/

namespace Streams

variable {κ ε : Type*} [DecidableEq κ]

/-! ### The trace of a key -/

/-- What the stream holds of the key, in order. -/
def of (k : κ) (l : List (κ × ε)) : List ε := (l.filter fun x => x.1 = k).map Prod.snd

variable {k k' : κ} {e : ε} {l : List (κ × ε)}

@[simp] lemma of_nil : of k ([] : List (κ × ε)) = [] := rfl

@[simp] lemma of_append (l l' : List (κ × ε)) : of k (l ++ l') = of k l ++ of k l' := by
  simp [of]

@[simp] lemma of_singleton_self : of k [(k, e)] = [e] := by
  simp [of]

lemma of_singleton_of_ne (h : k' ≠ k) : of k' [(k, e)] = [] := by
  simp [of, h.symm]

lemma of_concat_self : of k (l ++ [(k, e)]) = of k l ++ [e] := by
  simp

lemma of_concat_of_ne (h : k' ≠ k) : of k' (l ++ [(k, e)]) = of k' l := by
  simp [of_singleton_of_ne h]

lemma mem_of : e ∈ of k l ↔ (k, e) ∈ l := by
  simp [of]

lemma of_eq_nil : of k l = [] ↔ ∀ x ∈ l, x.1 ≠ k := by
  simp [of]

/-! ### Interleavings -/

/-- Every trace of the stream is one of the language. -/
def Interleaves (P : List ε → Prop) (l : List (κ × ε)) : Prop := ∀ k, P (of k l)

lemma interleaves_nil {P : List ε → Prop} (h : P []) :
    Interleaves P ([] : List (κ × ε)) := fun _ => h

/-- In a language that is told by what may follow a trace, an event extends an interleaving where
it may follow the trace of its key. -/
lemma interleaves_concat {P : List ε → Prop} {follows : List ε → ε → Prop}
    (hP : ∀ t e, P (t ++ [e]) ↔ P t ∧ follows t e) :
    Interleaves P (l ++ [(k, e)]) ↔ Interleaves P l ∧ follows (of k l) e := by
  constructor
  · intro h
    have hk := h k
    rw [of_concat_self, hP] at hk
    refine ⟨fun k' => ?_, hk.2⟩
    by_cases hne : k' = k
    · exact hne ▸ hk.1
    · have hk' := h k'
      rwa [of_concat_of_ne hne] at hk'
  · rintro ⟨h, hfollows⟩ k'
    by_cases hne : k' = k
    · subst hne
      rw [of_concat_self, hP]
      exact ⟨h k', hfollows⟩
    · rw [of_concat_of_ne hne]
      exact h k'

/-! ### Counts -/

/-- The keys of the stream. -/
def keys (l : List (κ × ε)) : Finset κ := (l.map Prod.fst).toFinset

lemma mem_keys : k ∈ keys l ↔ of k l ≠ [] := by
  simp [keys, of_eq_nil]

@[simp] lemma keys_concat : keys (l ++ [(k, e)]) = insert k (keys l) := by
  ext k'
  simp [keys]

/-- A count over the stream is the sum of the counts over its traces. -/
lemma countP_eq_sum (q : ε → Bool) {s : Finset κ} (hs : ∀ x ∈ l, x.1 ∈ s) :
    (l.countP fun x => q x.2) = ∑ k ∈ s, (of k l).countP q := by
  induction l with
  | nil => simp
  | cons x l ih =>
    obtain ⟨hx, hl⟩ := List.forall_mem_cons.1 hs
    have hone : ∀ k ∈ s, (of k (x :: l)).countP q =
        (of k l).countP q + if k = x.1 then (if q x.2 then 1 else 0) else 0 := by
      intro k hk
      by_cases h : k = x.1
      · subst h
        simp [of, List.countP_cons]
      · simp [of, Ne.symm h, h]
    rw [Finset.sum_congr rfl hone, Finset.sum_add_distrib, Finset.sum_ite_eq' s x.1,
      if_pos hx, List.countP_cons, ih hl]

/-- Where no trace holds more of one kind than of another, the totals agree exactly if every trace
holds as many of both. -/
lemma countP_eq_iff {q r : ε → Bool} (h : ∀ k, (of k l).countP q ≤ (of k l).countP r) :
    (l.countP fun x => q x.2) = (l.countP fun x => r x.2) ↔
      ∀ k, (of k l).countP q = (of k l).countP r := by
  have hs : ∀ x ∈ l, x.1 ∈ keys l := fun x hx => by
    simpa [keys] using ⟨x.2, hx⟩
  rw [countP_eq_sum q hs, countP_eq_sum r hs, Finset.sum_eq_sum_iff_of_le fun k _ => h k]
  refine ⟨fun hall k => ?_, fun hall k _ => hall k⟩
  by_cases hk : k ∈ keys l
  · exact hall k hk
  · rw [mem_keys, not_not] at hk
    simp [hk]

/-! ### Keys in a state -/

/-- How many keys have a trace of the kind. -/
def live (p : List ε → Bool) (l : List (κ × ε)) : Nat := ((keys l).filter fun k => p (of k l)).card

/-- The most keys that ever had one. -/
def peak (p : List ε → Bool) (l : List (κ × ε)) : Nat := (l.inits.map (live p)).foldl max 0

variable {p : List ε → Bool}

@[simp] lemma live_nil : live p ([] : List (κ × ε)) = 0 := rfl

@[simp] lemma peak_nil : peak p ([] : List (κ × ε)) = 0 := by
  simp [peak]

lemma live_eq_sum (hp : p [] = false) {s : Finset κ} (hs : keys l ⊆ s) :
    live p l = ∑ k ∈ s, (p (of k l)).toNat := by
  have hcard : live p l = ∑ k ∈ keys l, (p (of k l)).toNat := by
    rw [live, Finset.card_filter]
    exact Finset.sum_congr rfl fun k _ => by cases p (of k l) <;> rfl
  rw [hcard]
  refine Finset.sum_subset hs fun k _ hk => ?_
  rw [mem_keys, not_not] at hk
  rw [hk, hp]
  rfl

/-- An event moves its own key, and no other, in or out of the state. -/
lemma live_concat (hp : p [] = false) :
    live p (l ++ [(k, e)]) + (p (of k l)).toNat = live p l + (p (of k l ++ [e])).toNat := by
  have hrest : ∑ k' ∈ (insert k (keys l)).erase k, (p (of k' (l ++ [(k, e)]))).toNat =
      ∑ k' ∈ (insert k (keys l)).erase k, (p (of k' l)).toNat := by
    refine Finset.sum_congr rfl fun k' hk' => ?_
    rw [of_concat_of_ne (Finset.ne_of_mem_erase hk')]
  have hk : k ∈ insert k (keys l) := Finset.mem_insert_self k _
  rw [live_eq_sum hp (keys_concat (e := e)).subset, live_eq_sum hp (Finset.subset_insert k _),
    ← Finset.add_sum_erase _ _ hk, ← Finset.add_sum_erase _ _ hk, hrest, of_concat_self]
  omega

lemma peak_concat (x : κ × ε) : peak p (l ++ [x]) = max (peak p l) (live p (l ++ [x])) := by
  have hinits : (l ++ [x]).inits = l.inits ++ [l ++ [x]] := by
    rw [List.inits_append]
    rfl
  rw [peak, hinits, List.map_append, List.foldl_append]
  rfl

lemma live_le_peak (l : List (κ × ε)) : live p l ≤ peak p l := by
  induction l using List.reverseRecOn with
  | nil => exact Nat.zero_le _
  | append_singleton l x _ =>
    rw [peak_concat]
    exact le_max_right _ _

end Streams
