import Mathlib.Tactic.Lemma
import Mathlib.Order.Lattice
import Mathlib.Order.Nat
import Mathlib.Data.List.Basic
import Mathlib.Data.List.Forall2

/-!
# Greedy selection

What remains is chosen one element at a time: the first whose key is maximal, where the key may
depend on what was chosen before. The selection is a permutation, each choice is maximal among what
was left, and an element whose key is raised, all others staying as they are, is not chosen later.
-/

/-- Choosing greedily after `chosen` from `remaining` gives the list. -/
inductive Greedy {α β : Type*} [LinearOrder β] (key : List α → α → β) :
    List α → List α → List α → Prop
  | nil {chosen : List α} : Greedy key chosen [] []
  | pick {chosen pre post out : List α} {best : α}
      (before : ∀ x ∈ pre, key chosen x < key chosen best)
      (after : ∀ x ∈ post, key chosen x ≤ key chosen best)
      (rest : Greedy key (chosen ++ [best]) (pre ++ post) out) :
      Greedy key chosen (pre ++ best :: post) (best :: out)

namespace Greedy

variable {α α' β : Type*} [LinearOrder β] {key : List α → α → β} {key' : List α' → α' → β}
  {chosen remaining out : List α} {chosen' remaining' out' : List α'}

/-- Nothing is lost and nothing is chosen twice. -/
lemma perm (h : Greedy key chosen remaining out) : out.Perm remaining := by
  induction h with
  | nil => exact .nil
  | pick before after _ ih => exact (ih.cons _).trans List.perm_middle.symm

/-- Each choice is maximal among what is chosen from there on. -/
lemma key_le (h : Greedy key chosen remaining out) {n : Nat} {best : α} (hbest : out[n]? = some best)
    {x : α} (hx : x ∈ out.drop n) :
    key (chosen ++ out.take n) x ≤ key (chosen ++ out.take n) best := by
  induction h generalizing n with
  | nil => cases hbest
  | @pick chosen pre post out b before after rest ih =>
    cases n with
    | zero =>
      obtain rfl := Option.some.inj hbest
      rw [List.take_zero, List.append_nil]
      rcases List.mem_cons.1 hx with rfl | hx
      · exact le_rfl
      rcases List.mem_append.1 (rest.perm.subset hx) with hx | hx
      · exact (before x hx).le
      · exact after x hx
    | succ n =>
      have hle := ih hbest hx
      rwa [List.append_assoc, List.singleton_append] at hle

/-! ### Raising a key -/

variable {Same Raised : α → α' → Prop}

/-- Two selections whose elements differ at most in that some are raised. -/
structure Lifts (key : List α → α → β) (key' : List α' → α' → β) (Same Raised : α → α' → Prop) :
    Prop where
  same : ∀ chosen chosen' x x', List.Forall₂ Same chosen chosen' → Same x x' →
    key chosen x = key' chosen' x'
  raised : ∀ chosen chosen' x x', List.Forall₂ Same chosen chosen' → Raised x x' →
    key chosen x ≤ key' chosen' x'

namespace Lifts

lemma le (h : Lifts key key' Same Raised) (hchosen : List.Forall₂ Same chosen chosen') {x : α}
    {x' : α'} (hx : Same x x' ∨ Raised x x') : key chosen x ≤ key' chosen' x' := by
  rcases hx with hx | hx
  · exact (h.same _ _ _ _ hchosen hx).le
  · exact h.raised _ _ _ _ hchosen hx

end Lifts

lemma rel_of_getElem? {R : α → α' → Prop} {l : List α} {l' : List α'} (h : List.Forall₂ R l l')
    {n : Nat} {x : α} {x' : α'} (hx : l[n]? = some x) (hx' : l'[n]? = some x') : R x x' := by
  induction h generalizing n with
  | nil => cases hx
  | cons hhead _ ih =>
    cases n with
    | zero =>
      obtain rfl := Option.some.inj hx
      obtain rfl := Option.some.inj hx'
      exact hhead
    | succ n => exact ih hx hx'

/-- Where the second selection does not choose a raised element, both choose at the same place. -/
lemma length_eq (hlifts : Lifts key key' Same Raised) (hchosen : List.Forall₂ Same chosen chosen')
    {pre post : List α} {pre' post' : List α'} {b : α} {b' : α'}
    (hremaining : List.Forall₂ (fun x x' => Same x x' ∨ Raised x x') (pre ++ b :: post)
      (pre' ++ b' :: post'))
    (hb' : ∀ x, ¬ Raised x b')
    (before : ∀ x ∈ pre, key chosen x < key chosen b)
    (after : ∀ x ∈ post, key chosen x ≤ key chosen b)
    (before' : ∀ x ∈ pre', key' chosen' x < key' chosen' b')
    (after' : ∀ x ∈ post', key' chosen' x ≤ key' chosen' b') : pre.length = pre'.length := by
  have hlength := hremaining.length_eq
  simp only [List.length_append, List.length_cons] at hlength
  have hb : (pre ++ b :: post)[pre.length]? = some b := by simp
  have hbest : (pre' ++ b' :: post')[pre'.length]? = some b' := by simp
  rcases lt_trichotomy pre.length pre'.length with hlt | heq | hlt
  · -- the first chooses earlier, so the second finds its choice no better than that
    obtain ⟨x, hx⟩ : ∃ x, (pre ++ b :: post)[pre'.length]? = some x :=
      ⟨_, List.getElem?_eq_getElem (by simp; omega)⟩
    have hpost : x ∈ post := by
      rw [List.getElem?_append_right hlt.le] at hx
      obtain ⟨n, hn⟩ : ∃ n, pre'.length - pre.length = n + 1 := ⟨pre'.length - pre.length - 1, by omega⟩
      rw [hn] at hx
      exact List.mem_of_getElem? hx
    obtain ⟨y, hy⟩ : ∃ y, (pre' ++ b' :: post')[pre.length]? = some y :=
      ⟨_, List.getElem?_eq_getElem (by simp; omega)⟩
    have hpre : y ∈ pre' := by
      rw [List.getElem?_append_left hlt] at hy
      exact List.mem_of_getElem? hy
    have hsame := (rel_of_getElem? hremaining hx hbest).resolve_right (hb' x)
    have hle := hlifts.le hchosen (rel_of_getElem? hremaining hb hy)
    have heq := hlifts.same _ _ _ _ hchosen hsame
    exact absurd ((before' y hpre).trans_le (heq ▸ after x hpost)) (not_lt.2 hle)
  · exact heq
  · -- the second chooses earlier, what the first found worse than its choice
    obtain ⟨x, hx⟩ : ∃ x, (pre ++ b :: post)[pre'.length]? = some x :=
      ⟨_, List.getElem?_eq_getElem (by simp; omega)⟩
    have hpre : x ∈ pre := by
      rw [List.getElem?_append_left hlt] at hx
      exact List.mem_of_getElem? hx
    obtain ⟨y, hy⟩ : ∃ y, (pre' ++ b' :: post')[pre.length]? = some y :=
      ⟨_, List.getElem?_eq_getElem (by simp; omega)⟩
    have hpost : y ∈ post' := by
      rw [List.getElem?_append_right hlt.le] at hy
      obtain ⟨n, hn⟩ : ∃ n, pre.length - pre'.length = n + 1 := ⟨pre.length - pre'.length - 1, by omega⟩
      rw [hn] at hy
      exact List.mem_of_getElem? hy
    have hsame := (rel_of_getElem? hremaining hx hbest).resolve_right (hb' x)
    have hle := hlifts.le hchosen (rel_of_getElem? hremaining hb hy)
    have heq := hlifts.same _ _ _ _ hchosen hsame
    exact absurd (hle.trans (after' y hpost)) (not_le.2 (heq ▸ before x hpre))

lemma forall₂_split {R : α → α' → Prop} {pre post : List α} {pre' post' : List α'} {b : α} {b' : α'}
    (h : List.Forall₂ R (pre ++ b :: post) (pre' ++ b' :: post'))
    (hlength : pre.length = pre'.length) :
    R b b' ∧ List.Forall₂ R (pre ++ post) (pre' ++ post') := by
  have hpre := List.forall₂_take pre.length h
  rw [List.take_left, List.take_left' hlength.symm] at hpre
  have hpost := List.forall₂_drop pre.length h
  rw [List.drop_left, List.drop_left' hlength.symm, List.forall₂_cons] at hpost
  exact ⟨hpost.1, List.rel_append hpre hpost.2⟩

/-- An element that is raised is not chosen later. -/
theorem findIdx_le {p : α → Bool} {p' : α' → Bool} (hlifts : Lifts key key' Same Raised)
    (hsame : ∀ x x', Same x x' → p x = false)
    (hraised : ∀ x x', Raised x x' → p' x' = true)
    (h : Greedy key chosen remaining out) (h' : Greedy key' chosen' remaining' out')
    (hchosen : List.Forall₂ Same chosen chosen')
    (hremaining : List.Forall₂ (fun x x' => Same x x' ∨ Raised x x') remaining remaining') :
    out'.findIdx p' ≤ out.findIdx p := by
  induction h generalizing chosen' remaining' out' with
  | nil =>
    cases hremaining
    have hout := List.perm_nil.1 h'.perm
    rw [hout]
    exact Nat.zero_le _
  | @pick chosen pre post out b before after rest ih =>
    cases h' with
    | nil => simp at hremaining
    | @pick _ pre' post' out' b' before' after' rest' =>
      by_cases hb' : p' b' = true
      · rw [List.findIdx_cons, hb']
        exact Nat.zero_le _
      have hnot : ∀ x, ¬ Raised x b' := fun x hx => hb' (hraised x b' hx)
      have hlength := length_eq hlifts hchosen hremaining hnot before after before' after'
      obtain ⟨hb, hrest⟩ := forall₂_split hremaining hlength
      have hbb := hb.resolve_right (hnot b)
      have hnext : List.Forall₂ Same (chosen ++ [b]) (chosen' ++ [b']) :=
        List.rel_append hchosen (.cons hbb .nil)
      have hle := ih rest' hnext hrest
      rw [List.findIdx_cons, List.findIdx_cons, hsame b b' hbb, Bool.eq_false_iff.2 hb']
      exact Nat.succ_le_succ hle

end Greedy
