import RentCompass.Words

/-!
# Cutting a stream at a separator

A reader that gets a list piece by piece takes off what ends at the first separator, over and over,
and keeps the rest for the next piece. What it takes off does not depend on the pieces.
-/

namespace Frames

variable {α : Type} [DecidableEq α]

/-- What ends at a separator, and what is left, for a list shorter than the fuel. -/
def cut (sep : List α) : Nat → List α → List (List α) × List α
  | 0, t => ([], t)
  | n + 1, t =>
    match sep.firstAt t with
    | none => ([], t)
    | some i =>
      let (frames, rest) := cut sep n (t.drop (i + sep.length))
      (t.take i :: frames, rest)

/-- What ends at a separator, and what is left. -/
def split (sep : List α) (t : List α) : List (List α) × List α := cut sep (t.length + 1) t

/-- The frames as they were sent. -/
def join (sep : List α) (frames : List (List α)) : List α := frames.flatMap (· ++ sep)

/-- The separator first stands right behind the frame. -/
def Clean (sep f : List α) : Prop := sep.firstAt (f ++ sep) = some f.length

variable {sep : List α}

omit [DecidableEq α] in
@[simp] lemma join_nil : join sep [] = [] := rfl

omit [DecidableEq α] in
@[simp] lemma join_cons (f : List α) (fs : List (List α)) :
    join sep (f :: fs) = f ++ sep ++ join sep fs := rfl

omit [DecidableEq α] in
lemma join_append (fs gs : List (List α)) : join sep (fs ++ gs) = join sep fs ++ join sep gs := by
  simp [join]

/-- What first stands somewhere first stands there in a longer list too. -/
lemma firstAt_append (hsep : sep ≠ []) {t : List α} {i : Nat} (h : sep.firstAt t = some i)
    (u : List α) : sep.firstAt (t ++ u) = some i := by
  obtain ⟨hat, hbefore⟩ := (List.firstAt_eq_some_iff hsep).1 h
  have hle := hat.le hsep
  rw [List.firstAt_eq_some_iff hsep]
  refine ⟨(List.occursAt_append hle u).2 hat, ?_⟩
  intro j hj hocc
  exact hbefore j hj ((List.occursAt_append (by omega) u).1 hocc)

lemma Clean.firstAt (hsep : sep ≠ []) {f : List α} (hf : Clean sep f) (t : List α) :
    sep.firstAt (f ++ sep ++ t) = some f.length := firstAt_append hsep hf t

/-- What stands before the first separator is a clean frame. -/
lemma clean_take (hsep : sep ≠ []) {t : List α} {i : Nat} (h : sep.firstAt t = some i) :
    Clean sep (t.take i) ∧ t = t.take i ++ sep ++ t.drop (i + sep.length) := by
  obtain ⟨hat, hbefore⟩ := (List.firstAt_eq_some_iff hsep).1 h
  have hle := hat.le hsep
  have hlength : (t.take i).length = i := by
    rw [List.length_take]
    omega
  have heq : t = t.take i ++ sep ++ t.drop (i + sep.length) := by
    obtain ⟨rest, hrest⟩ := hat
    have hdrop : t.drop (i + sep.length) = rest := by
      rw [← List.drop_drop, ← hrest, List.drop_left]
    rw [hdrop, List.append_assoc, hrest, List.take_append_drop]
  refine ⟨?_, heq⟩
  rw [Clean, List.firstAt_eq_some_iff hsep, hlength]
  have hpart : ∀ j, j ≤ i → (sep.OccursAt (t.take i ++ sep) j ↔ sep.OccursAt t j) := by
    intro j hj
    have := List.occursAt_append (w := sep) (l := t.take i ++ sep) (s := j)
      (by rw [List.length_append, hlength]; omega) (t.drop (i + sep.length))
    rw [← heq] at this
    exact this.symm
  refine ⟨(hpart i (Nat.le_refl i)).2 hat, ?_⟩
  intro j hj hocc
  exact hbefore j hj ((hpart j (Nat.le_of_lt hj)).1 hocc)

lemma cut_spec (hsep : sep ≠ []) (n : Nat) (t : List α) (hn : t.length < n) :
    t = join sep (cut sep n t).1 ++ (cut sep n t).2 ∧ (∀ f ∈ (cut sep n t).1, Clean sep f) ∧
      sep.firstAt (cut sep n t).2 = none := by
  induction n generalizing t with
  | zero => omega
  | succ n ih =>
    rw [cut]
    cases hat : sep.firstAt t with
    | none => exact ⟨by simp, by simp, hat⟩
    | some i =>
      obtain ⟨hclean, heq⟩ := clean_take hsep hat
      have hpos := List.length_pos_of_ne_nil hsep
      have hle := ((List.firstAt_eq_some_iff hsep).1 hat).1.le hsep
      obtain ⟨hrest, hframes, hnone⟩ := ih (t.drop (i + sep.length)) (by
        rw [List.length_drop]
        omega)
      refine ⟨?_, ?_, hnone⟩
      · simp only [join_cons]
        rw [List.append_assoc, ← hrest]
        exact heq
      · intro f hf
        rcases List.mem_cons.1 hf with rfl | hf
        · exact hclean
        · exact hframes f hf

/-- The list is the frames that were taken off, as they were sent, and a rest without separator. -/
theorem split_spec (hsep : sep ≠ []) (t : List α) :
    t = join sep (split sep t).1 ++ (split sep t).2 ∧ (∀ f ∈ (split sep t).1, Clean sep f) ∧
      sep.firstAt (split sep t).2 = none :=
  cut_spec hsep _ t (Nat.lt_succ_self _)

/-- That tells what is taken off. -/
lemma cut_eq (hsep : sep ≠ []) {fs : List (List α)} {r : List α} (hfs : ∀ f ∈ fs, Clean sep f)
    (hr : sep.firstAt r = none) (n : Nat) (hn : (join sep fs ++ r).length < n) :
    cut sep n (join sep fs ++ r) = (fs, r) := by
  induction fs generalizing n with
  | nil =>
    cases n with
    | zero => omega
    | succ n =>
      rw [cut]
      simp [hr]
  | cons f fs ih =>
    cases n with
    | zero => omega
    | succ n =>
      have hf := hfs f (by simp)
      have hpos := List.length_pos_of_ne_nil hsep
      have hat : sep.firstAt (join sep (f :: fs) ++ r) = some f.length := by
        rw [join_cons, List.append_assoc]
        exact hf.firstAt hsep _
      have hlist : join sep (f :: fs) ++ r = (f ++ sep) ++ (join sep fs ++ r) := by simp
      have hlen : f.length + sep.length = (f ++ sep).length := by simp
      have htake : (join sep (f :: fs) ++ r).take f.length = f := by
        rw [hlist, List.append_assoc, List.take_left]
      have hdrop : (join sep (f :: fs) ++ r).drop (f.length + sep.length) = join sep fs ++ r := by
        rw [hlist, hlen, List.drop_left]
      have hrest := ih (fun g hg => hfs g (by simp [hg])) n (by
        rw [hlist, List.length_append, ← hlen] at hn
        omega)
      rw [cut, hat]
      simp only [htake, hdrop, hrest]

/-- That tells what is taken off. -/
theorem split_eq (hsep : sep ≠ []) {fs : List (List α)} {r : List α} (hfs : ∀ f ∈ fs, Clean sep f)
    (hr : sep.firstAt r = none) : split sep (join sep fs ++ r) = (fs, r) :=
  cut_eq hsep hfs hr _ (Nat.lt_succ_self _)

/-- A piece that comes later is read behind what the earlier one left. -/
theorem split_append (hsep : sep ≠ []) (a b : List α) :
    split sep (a ++ b) =
      ((split sep a).1 ++ (split sep ((split sep a).2 ++ b)).1,
        (split sep ((split sep a).2 ++ b)).2) := by
  obtain ⟨ha, hframes, -⟩ := split_spec hsep a
  obtain ⟨hb, hframes', hnone⟩ := split_spec hsep ((split sep a).2 ++ b)
  have hwhole : a ++ b = join sep ((split sep a).1 ++ (split sep ((split sep a).2 ++ b)).1) ++
      (split sep ((split sep a).2 ++ b)).2 := by
    rw [join_append, List.append_assoc, ← hb, ← List.append_assoc, ← ha]
  conv_lhs => rw [hwhole]
  apply split_eq hsep
  · intro f hf
    rcases List.mem_append.1 hf with hf | hf
    · exact hframes f hf
    · exact hframes' f hf
  · exact hnone

/-- A part of a clean frame holds no separator. -/
lemma firstAt_of_append_eq (hsep : sep ≠ []) {f a b : List α} (hf : Clean sep f)
    (hab : a ++ b = f ++ sep) (hb : b ≠ []) : sep.firstAt a = none := by
  rw [List.firstAt_eq_none_iff hsep]
  intro s hocc
  have hle := hocc.le hsep
  have hpos := List.length_pos_of_ne_nil hb
  have hlen := congrArg List.length hab
  rw [List.length_append, List.length_append] at hlen
  obtain ⟨-, hbefore⟩ := (List.firstAt_eq_some_iff hsep).1 hf
  apply hbefore s
  · omega
  · rw [← hab]
    exact (List.occursAt_append hle b).2 hocc

lemma split_of_none (hsep : sep ≠ []) {r : List α} (hr : sep.firstAt r = none) :
    split sep r = ([], r) :=
  split_eq hsep (List.forall_mem_nil _) hr

lemma split_frame (hsep : sep ≠ []) {f : List α} (hf : Clean sep f) (t : List α) :
    split sep (f ++ sep ++ t) = (f :: (split sep t).1, (split sep t).2) := by
  obtain ⟨ht, hframes, hnone⟩ := split_spec hsep t
  have hwhole : f ++ sep ++ t = join sep (f :: (split sep t).1) ++ (split sep t).2 := by
    rw [join_cons, List.append_assoc (f ++ sep), ← ht]
  rw [hwhole]
  apply split_eq hsep
  · intro g hg
    rcases List.mem_cons.1 hg with rfl | hg
    · exact hf
    · exact hframes g hg
  · exact hnone

/-- The first part of what was sent is cut into the first frames; all of them only if nothing is
missing. -/
theorem split_of_append_eq (hsep : sep ≠ []) {fs : List (List α)} (hfs : ∀ f ∈ fs, Clean sep f)
    {t rest : List α} (ht : t ++ rest = join sep fs) :
    ∃ n, (split sep t).1 = fs.take n ∧ (rest = [] ↔ fs.length ≤ n) := by
  induction fs generalizing t with
  | nil =>
    obtain ⟨rfl, rfl⟩ := List.append_eq_nil_iff.1 ht
    refine ⟨0, ?_, by simp⟩
    rw [split_of_none hsep (by simp [List.firstAt, hsep])]
    rfl
  | cons f fs ih =>
    have hf := hfs f (by simp)
    rw [join_cons] at ht
    rcases List.append_eq_append_iff.1 ht with ⟨more, hmore, hrest⟩ | ⟨more, hmore, hrest⟩
    · by_cases hnil : more = []
      · -- the part ends with the frame
        subst hnil
        obtain ⟨n, hn, hiff⟩ := ih (fun g hg => hfs g (by simp [hg])) (t := []) hrest
        rw [List.append_nil] at hmore
        refine ⟨n + 1, ?_, ?_⟩
        · rw [← hmore, ← List.append_nil (f ++ sep), split_frame hsep hf, hn]
          rfl
        · rw [hiff, List.length_cons]
          omega
      · refine ⟨0, ?_, ?_⟩
        · rw [split_of_none hsep (firstAt_of_append_eq hsep hf hmore.symm hnil)]
          rfl
        · have hne : rest ≠ [] := by
            rw [hrest]
            simp [hnil]
          simp [hne]
    · obtain ⟨n, hn, hiff⟩ := ih (fun g hg => hfs g (by simp [hg])) hrest.symm
      refine ⟨n + 1, ?_, ?_⟩
      · rw [hmore, split_frame hsep hf, hn]
        rfl
      · rw [hiff, List.length_cons]
        omega

/-- An element that is in no separator ends none. -/
lemma firstAt_concat (hsep : sep ≠ []) {r : List α} (hr : sep.firstAt r = none) {x : α}
    (hx : x ∉ sep) : sep.firstAt (r ++ [x]) = none := by
  rw [List.firstAt_eq_none_iff hsep] at hr ⊢
  intro s hocc
  have hle := hocc.le hsep
  rw [List.length_append, List.length_singleton] at hle
  by_cases hend : s + sep.length ≤ r.length
  · exact hr s ((List.occursAt_append hend [x]).1 hocc)
  · -- the separator would end with the element
    have hpos := List.length_pos_of_ne_nil hsep
    have hlast := List.occursAt_iff.1 hocc (sep.length - 1) (by omega)
    have hindex : s + (sep.length - 1) = r.length := by omega
    rw [hindex, List.getElem?_append_right (Nat.le_refl _), Nat.sub_self] at hlast
    exact hx (List.mem_of_getElem? hlast.symm)

end Frames
