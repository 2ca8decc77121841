import Mathlib.Tactic.Lemma
import Mathlib.Data.List.Basic

/-!
# Words

The words of a list are its maximal runs of a class. Where they stand in a list of words, and the
cut that a sorted list makes at a bound.
-/

variable {α : Type}

namespace List

/-! ### The words of a list -/

/-- The maximal runs of a class. -/
def words (c : α → Bool) (t : List α) : List (List α) :=
  (t.splitOnP (!c ·)).filter fun w => !w.isEmpty

variable {c : α → Bool}

@[simp] lemma words_nil : ([] : List α).words c = [] := by
  simp [words, splitOnP_nil]

/-- A run is one word. -/
lemma words_run {r : List α} (hr : ∀ a ∈ r, c a) (hne : r ≠ []) : r.words c = [r] := by
  rw [words, splitOnP_eq_singleton fun x hx => by simp [hr x hx]]
  simp [hne]

/-- What is outside the class ends a word. -/
lemma words_append_cons (r : List α) {x : α} (hx : c x = false) (s : List α) :
    (r ++ x :: s).words c = r.words c ++ s.words c := by
  rw [words, splitOnP_append_cons r s (by simp [hx]), filter_append]
  rfl

lemma words_append_gap (r : List α) {gap : List α} (hgap : ∀ a ∈ gap, c a = false)
    (hne : gap ≠ []) (s : List α) : (r ++ (gap ++ s)).words c = r.words c ++ s.words c := by
  induction gap generalizing r with
  | nil => exact absurd rfl hne
  | cons x gap ih =>
    rw [cons_append, words_append_cons r (hgap x (by simp))]
    cases gap with
    | nil => rfl
    | cons y gap =>
      have hrest := ih [] (fun a ha => hgap a (by simp [ha])) (by simp)
      rw [nil_append, words_nil, nil_append] at hrest
      rw [hrest]

lemma of_mem_splitOnP {p : α → Bool} {w t : List α} (h : w ∈ t.splitOnP p) :
    ∀ a ∈ w, p a = false := by
  induction t generalizing w with
  | nil =>
    rw [splitOnP_nil] at h
    simp [mem_singleton.1 h]
  | cons x t ih =>
    rw [splitOnP_cons_eq_if_modifyHead] at h
    obtain ⟨v, vs, hvs⟩ := exists_cons_of_ne_nil (splitOnP_ne_nil p t)
    split at h
    · rcases mem_cons.1 h with rfl | h
      · simp
      · exact ih h
    · next hx =>
      rw [hvs, modifyHead_cons] at h
      rcases mem_cons.1 h with rfl | h
      · have hv := ih (w := v) (by simp [hvs])
        simpa using ⟨by simpa using hx, hv⟩
      · exact ih (by simp [hvs, h])

lemma of_mem_words {w t : List α} (h : w ∈ t.words c) : ∀ a ∈ w, c a := by
  intro a ha
  have := of_mem_splitOnP (mem_filter.1 h).1 a ha
  simpa using this

lemma ne_nil_of_mem_words {w t : List α} (h : w ∈ t.words c) : w ≠ [] := by
  simpa using (mem_filter.1 h).2

/-- The words joined have these words. -/
lemma words_intercalate {x : α} (hx : c x = false) {ws : List (List α)}
    (h : ∀ w ∈ ws, w ≠ [] ∧ ∀ a ∈ w, c a) : ([x].intercalate ws).words c = ws := by
  induction ws with
  | nil => simp
  | cons w ws ih =>
    obtain ⟨hne, hw⟩ := h w (by simp)
    have hws := ih fun v hv => h v (by simp [hv])
    cases ws with
    | nil => simpa using words_run hw hne
    | cons v ws =>
      rw [intercalate_cons_cons, append_assoc, singleton_append, words_append_cons w hx, hws,
        words_run hw hne]
      rfl

/-! ### Where words stand -/

/-- The words stand in a list at an offset. -/
def OccursAt (w l : List α) (s : Nat) : Prop := w <+: l.drop s

/-- The words stand there one by one. -/
lemma occursAt_iff {w l : List α} {s : Nat} :
    w.OccursAt l s ↔ ∀ k < w.length, l[s + k]? = w[k]? := by
  rw [OccursAt, prefix_iff_getElem?]
  constructor
  · intro h k hk
    rw [← getElem?_drop, h k hk, getElem?_eq_getElem hk]
  · intro h k hk
    rw [getElem?_drop, h k hk, getElem?_eq_getElem hk]

lemma OccursAt.le {w l : List α} {s : Nat} (h : w.OccursAt l s) (hne : w ≠ []) :
    s + w.length ≤ l.length := by
  have hle : w.length ≤ (l.drop s).length := IsPrefix.length_le h
  have := length_pos_of_ne_nil hne
  rw [length_drop] at hle
  omega

/-- What ends by the cut stands in the part before it. -/
lemma occursAt_append {w l : List α} {s : Nat} (hs : s + w.length ≤ l.length) (l' : List α) :
    w.OccursAt (l ++ l') s ↔ w.OccursAt l s := by
  unfold OccursAt
  rw [drop_append_of_le_length (by omega)]
  constructor
  · intro h
    apply prefix_of_prefix_length_le h
    · exact prefix_append _ _
    · rw [length_drop]
      omega
  · intro h
    exact h.trans (prefix_append _ _)

/-- Where the words first stand in a list. -/
def firstAt [DecidableEq α] (w : List α) : List α → Option Nat
  | [] => if w = [] then some 0 else none
  | a :: l => if w.isPrefixOf (a :: l) then some 0 else (firstAt w l).map (· + 1)

section

variable [DecidableEq α] {w : List α}

lemma firstAt_eq_some_iff (hne : w ≠ []) {l : List α} {s : Nat} :
    w.firstAt l = some s ↔ w.OccursAt l s ∧ ∀ s' < s, ¬w.OccursAt l s' := by
  induction l generalizing s with
  | nil => simp [firstAt, hne, OccursAt]
  | cons a l ih =>
    rw [firstAt]
    by_cases hhere : w.isPrefixOf (a :: l) = true
    · have hocc : w.OccursAt (a :: l) 0 := isPrefixOf_iff_prefix.1 hhere
      rw [if_pos hhere, Option.some_inj]
      constructor
      · rintro rfl
        exact ⟨hocc, by simp⟩
      · rintro ⟨-, hno⟩
        by_contra hs
        exact hno 0 (by omega) hocc
    · have hocc : ¬w.OccursAt (a :: l) 0 := fun h => hhere ( isPrefixOf_iff_prefix.2 h)
      rw [if_neg hhere, Option.map_eq_some_iff]
      constructor
      · rintro ⟨s, hs, rfl⟩
        obtain ⟨hs, hno⟩ := ih.1 hs
        refine ⟨hs, fun s' hs' => ?_⟩
        cases s' with
        | zero => exact hocc
        | succ s' => exact hno s' (by omega)
      · rintro ⟨hs, hno⟩
        cases s with
        | zero => exact absurd hs hocc
        | succ s =>
          exact ⟨s, ih.2 ⟨hs, fun s' hs' => hno (s' + 1) (by omega)⟩, rfl⟩

lemma firstAt_eq_none_iff (hne : w ≠ []) {l : List α} :
    w.firstAt l = none ↔ ∀ s, ¬w.OccursAt l s := by
  constructor
  · intro h s hs
    induction l generalizing s with
    | nil => simp [OccursAt, hne] at hs
    | cons a l ih =>
      rw [firstAt] at h
      by_cases hhere : w.isPrefixOf (a :: l) = true
      · simp [hhere] at h
      · rw [if_neg hhere, Option.map_eq_none_iff] at h
        cases s with
        | zero => exact hhere ( isPrefixOf_iff_prefix.2 hs)
        | succ s => exact ih h s hs
  · intro h
    cases hfirst : w.firstAt l with
    | none => rfl
    | some s => exact absurd ((firstAt_eq_some_iff hne).1 hfirst).1 (h s)

end

end List

/-! ### Bisection -/

/-- The elements of a sorted list up to a bound. -/
def bisectRight (l : List Nat) (x : Int) : Nat :=
  (l.takeWhile fun a : Nat => decide (Int.ofNat a ≤ x)).length

lemma bisectRight_le (l : List Nat) (x : Int) : bisectRight l x ≤ l.length :=
  (List.takeWhile_prefix _).length_le

lemma bisectRight_of_all {l : List Nat} {x : Int} (h : ∀ a ∈ l, (a : Int) ≤ x) :
    bisectRight l x = l.length := by
  induction l with
  | nil => rfl
  | cons a l ih =>
    rw [bisectRight, List.takeWhile_cons_of_pos (by simpa using h a (by simp))]
    exact congrArg (· + 1) (ih fun b hb => h b (by simp [hb]))

lemma bisectRight_append {l : List Nat} {x : Int} {a : Nat} (h : x < a) :
    bisectRight (l ++ [a]) x = bisectRight l x := by
  unfold bisectRight
  rw [List.takeWhile_append]
  split
  · next hall =>
    rw [List.takeWhile_cons_of_neg (by simpa using h), List.append_nil, hall]
  · rfl

/-- The last element up to the bound stands before the cut. -/
lemma bisectRight_spec {l : List Nat} (hl : l.Pairwise (· < ·)) (x : Int) :
    (bisectRight l x = 0 ∧ ∀ a ∈ l, x < a) ∨
      ∃ j a, bisectRight l x = j + 1 ∧ l[j]? = some a ∧ (a : Int) ≤ x ∧
        ∀ b ∈ l, (b : Int) ≤ x → b ≤ a := by
  induction l with
  | nil => exact .inl ⟨rfl, by simp⟩
  | cons a l ih =>
    obtain ⟨ha, hl⟩ := List.pairwise_cons.1 hl
    by_cases hx : (a : Int) ≤ x
    · right
      have hcons : bisectRight (a :: l) x = bisectRight l x + 1 := by
        rw [bisectRight, List.takeWhile_cons_of_pos (by simpa using hx)]
        rfl
      rw [hcons]
      obtain ⟨hzero, hall⟩ | ⟨j, b, hj, hb, hbx, hmax⟩ := ih hl
      · refine ⟨0, a, by rw [hzero], rfl, hx, fun b hb hbx => ?_⟩
        rcases List.mem_cons.1 hb with rfl | hb
        · exact Nat.le_refl _
        · have := hall b hb
          omega
      · refine ⟨j + 1, b, by rw [hj], by simpa using hb, hbx, fun d hd hdx => ?_⟩
        rcases List.mem_cons.1 hd with rfl | hd
        · exact Nat.le_of_lt (ha b (List.mem_of_getElem? hb))
        · exact hmax d hd hdx
    · left
      refine ⟨?_, fun b hb => ?_⟩
      · rw [bisectRight, List.takeWhile_cons_of_neg (by simpa using hx)]
        rfl
      · rcases List.mem_cons.1 hb with rfl | hb
        · omega
        · have := ha b hb
          omega

/-! ### The last place -/

/-- The last place with a property, `-1` where there is none. -/
def LastWhere (Q : Nat → Prop) (m : Int) : Prop :=
  (m = -1 ∧ ∀ s, ¬Q s) ∨ ∃ s : Nat, m = s ∧ Q s ∧ ∀ s', Q s' → s' ≤ s

namespace LastWhere

variable {Q R : Nat → Prop} {m m' : Int}

lemma congr (h : LastWhere Q m) (hQ : ∀ s, Q s ↔ R s) : LastWhere R m := by
  have : Q = R := funext fun s => propext (hQ s)
  exact this ▸ h

lemma neg_one_le (h : LastWhere Q m) : -1 ≤ m := by
  obtain ⟨rfl, -⟩ | ⟨s, rfl, -⟩ := h
  · exact Int.le_refl _
  · omega

lemma le (h : LastWhere Q m) {s : Nat} (hs : Q s) : (s : Int) ≤ m := by
  obtain ⟨-, hnone⟩ | ⟨s', rfl, -, hmax⟩ := h
  · exact absurd hs (hnone s)
  · exact Int.ofNat_le.2 (hmax s hs)

lemma exists_of_lt (h : LastWhere Q m) (hm : -1 < m) : ∃ s : Nat, m = s ∧ Q s := by
  obtain ⟨rfl, -⟩ | ⟨s, hs, hQ, -⟩ := h
  · omega
  · exact ⟨s, hs, hQ⟩

/-- The last place with one of two properties is the later one. -/
lemma later (h : LastWhere Q m) (h' : LastWhere R m') :
    LastWhere (fun s => Q s ∨ R s) (if m < m' then m' else m) := by
  have hlast := h.neg_one_le
  have hlast' := h'.neg_one_le
  have hle {s : Nat} (hs : Q s ∨ R s) : (s : Int) ≤ if m < m' then m' else m := by
    rcases hs with hs | hs
    · have := h.le hs
      split <;> omega
    · have := h'.le hs
      split <;> omega
  by_cases hnone : (if m < m' then m' else m) = -1
  · refine .inl ⟨hnone, fun s hs => ?_⟩
    have := hle hs
    omega
  · right
    have hmem : ∃ s : Nat, (if m < m' then m' else m) = s ∧ (Q s ∨ R s) := by
      split at hnone
      · obtain ⟨s, hs, hR⟩ := h'.exists_of_lt (by omega)
        exact ⟨s, by rw [if_pos ‹_›, hs], .inr hR⟩
      · obtain ⟨s, hs, hQ⟩ := h.exists_of_lt (by omega)
        exact ⟨s, by rw [if_neg ‹_›, hs], .inl hQ⟩
    obtain ⟨s, hs, hQR⟩ := hmem
    refine ⟨s, hs, hQR, fun s' hs' => ?_⟩
    have := hle hs'
    omega

end LastWhere

/-- The search from the back of a range finds the last place, where there is no later one. -/
lemma find?_reverse_range' (p : Nat → Bool) (lo len : Nat) :
    (∃ s, (List.range' lo len).reverse.find? p = some s ∧ p s ∧
        ∀ s', p s' → s' < lo + len → s' ≤ s) ∨
      ((List.range' lo len).reverse.find? p = none ∧ ∀ s, lo ≤ s → s < lo + len → p s = false) := by
  induction len with
  | zero => exact .inr ⟨rfl, by omega⟩
  | succ len ih =>
    have hcons : (List.range' lo (len + 1)).reverse = (lo + len) :: (List.range' lo len).reverse := by
      rw [List.range'_concat, List.reverse_append]
      simp
    rw [hcons]
    by_cases hp : p (lo + len)
    · exact .inl ⟨lo + len, List.find?_cons_of_pos hp, hp, fun s' _ _ => by omega⟩
    · rw [List.find?_cons_of_neg hp]
      obtain ⟨s, hs, hps, hmax⟩ | ⟨hnone, hall⟩ := ih
      · refine .inl ⟨s, hs, hps, fun s' hs' hlt => ?_⟩
        obtain rfl | hlt : s' = lo + len ∨ s' < lo + len := by omega
        · exact absurd hs' hp
        · exact hmax s' hs' hlt
      · refine .inr ⟨hnone, fun s hlo hlt => ?_⟩
        obtain rfl | hlt : s = lo + len ∨ s < lo + len := by omega
        · simpa using hp
        · exact hall s hlo hlt
