import Mathlib.Tactic.Lemma
import Mathlib.Data.List.Nodup
import RentCompass.Narrowing

/-!
# Deleting the oldest

A table with one row for each key is cut to a size: the keys of the oldest rows are selected, and
the rows of these keys deleted. What is left is the rest of the rows by age.
-/

namespace Oldest

variable {ρ κ τ : Type*} [DecidableEq κ] [LinearOrder τ] (key : ρ → κ) (age : ρ → τ)

/-- `SELECT key … ORDER BY age ASC LIMIT n` -/
def select (n : ℕ) (rows : List ρ) : List κ := ((Narrowing.sortBy age rows).take n).map key

/-- Delete the oldest rows, if there are more than so many. -/
def evict (most : ℕ) (rows : List ρ) : List ρ :=
  rows.filter fun r => key r ∉ select key age (rows.length - most) rows

variable {key age} {most : ℕ} {rows : List ρ}

lemma evict_sublist : (evict key age most rows).Sublist rows := List.filter_sublist

omit [DecidableEq κ] in
lemma sortBy_perm (age : ρ → τ) (rows : List ρ) :
    (Narrowing.sortBy age rows).Perm rows :=
  List.perm_insertionSort _ rows

lemma filter_drop {n : ℕ} {l : List ρ} (h : (l.map key).Nodup) :
    (l.filter fun r => key r ∉ (l.take n).map key) = l.drop n := by
  have hsplit : l = l.take n ++ l.drop n := (List.take_append_drop n l).symm
  have hdisjoint : ∀ r ∈ l.drop n, key r ∉ (l.take n).map key := by
    intro r hr hmem
    rw [hsplit, List.map_append] at h
    exact (List.nodup_append.1 h).2.2 _ hmem _ (List.mem_map_of_mem hr) rfl
  calc (l.filter fun r => key r ∉ (l.take n).map key)
      = (l.take n).filter (fun r => key r ∉ (l.take n).map key) ++
          (l.drop n).filter fun r => key r ∉ (l.take n).map key := by
        rw [← List.filter_append, List.take_append_drop]
    _ = [] ++ l.drop n := by
        congr 1
        · rw [List.filter_eq_nil_iff]
          intro r hr hnot
          exact of_decide_eq_true hnot (List.mem_map_of_mem hr)
        · rw [List.filter_eq_self]
          intro r hr
          exact decide_eq_true (hdisjoint r hr)
    _ = l.drop n := List.nil_append _

/-- What is left are the youngest. -/
theorem evict_perm (h : (rows.map key).Nodup) :
    (evict key age most rows).Perm ((Narrowing.sortBy age rows).drop (rows.length - most)) := by
  have hnodup : ((Narrowing.sortBy age rows).map key).Nodup :=
    ((sortBy_perm age rows).map key).nodup_iff.2 h
  rw [← filter_drop (n := rows.length - most) hnodup]
  exact (sortBy_perm age rows).symm.filter _

theorem length_evict_le (h : (rows.map key).Nodup) : (evict key age most rows).length ≤ most := by
  rw [(evict_perm h).length_eq, List.length_drop, (sortBy_perm age rows).length_eq]
  omega

/-- What is deleted is not younger than what is left. -/
theorem evict_oldest (h : (rows.map key).Nodup) {r r' : ρ} (hr : r ∈ rows)
    (hout : r ∉ evict key age most rows) (hr' : r' ∈ evict key age most rows) :
    age r ≤ age r' := by
  rw [(evict_perm h).mem_iff] at hout hr'
  have hsorted : (Narrowing.sortBy age rows).Pairwise fun a b => age a ≤ age b :=
    List.pairwise_insertionSort _ rows
  have hmem : r ∈ Narrowing.sortBy age rows := (sortBy_perm age rows).mem_iff.2 hr
  rw [← List.take_append_drop (rows.length - most) (Narrowing.sortBy age rows)] at hsorted hmem
  have hfirst := (List.mem_append.1 hmem).resolve_right hout
  exact (List.pairwise_append.1 hsorted).2.2 r hfirst r' hr'

end Oldest
