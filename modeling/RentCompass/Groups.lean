import Mathlib.Tactic.Lemma
import Mathlib.Data.List.Nodup

/-!
# A dictionary of sets

A loop that files the members of each row under the key of the row, where a row may have no key.
A group is the set of what the rows of its key put into it; the keys stand in the order in which
they were first met.
-/

namespace Groups

variable {ρ κ α : Type*} [DecidableEq κ] [DecidableEq α] (key : ρ → Option κ)
  (members : ρ → List α)

/-- One turn of the loop: `groups.setdefault(key, set()).update(members)`. -/
def add (groups : List (κ × List α)) (r : ρ) : List (κ × List α) :=
  match key r with
  | none => groups
  | some k =>
    if k ∈ groups.map Prod.fst then
      groups.map fun g => if g.1 = k then (k, members r ∪ g.2) else g
    else groups ++ [(k, members r ∪ [])]

/-- The dictionary of the rows. -/
def build (rs : List ρ) : List (κ × List α) := rs.foldl (add key members) []

/-- The dictionary is what the rows say. -/
structure Collects (rs : List ρ) (groups : List (κ × List α)) : Prop where
  keys : (groups.map Prod.fst).Nodup
  mem_keys : ∀ k, k ∈ groups.map Prod.fst ↔ ∃ r ∈ rs, key r = some k
  nodup : ∀ g ∈ groups, g.2.Nodup
  mem : ∀ g ∈ groups, ∀ x, x ∈ g.2 ↔ ∃ r ∈ rs, key r = some g.1 ∧ x ∈ members r

variable {key members} {rs : List ρ} {groups : List (κ × List α)} {r : ρ}

omit [DecidableEq α] in
lemma map_fst_update (k : κ) (f : List α → List α) (groups : List (κ × List α)) :
    (groups.map fun g => if g.1 = k then (k, f g.2) else g).map Prod.fst = groups.map Prod.fst := by
  rw [List.map_map]
  refine List.map_congr_left fun g _ => ?_
  by_cases h : g.1 = k
  · simp [h]
  · simp [h]

omit [DecidableEq κ] [DecidableEq α] in
/-- A row without a key is not seen. -/
lemma Collects.skip (h : Collects key members rs groups) (hr : key r = none) :
    Collects key members (rs ++ [r]) groups where
  keys := h.keys
  mem_keys := fun k => by simp [h.mem_keys, hr]
  nodup := h.nodup
  mem := fun g hg x => by simp [h.mem g hg, hr]

/-- A row of a key that was met before adds to its group. -/
lemma Collects.update (h : Collects key members rs groups) {k : κ} (hr : key r = some k)
    (hk : k ∈ groups.map Prod.fst) :
    Collects key members (rs ++ [r])
      (groups.map fun g => if g.1 = k then (k, members r ∪ g.2) else g) := by
  have hold : ∃ r' ∈ rs, key r' = some k := (h.mem_keys k).1 hk
  constructor
  case keys =>
    rw [map_fst_update k (members r ∪ ·)]
    exact h.keys
  case mem_keys =>
    intro k'
    rw [map_fst_update k (members r ∪ ·), h.mem_keys]
    constructor
    · rintro ⟨r', hr', hkey⟩
      exact ⟨r', List.mem_append_left _ hr', hkey⟩
    · rintro ⟨r', hr', hkey⟩
      rcases List.mem_append.1 hr' with hr' | hr'
      · exact ⟨r', hr', hkey⟩
      · obtain rfl := List.mem_singleton.1 hr'
        obtain rfl := Option.some.inj (hr.symm.trans hkey)
        exact hold
  case nodup =>
    intro g hg
    obtain ⟨g₀, hg₀, rfl⟩ := List.mem_map.1 hg
    split
    · exact (h.nodup g₀ hg₀).union _
    · exact h.nodup g₀ hg₀
  case mem =>
    intro g hg x
    obtain ⟨g₀, hg₀, rfl⟩ := List.mem_map.1 hg
    by_cases hkey : g₀.1 = k
    · have hmem := h.mem g₀ hg₀ x
      rw [hkey] at hmem
      simp [hkey, hmem, hr, or_and_right, exists_or, or_comm]
    · have hne : ¬ k = g₀.1 := fun heq => hkey heq.symm
      simp [hkey, h.mem g₀ hg₀, hr, hne]

omit [DecidableEq κ] in
/-- A row of a new key opens its group. -/
lemma Collects.open_group (h : Collects key members rs groups) {k : κ} (hr : key r = some k)
    (hk : k ∉ groups.map Prod.fst) :
    Collects key members (rs ++ [r]) (groups ++ [(k, members r ∪ [])]) := by
  have hnew : ∀ r' ∈ rs, key r' ≠ some k := fun r' hr' hkey => hk ((h.mem_keys k).2 ⟨r', hr', hkey⟩)
  constructor
  case keys =>
    rw [List.map_append, List.nodup_append]
    refine ⟨h.keys, by simp, fun a ha b hb => ?_⟩
    rintro rfl
    obtain rfl := List.mem_singleton.1 hb
    exact hk ha
  case mem_keys =>
    intro k'
    rw [List.map_append, List.mem_append, h.mem_keys]
    simp [hr, or_and_right, exists_or, eq_comm]
  case nodup =>
    intro g hg
    rcases List.mem_append.1 hg with hg | hg
    · exact h.nodup g hg
    · rw [List.mem_singleton.1 hg]
      exact List.nodup_nil.union _
  case mem =>
    intro g hg x
    rcases List.mem_append.1 hg with hg | hg
    · have hne : ¬ k = g.1 := fun heq => hk (heq ▸ List.mem_map_of_mem hg)
      simp [h.mem g hg, hr, hne]
    · rw [List.mem_singleton.1 hg]
      have hnone : ¬ ∃ r' ∈ rs, key r' = some k ∧ x ∈ members r' := by
        rintro ⟨r', hr', hkey, -⟩
        exact hnew r' hr' hkey
      simp [hr, or_and_right, exists_or, hnone]

lemma Collects.add (h : Collects key members rs groups) (r : ρ) :
    Collects key members (rs ++ [r]) (add key members groups r) := by
  unfold Groups.add
  split
  · next hr => exact h.skip hr
  · next k hr =>
    split
    · next hk => exact h.update hr hk
    · next hk => exact h.open_group hr hk

lemma collects_foldl (h : Collects key members rs groups) (rs' : List ρ) :
    Collects key members (rs ++ rs') (rs'.foldl (Groups.add key members) groups) := by
  induction rs' generalizing rs groups with
  | nil => simpa using h
  | cons r rs' ih => simpa using ih (h.add r)

theorem collects_build (key : ρ → Option κ) (members : ρ → List α) (rs : List ρ) :
    Collects key members rs (build key members rs) := by
  have hnil : Collects key members [] [] := ⟨by simp, by simp, by simp, by simp⟩
  simpa [build] using collects_foldl hnil rs

end Groups
