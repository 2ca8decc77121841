import Mathlib.Tactic.Lemma
import Mathlib.Data.List.Nodup

/-!
# Tables of rows

A table is the list of its rows in insertion order. `updateWhere` and `deleteWhere` are the SQL
statements of these names, `selectOne` is a `SELECT` of which the first row is fetched, and
`Keyed` says that no two rows agree on a key.
-/

namespace Rows

variable {ρ κ : Type*}

/-- `UPDATE … SET f WHERE p`. -/
def updateWhere (p : ρ → Prop) [DecidablePred p] (f : ρ → ρ) (t : List ρ) : List ρ :=
  t.map fun r => if p r then f r else r

/-- `DELETE … WHERE p`. -/
def deleteWhere (p : ρ → Prop) [DecidablePred p] (t : List ρ) : List ρ :=
  t.filter fun r => ¬ p r

/-- `SELECT … WHERE p`, the first row fetched. -/
def selectOne (p : ρ → Prop) [DecidablePred p] (t : List ρ) : Option ρ :=
  t.find? fun r => p r

/-- No two rows have the same key. -/
def Keyed (key : ρ → κ) (t : List ρ) : Prop := (t.map key).Nodup

section Membership

variable {p : ρ → Prop} [DecidablePred p] {f : ρ → ρ} {t : List ρ} {r : ρ}

lemma mem_updateWhere :
    r ∈ updateWhere p f t ↔ ∃ r₀ ∈ t, r = if p r₀ then f r₀ else r₀ := by
  simp [updateWhere, eq_comm]

@[simp] lemma mem_deleteWhere : r ∈ deleteWhere p t ↔ r ∈ t ∧ ¬ p r := by
  simp [deleteWhere]

lemma mem_of_mem_deleteWhere (h : r ∈ deleteWhere p t) : r ∈ t := (mem_deleteWhere.1 h).1

lemma mem_updateWhere_of_not (h : r ∈ t) (hp : ¬ p r) : r ∈ updateWhere p f t :=
  mem_updateWhere.2 ⟨r, h, by simp [hp]⟩

/-- A row after an update is an untouched row or the update of a row that met the condition. -/
lemma mem_updateWhere_cases (h : r ∈ updateWhere p f t) :
    (r ∈ t ∧ ¬ p r) ∨ ∃ r₀ ∈ t, p r₀ ∧ r = f r₀ := by
  obtain ⟨r₀, h₀, rfl⟩ := mem_updateWhere.1 h
  by_cases hp : p r₀
  · exact .inr ⟨r₀, h₀, hp, by simp [hp]⟩
  · exact .inl ⟨by simpa [hp] using h₀, by simp [hp]⟩

lemma selectOne_mem (h : selectOne p t = some r) : r ∈ t := List.mem_of_find?_eq_some h

lemma selectOne_holds (h : selectOne p t = some r) : p r := by
  simpa using List.find?_some h

lemma selectOne_eq_none : selectOne p t = none ↔ ∀ r ∈ t, ¬ p r := by
  simp [selectOne]

lemma selectOne_isSome : (selectOne p t).isSome ↔ ∃ r ∈ t, p r := by
  simp [selectOne]

/-- Where at most one row meets the condition, fetching finds that row. -/
lemma selectOne_eq_some (hr : r ∈ t) (hp : p r) (huniq : ∀ r' ∈ t, p r' → r' = r) :
    selectOne p t = some r := by
  cases h : selectOne p t with
  | none => exact absurd hp (selectOne_eq_none.1 h r hr)
  | some r' => rw [huniq r' (selectOne_mem h) (selectOne_holds h)]

lemma selectOne_congr {q : ρ → Prop} [DecidablePred q] (h : ∀ r, p r ↔ q r) :
    selectOne p t = selectOne q t := by
  simp only [selectOne, h]

/-- A row found after an update is the update of the row found before it. -/
lemma selectOne_updateWhere {q : ρ → Prop} [DecidablePred q] (h : ∀ r, q (f r) ↔ q r) :
    selectOne q (updateWhere p f t) = (selectOne q t).map fun r => if p r then f r else r := by
  have hq : (fun r => decide (q r)) ∘ (fun r => if p r then f r else r) = fun r => decide (q r) := by
    funext r
    by_cases hp : p r <;> simp [hp, h]
  rw [selectOne, updateWhere, List.find?_map, hq, selectOne]

/-- A deletion of other rows is not seen. -/
lemma selectOne_deleteWhere {q : ρ → Prop} [DecidablePred q] (h : ∀ r, q r → ¬ p r) :
    selectOne q (deleteWhere p t) = selectOne q t := by
  rw [selectOne, deleteWhere, List.find?_filter, selectOne]
  congr 1
  funext r
  by_cases hq : q r
  · simp [hq, h r hq]
  · simp [hq]

/-- A row found is found with more rows behind it. -/
lemma selectOne_append (h : selectOne p t = some r) (t' : List ρ) :
    selectOne p (t ++ t') = some r := by
  rw [selectOne, List.find?_append]
  rw [selectOne] at h
  rw [h]
  rfl

/-- Rows that were deleted are not found. -/
lemma selectOne_deleteWhere_self : selectOne p (deleteWhere p t) = none := by
  rw [selectOne_eq_none]
  exact fun r hr => (mem_deleteWhere.1 hr).2

/-- A new row is found where none was. -/
lemma selectOne_concat (h : selectOne p t = none) (hr : p r) : selectOne p (t ++ [r]) = some r := by
  rw [selectOne] at h ⊢
  rw [List.find?_append, h]
  simp [hr]

/-- A new row that does not meet the condition is not seen. -/
lemma selectOne_concat_of_not (hr : ¬ p r) : selectOne p (t ++ [r]) = selectOne p t := by
  rw [selectOne, List.find?_append, selectOne]
  simp [hr]

/-- The row that takes the place of those it stands for is found. -/
lemma selectOne_replaced (hr : p r) : selectOne p (deleteWhere p t ++ [r]) = some r :=
  selectOne_concat selectOne_deleteWhere_self hr

@[simp] lemma deleteWhere_nil : deleteWhere p ([] : List ρ) = [] := rfl

@[simp] lemma updateWhere_nil : updateWhere p f ([] : List ρ) = [] := rfl

lemma deleteWhere_eq_self (h : ∀ r ∈ t, ¬ p r) : deleteWhere p t = t := by
  simpa [deleteWhere] using h

lemma updateWhere_eq_self (h : ∀ r ∈ t, ¬ p r) : updateWhere p f t = t := by
  unfold updateWhere
  conv_rhs => rw [← List.map_id t]
  exact List.map_congr_left fun r hr => by simp [h r hr]

end Membership

section Keys

variable {key : ρ → κ} {p : ρ → Prop} [DecidablePred p] {f : ρ → ρ} {t : List ρ}

lemma Keyed.eq (h : Keyed key t) {r r' : ρ} (hr : r ∈ t) (hr' : r' ∈ t)
    (hk : key r = key r') : r = r' :=
  List.inj_on_of_nodup_map h hr hr' hk

/-- The key of a row tells whether a filter lets the row through. -/
lemma Keyed.mem_map_filter (h : Keyed key t) {q : ρ → Bool} {r : ρ} (hr : r ∈ t) :
    key r ∈ (t.filter q).map key ↔ q r = true := by
  constructor
  · intro hkey
    obtain ⟨r', hr', heq⟩ := List.mem_map.1 hkey
    obtain ⟨hr', hq⟩ := List.mem_filter.1 hr'
    obtain rfl := h.eq hr' hr heq
    exact hq
  · intro hq
    exact List.mem_map_of_mem (List.mem_filter.2 ⟨hr, hq⟩)

/-- Where the condition fixes the key, a row that meets it is the only one. -/
lemma Keyed.countP_eq_one (h : Keyed key t) {r : ρ} (hr : r ∈ t) (hp : p r)
    (huniq : ∀ r' ∈ t, p r' → key r' = key r) : t.countP (fun r => p r) = 1 := by
  obtain ⟨before, after, rfl⟩ := List.append_of_mem hr
  rw [Keyed, List.map_append, List.map_cons, List.nodup_append] at h
  obtain ⟨-, hafter, hapart⟩ := h
  have hbefore₀ : before.countP (fun r => p r) = 0 := by
    rw [List.countP_eq_zero]
    intro r' hr' hp'
    have hkey := huniq r' (List.mem_append_left _ hr') (by simpa using hp')
    exact hapart _ (List.mem_map_of_mem hr') _ List.mem_cons_self hkey
  have hafter₀ : after.countP (fun r => p r) = 0 := by
    rw [List.countP_eq_zero]
    intro r' hr' hp'
    have hkey := huniq r' (List.mem_append_right _ (List.mem_cons_of_mem _ hr'))
      (by simpa using hp')
    exact (List.nodup_cons.1 hafter).1 (hkey ▸ List.mem_map_of_mem hr')
  rw [List.countP_append, List.countP_cons, hbefore₀, hafter₀]
  simp [hp]

@[simp] lemma keyed_nil : Keyed key ([] : List ρ) := List.nodup_nil

lemma Keyed.deleteWhere (h : Keyed key t) : Keyed key (deleteWhere p t) :=
  h.sublist (List.filter_sublist.map key)

lemma Keyed.updateWhere (h : Keyed key t) (hf : ∀ r ∈ t, p r → key (f r) = key r) :
    Keyed key (updateWhere p f t) := by
  have : (Rows.updateWhere p f t).map key = t.map key := by
    simp only [Rows.updateWhere, List.map_map]
    refine List.map_congr_left fun r hr => ?_
    by_cases hp : p r <;> simp [hp, hf r hr]
  rwa [Keyed, this]

lemma Keyed.append_one (h : Keyed key t) {r : ρ} (hr : ∀ r' ∈ t, key r' ≠ key r) :
    Keyed key (t ++ [r]) := by
  rw [Keyed, List.map_append, List.nodup_append]
  refine ⟨h, by simp, fun a ha b hb => ?_⟩
  obtain ⟨r', hr', rfl⟩ := List.mem_map.1 ha
  simp only [List.map_cons, List.map_nil, List.mem_singleton] at hb
  exact hb ▸ hr r' hr'

lemma Keyed.append {t' : List ρ} (h : Keyed key t) (h' : Keyed key t')
    (hne : ∀ r ∈ t, ∀ r' ∈ t', key r ≠ key r') : Keyed key (t ++ t') := by
  rw [Keyed, List.map_append, List.nodup_append]
  refine ⟨h, h', fun a ha b hb => ?_⟩
  obtain ⟨r, hr, rfl⟩ := List.mem_map.1 ha
  obtain ⟨r', hr', rfl⟩ := List.mem_map.1 hb
  exact hne r hr r' hr'

/-- At most one row meets a condition that determines the key. -/
lemma Keyed.countP_le_one (h : Keyed key t)
    (huniq : ∀ r ∈ t, ∀ r' ∈ t, p r → p r' → key r = key r') : t.countP (p ·) ≤ 1 := by
  induction t with
  | nil => simp
  | cons r t ih =>
    have hcons := List.nodup_cons.1 h
    by_cases hp : p r
    · have hzero : t.countP (p ·) = 0 := by
        rw [List.countP_eq_zero]
        intro r' hr' hp'
        have hkey : key r = key r' := huniq r (by simp) r' (by simp [hr']) hp (by simpa using hp')
        exact hcons.1 (List.mem_map.2 ⟨r', hr', hkey.symm⟩)
      rw [List.countP_cons, hzero]
      simp [hp]
    · rw [List.countP_cons_of_neg (by simpa using hp)]
      exact ih hcons.2 fun r₁ h₁ r₂ h₂ => huniq r₁ (by simp [h₁]) r₂ (by simp [h₂])

end Keys

/-! ### Copies under new numbers -/

section Renumber

variable [BEq κ] [LawfulBEq κ] {base b : Nat} {key : ρ → κ} {t : List ρ} {a a' : κ}

/-- The map from the keys of rows to the numbers of their copies, which are consecutive. -/
def renumber (base : Nat) (key : ρ → κ) (t : List ρ) : List (κ × Nat) :=
  t.zipIdx.map fun ri => (key ri.1, base + ri.2)

omit [BEq κ] [LawfulBEq κ] in
lemma mem_renumber :
    (a, b) ∈ renumber base key t ↔ ∃ i r, t[i]? = some r ∧ key r = a ∧ b = base + i := by
  constructor
  · intro h
    obtain ⟨⟨r, i⟩, hri, hab⟩ := List.mem_map.1 h
    simp only [Prod.mk.injEq] at hab
    exact ⟨i, r, List.mk_mem_zipIdx_iff_getElem?.1 hri, hab.1, hab.2.symm⟩
  · rintro ⟨i, r, hi, rfl, rfl⟩
    exact List.mem_map.2 ⟨(r, i), List.mk_mem_zipIdx_iff_getElem?.2 hi, rfl⟩

/-- A number stands for a row at its position. -/
lemma lookup_renumber (h : (renumber base key t).lookup a = some b) :
    ∃ i r, t[i]? = some r ∧ key r = a ∧ b = base + i := by
  obtain ⟨l₁, l₂, heq, -⟩ := List.lookup_eq_some_iff.1 h
  exact mem_renumber.1 (by simp [heq])

lemma lookup_renumber_lt (h : (renumber base key t).lookup a = some b) :
    base ≤ b ∧ b < base + t.length := by
  obtain ⟨i, r, hi, -, rfl⟩ := lookup_renumber h
  obtain ⟨hlt, -⟩ := List.getElem?_eq_some_iff.1 hi
  exact ⟨Nat.le_add_right _ _, Nat.add_lt_add_left hlt _⟩

/-- No number stands for two keys. -/
lemma lookup_renumber_inj (h : (renumber base key t).lookup a = some b)
    (h' : (renumber base key t).lookup a' = some b) : a = a' := by
  obtain ⟨i, r, hi, rfl, rfl⟩ := lookup_renumber h
  obtain ⟨i', r', hi', rfl, hb⟩ := lookup_renumber h'
  have : i = i' := Nat.add_left_cancel hb
  subst this
  rw [Option.some.inj (hi.symm.trans hi')]

lemma lookup_renumber_isSome {r : ρ} (h : r ∈ t) :
    ∃ b, (renumber base key t).lookup (key r) = some b := by
  rw [← Option.isSome_iff_exists, List.lookup_isSome_iff]
  obtain ⟨i, hi⟩ := List.mem_iff_getElem?.1 h
  exact ⟨(key r, base + i), mem_renumber.2 ⟨i, r, hi, rfl, rfl⟩, by simp⟩

/-- The number of a row is that of its position. -/
lemma Keyed.lookup_renumber_eq (h : Keyed key t) {i : Nat} {r : ρ} (hi : t[i]? = some r) :
    (renumber base key t).lookup (key r) = some (base + i) := by
  have hsome : ∃ b, (renumber base key t).lookup (key r) = some b :=
    lookup_renumber_isSome (List.mem_of_getElem? hi)
  obtain ⟨b, hb⟩ := hsome
  obtain ⟨i', r', hi', hkey, rfl⟩ := lookup_renumber hb
  have hlt : i < (t.map key).length := by
    rw [List.length_map]
    exact (List.getElem?_eq_some_iff.1 hi).1
  have hpos : i = i' := by
    refine (List.getElem?_inj hlt h).1 ?_
    rw [List.getElem?_map, List.getElem?_map, hi, hi']
    simp [hkey]
  rw [hb, hpos]

/-- The number of the copy of the row with a key. -/
def number (base : Nat) (key : ρ → κ) (t : List ρ) (a : κ) : Nat :=
  ((renumber base key t).lookup a).getD 0

lemma lookup_renumber_of_mem (h : a ∈ t.map key) :
    (renumber base key t).lookup a = some (number base key t a) := by
  obtain ⟨r, hr, rfl⟩ := List.mem_map.1 h
  have hsome : ∃ b, (renumber base key t).lookup (key r) = some b := lookup_renumber_isSome hr
  obtain ⟨b, hb⟩ := hsome
  simp [number, hb]

lemma le_number (h : a ∈ t.map key) : base ≤ number base key t a :=
  (lookup_renumber_lt (lookup_renumber_of_mem h)).1

/-- No two keys have one number. -/
lemma number_inj (h : a ∈ t.map key) (h' : a' ∈ t.map key)
    (heq : number base key t a = number base key t a') : a = a' := by
  have hlook : (renumber base key t).lookup a = some (number base key t a) :=
    lookup_renumber_of_mem h
  rw [heq] at hlook
  exact lookup_renumber_inj hlook (lookup_renumber_of_mem h')

/-- Copies made one after the other are copies under the numbers of the rows. -/
lemma Keyed.map_zipIdx {σ : Type*} (h : Keyed key t) (base : Nat) (copy : ρ → Nat → σ) :
    t.zipIdx.map (fun ri => copy ri.1 (base + ri.2))
      = t.map fun r => copy r (number base key t (key r)) := by
  rw [← List.zipIdx_map_fst 0 t, List.map_map, List.zipIdx_map_fst]
  refine List.map_congr_left fun ri hri => ?_
  have hi : (renumber base key t).lookup (key ri.1) = some (base + ri.2) :=
    h.lookup_renumber_eq (List.mk_mem_zipIdx_iff_getElem?.1 hri)
  simp [number, hi]

/-- Copies are keyed by their numbers. -/
lemma keyed_copies {σ : Type*} {num : σ → Nat} {copy : ρ × Nat → σ}
    (h : ∀ r i, num (copy (r, i)) = base + i) (t : List ρ) : Keyed num (t.zipIdx.map copy) := by
  have hmap : (t.zipIdx.map copy).map num = (List.range' 0 t.length).map (base + ·) := by
    rw [List.map_map, ← List.zipIdx_map_snd 0 t, List.map_map]
    exact List.map_congr_left fun ri _ => h ri.1 ri.2
  rw [Keyed, hmap]
  exact (List.nodup_range' 1).map fun i j hij => Nat.add_left_cancel hij

end Renumber

end Rows
