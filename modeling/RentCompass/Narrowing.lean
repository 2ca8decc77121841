import Mathlib.Tactic.Lemma
import Mathlib.Order.Nat
import Mathlib.Data.List.Sort

/-!
# Narrowing a list

Some elements are kept, put in a stable order by a key, and cut to a limit. What comes out is told
by the places of the elements in the list, and to narrow it again in the same way changes nothing.
-/

namespace Narrowing

variable {α β : Type*} [LinearOrder β]

/-- Sort by a key: equal keys stay in their order. -/
def sortBy (key : α → β) (l : List α) : List α := l.insertionSort fun a b => key a ≤ key b

/-- Sort by the key, where there is one. -/
def order (key : Option (α → β)) (l : List α) : List α :=
  match key with
  | none => l
  | some key => sortBy key l

/-- The first so many elements; a limit of zero is none. -/
def cut (limit : Nat) (l : List α) : List α := if limit = 0 then l else l.take limit

/-- Keep, order and cut. -/
def narrow (keep : α → Bool) (key : Option (α → β)) (limit : Nat) (l : List α) : List α :=
  cut limit (order key (l.filter keep))

variable {keep : α → Bool} {key : Option (α → β)} {limit : Nat} {l : List α}

/-! ### Stability -/

/-- Of two elements the first has the smaller key, or the same and stood before the other. -/
def Precedes (key : Option (α → β)) (stoodBefore : Prop) (a b : α) : Prop :=
  match key with
  | none => stoodBefore
  | some key => key a < key b ∨ key a = key b ∧ stoodBefore

lemma pairwise_orderedInsert {key : α → β} {R : α → α → Prop} {a : α} {l : List α}
    (hl : l.Pairwise fun a b => Precedes (some key) (R a b) a b) (ha : ∀ b ∈ l, R a b) :
    (l.orderedInsert (fun a b => key a ≤ key b) a).Pairwise
      fun a b => Precedes (some key) (R a b) a b := by
  induction l with
  | nil => simp
  | cons b l ih =>
    obtain ⟨hb, hl⟩ := List.pairwise_cons.1 hl
    rw [List.orderedInsert_cons]
    split_ifs with hle
    · refine List.pairwise_cons.2 ⟨fun c hc => ?_, List.pairwise_cons.2 ⟨hb, hl⟩⟩
      have hkey : key a ≤ key c := by
        rcases List.mem_cons.1 hc with rfl | hc
        · exact hle
        · rcases hb c hc with hlt | ⟨heq, -⟩
          · exact hle.trans hlt.le
          · exact hle.trans heq.le
      rcases hkey.lt_or_eq with hlt | heq
      · exact .inl hlt
      · exact .inr ⟨heq, ha c hc⟩
    · refine List.pairwise_cons.2 ⟨fun c hc => ?_, ih hl fun c hc => ha c (List.mem_cons_of_mem _ hc)⟩
      rcases (List.mem_orderedInsert _).1 hc with rfl | hc
      · exact .inl (not_le.1 hle)
      · exact hb c hc

/-- Sorting keeps the order of what it does not separate. -/
lemma pairwise_order {R : α → α → Prop} (hl : l.Pairwise R) (key : Option (α → β)) :
    (order key l).Pairwise fun a b => Precedes key (R a b) a b := by
  cases key with
  | none => exact hl
  | some key =>
    rw [order, sortBy]
    induction l with
    | nil => exact .nil
    | cons a l ih =>
      obtain ⟨ha, hl⟩ := List.pairwise_cons.1 hl
      rw [List.insertionSort_cons]
      refine pairwise_orderedInsert (ih hl) fun b hb => ha b ?_
      exact (List.mem_insertionSort _).1 hb

lemma perm_order (key : Option (α → β)) (l : List α) : (order key l).Perm l := by
  cases key with
  | none => exact .refl l
  | some key => exact List.perm_insertionSort _ l

lemma cut_sublist (limit : Nat) (l : List α) : (cut limit l).Sublist l := by
  rw [cut]
  split_ifs
  · exact .refl l
  · exact List.take_sublist limit l

lemma narrow_subperm : (narrow keep key limit l).Subperm l :=
  ((cut_sublist _ _).subperm.trans (perm_order key _).subperm).trans
    List.filter_sublist.subperm

lemma mem_of_mem_narrow {a : α} (h : a ∈ narrow keep key limit l) : a ∈ l ∧ keep a = true := by
  have hmem := (perm_order key _).subset ((cut_sublist _ _).subset h)
  exact List.mem_filter.1 hmem

/-! ### Once is enough -/

/-- What is in order stays as it is. -/
lemma order_eq_self (h : l.Pairwise fun a b => ∀ k ∈ key, k a ≤ k b) : order key l = l := by
  cases key with
  | none => rfl
  | some key => exact List.Pairwise.insertionSort_eq (h.imp fun hab => hab key rfl)

lemma pairwise_narrow : (narrow keep key limit l).Pairwise fun a b => ∀ k ∈ key, k a ≤ k b := by
  refine List.Pairwise.sublist (cut_sublist _ _) ?_
  have htrue : (l.filter keep).Pairwise fun _ _ => True := List.pairwise_of_forall fun _ _ => trivial
  refine (pairwise_order htrue key).imp fun {a b} hab k hk => ?_
  obtain rfl := Option.mem_def.1 hk
  rcases hab with hlt | ⟨heq, -⟩
  · exact hlt.le
  · exact heq.le

/-- To narrow again in the same way changes nothing. -/
theorem narrow_narrow :
    narrow keep key limit (narrow keep key limit l) = narrow keep key limit l := by
  have hfilter : (narrow keep key limit l).filter keep = narrow keep key limit l :=
    List.filter_eq_self.2 fun a ha => (mem_of_mem_narrow ha).2
  rw [narrow, hfilter, order_eq_self pairwise_narrow]
  have hcut : cut limit (cut limit (order key (l.filter keep))) =
      cut limit (order key (l.filter keep)) := by
    rw [cut, cut]
    split_ifs
    · rfl
    · rw [List.take_take, min_self]
  exact hcut

/-! ### Places -/

lemma map_order {γ : Type*} (f : γ → α) (key : Option (α → β)) (l : List γ) :
    (order (key.map (· ∘ f)) l).map f = order key (l.map f) := by
  cases key with
  | none => rfl
  | some key => exact List.map_insertionSort _ _ f l fun _ _ _ _ => Iff.rfl

lemma map_cut {γ : Type*} (f : γ → α) (limit : Nat) (l : List γ) :
    (cut limit l).map f = cut limit (l.map f) := by
  rw [cut, cut]
  split_ifs
  · rfl
  · exact List.map_take

/-- The element at the one place comes before the element at the other. -/
def Before (key : Option (α → β)) (l : List α) (i j : Nat) : Prop :=
  ∀ a b, l[i]? = some a → l[j]? = some b → Precedes key (i < j) a b

/-- The elements with their places, narrowed as far as the order. -/
def placed (keep : α → Bool) (key : Option (α → β)) (l : List α) : List (α × Nat) :=
  order (key.map (· ∘ Prod.fst)) (l.zipIdx.filter fun p => keep p.1)

lemma map_fst_placed : (placed keep key l).map Prod.fst = order key (l.filter keep) := by
  have hfilter : (l.zipIdx.filter fun p => keep p.1).map Prod.fst = l.filter keep := by
    conv_rhs => rw [← List.zipIdx_map_fst 0 l]
    rw [List.filter_map]
    rfl
  rw [placed, map_order, hfilter]

lemma mem_placed {p : α × Nat} :
    p ∈ placed keep key l ↔ l[p.2]? = some p.1 ∧ keep p.1 = true := by
  rw [placed, (perm_order _ _).mem_iff, List.mem_filter, List.mem_zipIdx_iff_getElem?]

lemma pairwise_placed : (placed keep key l).Pairwise
    fun p q => Precedes key (p.2 < q.2) p.1 q.1 := by
  have hindex : l.zipIdx.Pairwise fun p q => p.2 < q.2 := by
    have hmap : (l.zipIdx.map Prod.snd).Pairwise (· < ·) := by
      rw [List.zipIdx_map_snd]
      exact List.pairwise_lt_range'
    exact List.pairwise_map.1 hmap
  have hkept : (l.zipIdx.filter fun p => keep p.1).Pairwise fun p q => p.2 < q.2 :=
    hindex.sublist List.filter_sublist
  have hpairs := pairwise_order hkept (key.map (· ∘ Prod.fst))
  refine hpairs.imp fun {p q} hpq => ?_
  cases key with
  | none => exact hpq
  | some key => exact hpq

lemma nodup_placed : ((placed keep key l).map Prod.snd).Nodup := by
  have hperm : (placed keep key l).Perm (l.zipIdx.filter fun p => keep p.1) := perm_order _ _
  rw [(hperm.map Prod.snd).nodup_iff]
  refine List.Nodup.sublist (List.filter_sublist.map Prod.snd) ?_
  rw [List.zipIdx_map_snd]
  exact List.nodup_range'

/-- The places that are kept, in their order; the list holds the first of their elements. -/
theorem narrow_places (keep : α → Bool) (key : Option (α → β)) (limit : Nat) (l : List α) :
    ∃ places : List Nat, places.Nodup ∧
      (∀ i, i ∈ places ↔ ∃ a, l[i]? = some a ∧ keep a = true) ∧
      places.Pairwise (Before key l) ∧
      (narrow keep key limit l).map some = (cut limit places).map (l[·]?) := by
  refine ⟨(placed keep key l).map Prod.snd, nodup_placed, ?_, ?_, ?_⟩
  · intro i
    rw [List.mem_map]
    constructor
    · rintro ⟨p, hp, rfl⟩
      exact ⟨p.1, mem_placed.1 hp⟩
    · rintro ⟨a, ha⟩
      exact ⟨(a, i), mem_placed.2 ha, rfl⟩
  · rw [List.pairwise_map]
    refine pairwise_placed.imp_of_mem fun {p q} hp hq hpq a b ha hb => ?_
    obtain rfl := Option.some.inj ((mem_placed.1 hp).1.symm.trans ha)
    obtain rfl := Option.some.inj ((mem_placed.1 hq).1.symm.trans hb)
    exact hpq
  · rw [narrow, ← map_fst_placed, ← map_cut, ← map_cut, List.map_map, List.map_map]
    refine List.map_congr_left fun p hp => ?_
    exact (mem_placed.1 ((cut_sublist _ _).subset hp)).1.symm

end Narrowing
