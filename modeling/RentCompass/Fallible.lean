import Mathlib.Data.List.Forall2
import Mathlib.Tactic.Lemma

/-!
# Computations that may fail

What a result says of the steps it was computed by.
-/

namespace Except

variable {ε α β : Type}

@[simp] lemma bind_eq_ok {x : Except ε α} {f : α → Except ε β} {b : β} :
    x >>= f = .ok b ↔ ∃ a, x = .ok a ∧ f a = .ok b := by
  cases x with
  | error e => simp [bind, Except.bind]
  | ok a => simp [bind, Except.bind]

@[simp] lemma pure_eq_ok {a b : α} : (pure a : Except ε α) = .ok b ↔ a = b := by
  simp [pure, Except.pure]

@[simp] lemma mapError_eq_ok {ε' : Type} {x : Except ε α} {f : ε → ε'} {a : α} :
    x.mapError f = .ok a ↔ x = .ok a := by
  cases x <;> simp [Except.mapError]

/-- Fail with an error, unless the test holds. -/
def ensure (test : Prop) [Decidable test] (error : ε) : Except ε Unit :=
  if test then .ok () else .error error

@[simp] lemma ensure_eq_ok {test : Prop} [Decidable test] {error : ε} {u : Unit} :
    ensure test error = .ok u ↔ test := by
  by_cases h : test <;> simp [ensure, h]

/-- The value, or an error where there is none. -/
def ofOption (x : Option α) (error : ε) : Except ε α :=
  match x with
  | some a => .ok a
  | none => .error error

@[simp] lemma ofOption_eq_ok {x : Option α} {error : ε} {a : α} :
    ofOption x error = .ok a ↔ x = some a := by
  cases x <;> simp [ofOption]

lemma exists_ok_of_toOption_map {x : Except ε α} {f : α → β} {b : β}
    (h : x.toOption.map f = some b) : ∃ a, x = .ok a ∧ f a = b := by
  cases x with
  | error e => simp [Except.toOption] at h
  | ok a => exact ⟨a, rfl, by simpa [Except.toOption] using h⟩

end Except

namespace List

variable {ε α β : Type}

lemma forall₂_of_mapM_ok {f : α → Except ε β} {l : List α} {r : List β}
    (h : l.mapM f = .ok r) : Forall₂ (fun a b => f a = .ok b) l r := by
  induction l generalizing r with
  | nil =>
    simp only [mapM_nil, Except.pure_eq_ok] at h
    subst h
    exact .nil
  | cons a l ih =>
    simp only [mapM_cons, Except.bind_eq_ok, Except.pure_eq_ok] at h
    obtain ⟨b, hb, r, hr, rfl⟩ := h
    exact .cons hb (ih hr)

lemma forM_eq_ok {f : α → Except ε Unit} {l : List α} :
    l.forM f = .ok () ↔ ∀ a ∈ l, f a = .ok () := by
  induction l with
  | nil => simp
  | cons a l ih =>
    have hcons : (a :: l).forM f = f a >>= fun _ => l.forM f := rfl
    rw [hcons, Except.bind_eq_ok]
    constructor
    · rintro ⟨⟨⟩, ha, hl⟩
      exact forall_mem_cons.2 ⟨ha, ih.1 hl⟩
    · intro h
      exact ⟨(), h a mem_cons_self, ih.2 fun b hb => h b (mem_cons_of_mem _ hb)⟩

/-- What every step of a fold preserves holds of its result. -/
lemma foldlM_preserves {f : β → α → Except ε β} {I : β → Prop}
    (hf : ∀ b a b', I b → f b a = .ok b' → I b') {l : List α} {b b' : β} (hb : I b)
    (h : l.foldlM f b = .ok b') : I b' := by
  induction l generalizing b with
  | nil =>
    cases h
    exact hb
  | cons a l ih =>
    rw [foldlM_cons, Except.bind_eq_ok] at h
    obtain ⟨b₁, hb₁, h⟩ := h
    exact ih (hf b a b₁ hb hb₁) h

lemma forall₂_of_mapM_some {f : α → Option β} {l : List α} {r : List β}
    (h : l.mapM f = some r) : Forall₂ (fun a b => f a = some b) l r := by
  induction l generalizing r with
  | nil =>
    cases h
    exact .nil
  | cons a l ih =>
    simp only [mapM_cons, Option.bind_eq_bind, Option.bind_eq_some_iff] at h
    obtain ⟨b, hb, r, hr, h⟩ := h
    cases h
    exact .cons hb (ih hr)

lemma exists_forall₂ {R : α → β → Prop} {l : List α} (h : ∀ a ∈ l, ∃ b, R a b) :
    ∃ r, Forall₂ R l r := by
  induction l with
  | nil => exact ⟨[], .nil⟩
  | cons a l ih =>
    obtain ⟨b, hb⟩ := h a mem_cons_self
    obtain ⟨r, hr⟩ := ih fun a ha => h a (mem_cons_of_mem _ ha)
    exact ⟨b :: r, .cons hb hr⟩

lemma Forall₂.map_eq {γ : Type} {R : α → β → Prop} {l : List α} {r : List β} (h : Forall₂ R l r)
    {f : β → γ} {g : α → γ} (hfg : ∀ a b, R a b → f b = g a) : r.map f = l.map g := by
  induction h with
  | nil => rfl
  | cons hab _ ih => rw [map_cons, map_cons, hfg _ _ hab, ih]

lemma Forall₂.exists_right {R : α → β → Prop} {l : List α} {r : List β} (h : Forall₂ R l r)
    {a : α} (ha : a ∈ l) : ∃ b ∈ r, R a b := by
  induction h with
  | nil => cases ha
  | cons hab _ ih =>
    rcases mem_cons.1 ha with rfl | ha
    · exact ⟨_, mem_cons_self, hab⟩
    · obtain ⟨b, hb, hR⟩ := ih ha
      exact ⟨b, mem_cons_of_mem _ hb, hR⟩

lemma Forall₂.exists_left {R : α → β → Prop} {l : List α} {r : List β} (h : Forall₂ R l r)
    {b : β} (hb : b ∈ r) : ∃ a ∈ l, R a b := by
  induction h with
  | nil => cases hb
  | cons hab _ ih =>
    rcases mem_cons.1 hb with rfl | hb
    · exact ⟨_, mem_cons_self, hab⟩
    · obtain ⟨a, ha, hR⟩ := ih hb
      exact ⟨a, mem_cons_of_mem _ ha, hR⟩

end List
