import Mathlib.Tactic.Lemma
import Mathlib.Logic.Basic

/-!
# Computations that fail and keep a state

A computation that raises leaves behind what it did until then. `Meets` says what holds in both
cases; its rules follow the structure of the computation.
-/

namespace EStateM

variable {ε ε' σ α β : Type}

/-- Fail with an error, unless the test holds. -/
def ensure (test : Prop) [Decidable test] (error : ε) : EStateM ε σ Unit := fun s =>
  if test then .ok () s else .error error s

/-- A computation that neither reads nor changes the state. -/
def fromExcept (x : Except ε α) : EStateM ε σ α := fun s =>
  match x with
  | .ok a => .ok a s
  | .error e => .error e s

/-- From `s` the computation succeeds with `Q`, or fails in a state of `E`. -/
def Meets (x : EStateM ε σ α) (s : σ) (Q : α → σ → Prop) (E : σ → Prop) : Prop :=
  match x s with
  | .ok a s' => Q a s'
  | .error _ s' => E s'

variable {s : σ} {Q Q' : α → σ → Prop} {E E' : σ → Prop}

lemma meets_of_ok {x : EStateM ε σ α} {a : α} {s' : σ} (h : x s = .ok a s') :
    x.Meets s Q E ↔ Q a s' := by
  rw [Meets, h]

lemma meets_of_error {x : EStateM ε σ α} {e : ε} {s' : σ} (h : x s = .error e s') :
    x.Meets s Q E ↔ E s' := by
  rw [Meets, h]

lemma Meets.imp {x : EStateM ε σ α} (h : x.Meets s Q E) (hQ : ∀ a s', Q a s' → Q' a s')
    (hE : ∀ s', E s' → E' s') : x.Meets s Q' E' := by
  unfold Meets at h ⊢
  cases hx : x s with
  | ok a s' =>
    rw [hx] at h
    exact hQ a s' h
  | error e s' =>
    rw [hx] at h
    exact hE s' h

lemma Meets.and {x : EStateM ε σ α} (h : x.Meets s Q E) (h' : x.Meets s Q' E') :
    x.Meets s (fun a s' => Q a s' ∧ Q' a s') (fun s' => E s' ∧ E' s') := by
  unfold Meets at h h' ⊢
  cases hx : x s with
  | ok a s' =>
    rw [hx] at h h'
    exact ⟨h, h'⟩
  | error e s' =>
    rw [hx] at h h'
    exact ⟨h, h'⟩

@[simp] lemma meets_pure {a : α} : (pure a : EStateM ε σ α).Meets s Q E ↔ Q a s := Iff.rfl

@[simp] lemma meets_throw {e : ε} : (throw e : EStateM ε σ α).Meets s Q E ↔ E s := Iff.rfl

@[simp] lemma meets_get {Q : σ → σ → Prop} : (get : EStateM ε σ σ).Meets s Q E ↔ Q s s := Iff.rfl

@[simp] lemma meets_bind {x : EStateM ε σ α} {f : α → EStateM ε σ β} {Q : β → σ → Prop} :
    (x >>= f).Meets s Q E ↔ x.Meets s (fun a s' => (f a).Meets s' Q E) E := by
  have hbind : (x >>= f) s = match x s with
    | .ok a s' => f a s'
    | .error e s' => .error e s' := rfl
  unfold Meets
  rw [hbind]
  cases x s <;> rfl

@[simp] lemma meets_ensure {test : Prop} [Decidable test] {error : ε} {Q : Unit → σ → Prop} :
    (ensure test error).Meets s Q E ↔ (test → Q () s) ∧ (¬ test → E s) := by
  by_cases h : test
  · simp [Meets, ensure, h]
  · simp [Meets, ensure, h]

@[simp] lemma meets_fromExcept {x : Except ε α} :
    (fromExcept x).Meets s Q E ↔ (∀ a, x = .ok a → Q a s) ∧ (∀ e, x = .error e → E s) := by
  cases x with
  | ok a => simp [Meets, fromExcept]
  | error e => simp [Meets, fromExcept]

@[simp] lemma meets_adaptExcept {x : EStateM ε σ α} {f : ε → ε'} :
    (adaptExcept f x).Meets s Q E ↔ x.Meets s Q E := by
  unfold Meets adaptExcept
  cases x s <;> rfl

/-! ### Runs that succeed -/

@[simp] lemma bind_eq_ok {x : EStateM ε σ α} {f : α → EStateM ε σ β} {b : β} {s' : σ} :
    (x >>= f) s = .ok b s' ↔ ∃ a t, x s = .ok a t ∧ f a t = .ok b s' := by
  have hbind : (x >>= f) s = match x s with
    | .ok a s' => f a s'
    | .error e s' => .error e s' := rfl
  rw [hbind]
  cases x s with
  | ok a t =>
    constructor
    · intro h
      exact ⟨a, t, rfl, h⟩
    · rintro ⟨a', t', h, hf⟩
      cases h
      exact hf
  | error e t => simp

@[simp] lemma pure_eq_ok {a b : α} {s' : σ} :
    (pure a : EStateM ε σ α) s = .ok b s' ↔ a = b ∧ s = s' := by
  have hpure : (pure a : EStateM ε σ α) s = .ok a s := rfl
  rw [hpure, Result.ok.injEq]

@[simp] lemma ensure_eq_ok {test : Prop} [Decidable test] {error : ε} {u : Unit} {s' : σ} :
    ensure test error s = .ok u s' ↔ test ∧ s = s' := by
  by_cases h : test
  · simp [ensure, h]
  · simp [ensure, h]

@[simp] lemma fromExcept_eq_ok {x : Except ε α} {a : α} {s' : σ} :
    fromExcept x s = .ok a s' ↔ x = .ok a ∧ s = s' := by
  cases x with
  | ok b => simp [fromExcept]
  | error e => simp [fromExcept]

@[simp] lemma adaptExcept_eq_ok {x : EStateM ε σ α} {f : ε → ε'} {a : α} {s' : σ} :
    adaptExcept f x s = .ok a s' ↔ x s = .ok a s' := by
  unfold adaptExcept
  cases x s with
  | ok b t => simp
  | error e t => simp

/-- Every turn of a loop that succeeds has succeeded, and so have the turns behind it. -/
lemma exists_of_forM_ok {f : α → EStateM ε σ Unit} {l : List α} {s' : σ}
    (h : l.forM f s = .ok () s') :
    ∀ a ∈ l, ∃ (t t' : σ) (rest : List α), f a t = .ok () t' ∧ (∀ b ∈ rest, b ∈ l) ∧
      rest.forM f t' = .ok () s' := by
  induction l generalizing s with
  | nil => simp
  | cons a l ih =>
    have hcons : (a :: l).forM f = f a >>= fun _ => l.forM f := rfl
    rw [hcons, bind_eq_ok] at h
    obtain ⟨⟨⟩, t, ha, hl⟩ := h
    intro b hb
    rcases List.mem_cons.1 hb with rfl | hb
    · exact ⟨s, t, l, ha, fun c hc => List.mem_cons_of_mem _ hc, hl⟩
    · obtain ⟨u, u', rest, hf, hmem, hrest⟩ := ih hl b hb
      exact ⟨u, u', rest, hf, fun c hc => List.mem_cons_of_mem _ (hmem c hc), hrest⟩

end EStateM
