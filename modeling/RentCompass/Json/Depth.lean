import RentCompass.Json.Value

/-!
# Recursion on the depth of a value

A function that looks up a field and goes on into it does not follow the constructors. It is
defined here by the depth of the value, and unfolded without it.
-/

namespace JsonValue

variable {φ α : Type}

mutual

/-- How deep the value is nested. -/
def depth : JsonValue φ → Nat
  | .arr items => depthItems items + 1
  | .obj fields => depthFields fields + 1
  | _ => 0

def depthItems : List (JsonValue φ) → Nat
  | [] => 0
  | v :: items => max v.depth (depthItems items)

def depthFields : List (Text × JsonValue φ) → Nat
  | [] => 0
  | (_, v) :: fields => max v.depth (depthFields fields)

end

lemma depth_le_depthItems {v : JsonValue φ} {items : List (JsonValue φ)} (h : v ∈ items) :
    v.depth ≤ depthItems items := by
  induction items with
  | nil => cases h
  | cons w items ih =>
    rcases List.mem_cons.1 h with rfl | h
    · exact le_max_left _ _
    · exact (ih h).trans (le_max_right _ _)

lemma depth_le_depthFields {p : Text × JsonValue φ} {fields : List (Text × JsonValue φ)}
    (h : p ∈ fields) : p.2.depth ≤ depthFields fields := by
  induction fields with
  | nil => cases h
  | cons q fields ih =>
    rcases List.mem_cons.1 h with rfl | h
    · exact le_max_left _ _
    · exact (ih h).trans (le_max_right _ _)

lemma depth_lt_arr {v : JsonValue φ} {items : List (JsonValue φ)} (h : v ∈ items) :
    v.depth < (arr items).depth := Nat.lt_succ_of_le (depth_le_depthItems h)

lemma depth_lt_obj {p : Text × JsonValue φ} {fields : List (Text × JsonValue φ)}
    (h : p ∈ fields) : p.2.depth < (obj fields).depth := Nat.lt_succ_of_le (depth_le_depthFields h)

/-- A value that was looked up lies in the object. -/
lemma depth_lt_get? {fields : Dict (JsonValue φ)} {key : Text} {v : JsonValue φ}
    (h : fields.get? key = some v) : v.depth < (obj fields).depth :=
  depth_lt_obj (Dict.mem_of_get? h)

/-- A part of an object is no deeper. -/
lemma depthFields_mono {fields fields' : List (Text × JsonValue φ)} (h : fields ⊆ fields') :
    depthFields fields ≤ depthFields fields' := by
  induction fields with
  | nil => exact Nat.zero_le _
  | cons p fields ih =>
    obtain ⟨hp, hrest⟩ := List.cons_subset.1 h
    exact max_le (depth_le_depthFields hp) (ih hrest)

/-- Unfold a recursion this often. -/
def iterate (step : (JsonValue φ → α) → JsonValue φ → α) (default : α) : Nat → JsonValue φ → α
  | 0, _ => default
  | n + 1, v => step (iterate step default n) v

/-- The function that `step` defines from its values on less deep arguments. -/
def byDepth [Inhabited α] (step : (JsonValue φ → α) → JsonValue φ → α) (v : JsonValue φ) : α :=
  iterate step default (v.depth + 1) v

/-- The step looks only at less deep values. -/
def LooksBelow (step : (JsonValue φ → α) → JsonValue φ → α) : Prop :=
  ∀ v f g, (∀ w : JsonValue φ, w.depth < v.depth → f w = g w) → step f v = step g v

lemma iterate_eq {step : (JsonValue φ → α) → JsonValue φ → α} (h : LooksBelow step) (default : α)
    (v : JsonValue φ) {m n : Nat} (hm : v.depth < m) (hn : v.depth < n) :
    iterate step default m v = iterate step default n v := by
  induction m generalizing v n with
  | zero => exact absurd hm (Nat.not_lt_zero _)
  | succ m ih =>
    cases n with
    | zero => exact absurd hn (Nat.not_lt_zero _)
    | succ n => exact h v _ _ fun w hw => ih w (by omega) (by omega)

/-- The recursion unfolds, whatever the depth. -/
theorem byDepth_eq [Inhabited α] {step : (JsonValue φ → α) → JsonValue φ → α}
    (h : LooksBelow step) (v : JsonValue φ) : byDepth step v = step (byDepth step) v :=
  h v _ _ fun w hw => iterate_eq h default w hw (Nat.lt_succ_self _)

end JsonValue
