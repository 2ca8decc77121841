import RentCompass.Json.Depth
import Mathlib.Data.List.Forall2
import Mathlib.Data.Option.Basic

/-!
# Equality of dicts

Two values are the same when they differ in the order of the keys of their dicts alone.
-/

namespace JsonValue

variable {φ : Type}

/-- The same value, up to the order of keys. -/
inductive Same : JsonValue φ → JsonValue φ → Prop
  | refl (v : JsonValue φ) : Same v v
  | arr {vs ws : List (JsonValue φ)} (length : vs.length = ws.length)
      (items : ∀ (i : Nat) (v w : JsonValue φ), vs[i]? = some v → ws[i]? = some w → Same v w) :
      Same (.arr vs) (.arr ws)
  | obj {d e : Dict (JsonValue φ)} (keys : ∀ key, (d.get? key).isSome = (e.get? key).isSome)
      (fields : ∀ key v w, d.get? key = some v → e.get? key = some w → Same v w) :
      Same (.obj d) (.obj e)

/-- The field of a dict, or null. -/
def fieldAt (v : JsonValue φ) (key : Text) : JsonValue φ :=
  match v with
  | .obj d => (Dict.get? d key).getD .null
  | _ => .null

def hasField (v : JsonValue φ) (key : Text) : Bool :=
  match v with
  | .obj d => (Dict.get? d key).isSome
  | _ => false

namespace Same

lemma isSome_eq {a b : Option (JsonValue φ)} (h : Option.Rel Same a b) : a.isSome = b.isSome := by
  cases h <;> rfl

/-- The same fields, where there are any. -/
lemma of_get? {d e : Dict (JsonValue φ)}
    (h : ∀ key, Option.Rel Same (d.get? key) (e.get? key)) : Same (.obj d) (.obj e) := by
  refine .obj (fun key => isSome_eq (h key)) fun key v w hv hw => ?_
  have hrel := h key
  rw [hv, hw] at hrel
  cases hrel
  assumption

lemma get? {d e : Dict (JsonValue φ)} (h : Same (.obj d) (.obj e)) (key : Text) :
    Option.Rel Same (d.get? key) (e.get? key) := by
  cases h with
  | refl =>
    cases d.get? key with
    | none => exact .none
    | some v => exact .some (.refl v)
  | obj keys fields =>
    have hkeys := keys key
    cases hd : d.get? key with
    | none =>
      cases he : e.get? key with
      | none => exact .none
      | some w => simp [hd, he] at hkeys
    | some v =>
      cases he : e.get? key with
      | none => simp [hd, he] at hkeys
      | some w => exact .some (fields key v w hd he)

lemma isSome_get? {d e : Dict (JsonValue φ)} (h : Same (.obj d) (.obj e)) (key : Text) :
    (d.get? key).isSome = (e.get? key).isSome := isSome_eq (h.get? key)

/-- A function that leaves each field the same leaves the dict the same. -/
lemma map_fields {d : Dict (JsonValue φ)} {f : Text → JsonValue φ → JsonValue φ}
    (h : ∀ p ∈ d, Same (f p.1 p.2) p.2) : Same (.obj (d.map fun p => (p.1, f p.1 p.2))) (.obj d) := by
  refine of_get? fun key => ?_
  rw [Dict.get?_map]
  cases hget : Dict.get? d key with
  | none => exact .none
  | some v => exact .some (h (key, v) (Dict.mem_of_get? hget))

lemma symm {v w : JsonValue φ} (h : Same v w) : Same w v := by
  induction h with
  | refl v => exact .refl v
  | arr length _ ih => exact .arr length.symm fun i v w hv hw => ih i w v hw hv
  | obj keys _ ih => exact .obj (fun key => (keys key).symm) fun key v w hv hw => ih key w v hw hv

/-- Items that are the same one by one. -/
lemma arr_iff {vs ws : List (JsonValue φ)} :
    Same (.arr vs) (.arr ws) ↔ List.Forall₂ Same vs ws := by
  rw [List.forall₂_iff_get]
  constructor
  · intro h
    cases h with
    | refl => exact ⟨rfl, fun i _ _ => .refl _⟩
    | arr length items =>
      refine ⟨length, fun i hv hw => items i _ _ ?_ ?_⟩
      · exact List.getElem?_eq_getElem hv
      · exact List.getElem?_eq_getElem hw
  · rintro ⟨length, items⟩
    refine .arr length fun i v w hv hw => ?_
    obtain ⟨hi, rfl⟩ := List.getElem?_eq_some_iff.1 hv
    obtain ⟨hi', rfl⟩ := List.getElem?_eq_some_iff.1 hw
    exact items i hi hi'

lemma map_items {vs : List (JsonValue φ)} {f : JsonValue φ → JsonValue φ}
    (h : ∀ v ∈ vs, Same (f v) v) : Same (.arr (vs.map f)) (.arr vs) := by
  rwa [arr_iff, List.forall₂_map_left_iff, List.forall₂_same]

lemma exists_arr {v : JsonValue φ} {ws : List (JsonValue φ)} (h : Same v (.arr ws)) :
    ∃ vs, v = .arr vs := by
  cases h with
  | refl => exact ⟨ws, rfl⟩
  | @arr vs => exact ⟨vs, rfl⟩

lemma eq_of_bool {b : Bool} {v : JsonValue φ} (h : Same (.bool b) v) : v = .bool b := by
  cases h
  rfl

lemma eq_of_str {s : Text} {v : JsonValue φ} (h : Same (.str s) v) : v = .str s := by
  cases h
  rfl

/-- A list of texts is the same as no other. -/
lemma eq_of_strs {names : List Text} {v : JsonValue φ} (h : Same (.arr (names.map .str)) v) :
    v = .arr (names.map .str) := by
  obtain ⟨vs, rfl⟩ := h.symm.exists_arr
  rw [arr_iff, List.forall₂_map_left_iff] at h
  congr 1
  induction h with
  | nil => rfl
  | cons hname _ ih => rw [hname.eq_of_str, ih, List.map_cons]

/-- No value is the same as the list that has nothing but it. -/
lemma not_singleton (v : JsonValue φ) : ¬ Same v (.arr [v]) := by
  intro h
  obtain ⟨vs, rfl⟩ := h.exists_arr
  induction hd : (JsonValue.arr vs).depth using Nat.strong_induction_on generalizing vs with
  | _ n ih =>
    subst hd
    rw [arr_iff] at h
    obtain ⟨v, _, hv, hnil, rfl⟩ := List.forall₂_cons_right_iff.1 h
    obtain rfl := List.forall₂_nil_right_iff.1 hnil
    obtain ⟨vs, rfl⟩ := hv.exists_arr
    exact ih _ (depth_lt_arr (List.mem_singleton_self _)) vs hv rfl

/-- What is the same as a dict is one. -/
lemma exists_obj {v : JsonValue φ} {e : Dict (JsonValue φ)} (h : Same v (.obj e)) :
    ∃ d, v = .obj d := by
  cases h with
  | refl => exact ⟨e, rfl⟩
  | @obj d => exact ⟨d, rfl⟩

lemma getD_null {a b : Option (JsonValue φ)} (h : Option.Rel Same a b) :
    Same (a.getD .null) (b.getD .null) := by
  cases h with
  | none => exact .refl _
  | some hv => exact hv

lemma fieldAt {v w : JsonValue φ} (h : Same v w) (key : Text) :
    Same (v.fieldAt key) (w.fieldAt key) := by
  cases h with
  | refl => exact .refl _
  | arr => exact .refl .null
  | obj keys fields => exact getD_null (get? (.obj keys fields) key)

lemma hasField {v w : JsonValue φ} (h : Same v w) (key : Text) :
    v.hasField key = w.hasField key := by
  cases h with
  | refl => rfl
  | arr => rfl
  | obj keys fields => exact isSome_get? (.obj keys fields) key

end Same

end JsonValue
