import Mathlib.Data.List.Sort
import Mathlib.Data.List.Lex
import RentCompass.Text

/-!
# JSON values

The values of a JSON text as Python reads them: integers are unbounded, floats are those of a
format `φ`, an object is a `dict`, which keeps the order its keys were inserted in.
-/

/-- A Python `dict` with `str` keys, in insertion order. -/
abbrev Dict (α : Type) := List (Text × α)

namespace Dict

variable {α β : Type}

/-- The keys in order. -/
def keys (d : Dict α) : List Text := d.map (·.1)

/-- `d.get(key)`. -/
def get? (d : Dict α) (key : Text) : Option α := d.lookup key

/-- `d[key] = value`: a key that is there keeps its place. -/
def insert (d : Dict α) (key : Text) (value : α) : Dict α :=
  match d with
  | [] => [(key, value)]
  | (k, v) :: d => if k = key then (key, value) :: d else (k, v) :: insert d key value

/-- `dict(pairs)`. -/
def ofPairs (pairs : List (Text × α)) : Dict α :=
  pairs.foldl (fun d p => d.insert p.1 p.2) []

/-- `d.update(e)`. -/
def update (d e : Dict α) : Dict α := e.foldl (fun d p => d.insert p.1 p.2) d

/-- `d.pop(key, None)`. -/
def erase (d : Dict α) (key : Text) : Dict α := d.filter fun p => p.1 ≠ key

/-- `sorted(d.items())`, the keys being distinct. -/
def sortKeys (d : Dict α) : Dict α := d.insertionSort (fun p q => p.1 ≤ q.1)

lemma insert_of_notMem {d : Dict α} {key : Text} (h : key ∉ d.keys) (value : α) :
    d.insert key value = d ++ [(key, value)] := by
  induction d with
  | nil => rfl
  | cons p d ih =>
    simp only [keys, List.map_cons, List.mem_cons, not_or] at h
    simp [insert, Ne.symm h.1, ih h.2]

lemma ofPairs_of_nodup {pairs : List (Text × α)} (h : (keys pairs).Nodup) :
    ofPairs pairs = pairs := by
  have key : ∀ (l d : Dict α), (keys (d ++ l)).Nodup →
      l.foldl (fun d p => d.insert p.1 p.2) d = d ++ l := by
    intro l
    induction l with
    | nil => simp
    | cons p l ih =>
      intro d hd
      have hp : p.1 ∉ d.keys := by
        simp only [keys, List.map_append, List.map_cons, List.nodup_append] at hd
        exact fun hm => hd.2.2 _ hm p.1 (by simp) rfl
      simp only [List.foldl_cons, insert_of_notMem hp]
      rw [ih (d ++ [(p.1, p.2)]) (by simpa using hd)]
      simp
  simpa [ofPairs] using key pairs [] (by simpa using h)

lemma sortKeys_perm (d : Dict α) : d.sortKeys.Perm d := List.perm_insertionSort _ d

lemma mem_sortKeys {d : Dict α} {p : Text × α} : p ∈ d.sortKeys ↔ p ∈ d :=
  (sortKeys_perm d).mem_iff

lemma keys_sortKeys_nodup {d : Dict α} : d.sortKeys.keys.Nodup ↔ d.keys.Nodup :=
  ((sortKeys_perm d).map _).nodup_iff

lemma map_sortKeys (f : α → β) (d : Dict α) :
    sortKeys (d.map fun p => (p.1, f p.2)) = d.sortKeys.map fun p => (p.1, f p.2) :=
  (List.map_insertionSort _ _ (fun p : Text × α => (p.1, f p.2)) d fun _ _ _ _ => Iff.rfl).symm

lemma mem_iff_get? {d : Dict α} (h : d.keys.Nodup) {key : Text} {value : α} :
    (key, value) ∈ d ↔ d.get? key = some value := by
  induction d with
  | nil => simp [get?]
  | cons p d ih =>
    obtain ⟨k, v⟩ := p
    obtain ⟨hk, hd⟩ := List.nodup_cons.1 h
    simp only [get?, List.lookup_cons, List.mem_cons, Prod.mk.injEq] at ih ⊢
    by_cases hkey : key = k
    · subst hkey
      have hout : (key, value) ∉ d := fun hm => hk (List.mem_map_of_mem (f := (·.1)) hm)
      simp [hout, eq_comm]
    · have hne : (key == k) = false := by simpa using hkey
      simp [hkey, hne, ih hd]

lemma get?_sortKeys {d : Dict α} (h : d.keys.Nodup) (key : Text) :
    d.sortKeys.get? key = d.get? key := by
  ext value
  rw [← mem_iff_get? h, ← mem_iff_get? (keys_sortKeys_nodup.2 h), mem_sortKeys]

lemma get?_eq_none {d : Dict α} {key : Text} (h : key ∉ d.keys) : d.get? key = none := by
  induction d with
  | nil => rfl
  | cons p d ih =>
    obtain ⟨k, v⟩ := p
    simp only [keys, List.map_cons, List.mem_cons, not_or] at h
    have hne : (key == k) = false := by simpa using h.1
    simpa [get?, List.lookup_cons, hne] using ih h.2

lemma mem_of_get? {d : Dict α} {key : Text} {value : α} (h : d.get? key = some value) :
    (key, value) ∈ d := by
  induction d with
  | nil => cases h
  | cons p d ih =>
    obtain ⟨k, v⟩ := p
    by_cases hkey : key = k
    · subst hkey
      simp only [get?, List.lookup_cons, beq_self_eq_true, Option.some.injEq] at h
      exact h ▸ List.mem_cons_self
    · have hne : (key == k) = false := by simpa using hkey
      simp only [get?, List.lookup_cons, hne] at h
      exact List.mem_cons_of_mem _ (ih h)

lemma mem_keys_of_get? {d : Dict α} {key : Text} {value : α} (h : d.get? key = some value) :
    key ∈ d.keys := List.mem_map_of_mem (f := (·.1)) (mem_of_get? h)

lemma exists_get? {d : Dict α} {key : Text} (h : key ∈ d.keys) : ∃ value, d.get? key = some value := by
  induction d with
  | nil => cases h
  | cons p d ih =>
    obtain ⟨k, v⟩ := p
    by_cases hkey : key = k
    · exact ⟨v, by simp [get?, hkey]⟩
    · have hne : (key == k) = false := by simpa using hkey
      obtain ⟨value, hvalue⟩ := ih ((List.mem_cons.1 h).resolve_left hkey)
      exact ⟨value, by simpa [get?, List.lookup_cons, hne] using hvalue⟩

lemma get?_insert (d : Dict α) (key key' : Text) (value : α) :
    (d.insert key value).get? key' = if key' = key then some value else d.get? key' := by
  induction d with
  | nil =>
    by_cases h : key' = key
    · simp [insert, get?, h]
    · simp [insert, get?, h]
  | cons p d ih =>
    obtain ⟨k, v⟩ := p
    by_cases hk : k = key
    · subst hk
      by_cases h : key' = k
      · simp [insert, get?, h]
      · have hne : (key' == k) = false := by simpa using h
        simp [insert, get?, List.lookup_cons, h, hne]
    · simp only [insert, if_neg hk, get?, List.lookup_cons] at ih ⊢
      by_cases h : key' = k
      · subst h
        simp [hk]
      · have hne : (key' == k) = false := by simpa using h
        simp only [hne, ih]

/-- To put a value where it already is changes nothing. -/
lemma insert_of_get? {d : Dict α} {key : Text} {value : α} (h : d.get? key = some value) :
    d.insert key value = d := by
  induction d with
  | nil => cases h
  | cons p d ih =>
    obtain ⟨k, v⟩ := p
    by_cases hk : k = key
    · subst hk
      simp only [get?, List.lookup_cons, beq_self_eq_true, Option.some.injEq] at h
      simp [insert, h]
    · have hne : (key == k) = false := by simpa using Ne.symm hk
      simp only [get?, List.lookup_cons, hne] at h
      rw [insert, if_neg hk, ih h]

lemma insert_insert (d : Dict α) (key : Text) (value value' : α) :
    (d.insert key value).insert key value' = d.insert key value' := by
  induction d with
  | nil => simp [insert]
  | cons p d ih =>
    obtain ⟨k, v⟩ := p
    by_cases hk : k = key
    · simp [insert, hk]
    · simp [insert, hk, ih]

lemma get?_update (d : Dict α) {e : Dict α} (he : e.keys.Nodup) (key : Text) :
    (d.update e).get? key = (e.get? key).or (d.get? key) := by
  induction e generalizing d with
  | nil => rfl
  | cons p e ih =>
    obtain ⟨k, v⟩ := p
    obtain ⟨hk, he⟩ := List.nodup_cons.1 he
    have hfold := ih (d.insert k v) he
    rw [update, List.foldl_cons, ← update, hfold, get?_insert]
    by_cases hkey : key = k
    · subst hkey
      have hnone : get? e key = none := get?_eq_none hk
      have hhead : get? ((key, v) :: e) key = some v := by simp [get?]
      rw [hnone, hhead, if_pos rfl]
      rfl
    · have hne : (key == k) = false := by simpa using hkey
      simp [get?, List.lookup_cons, hne, hkey]

lemma get?_filter {d : Dict α} {p : Text → Bool} {key : Text} (hkey : p key = true) :
    get? (d.filter fun x => p x.1) key = d.get? key := by
  induction d with
  | nil => rfl
  | cons x d ih =>
    obtain ⟨k, v⟩ := x
    by_cases hk : key = k
    · subst hk
      simp [get?, hkey]
    · have hne : (key == k) = false := by simpa using hk
      cases hp : p k with
      | true => simpa [get?, List.lookup_cons, hne, hp] using ih
      | false => simpa [get?, List.lookup_cons, hne, hp] using ih

lemma get?_erase (d : Dict α) (key key' : Text) :
    (d.erase key).get? key' = if key' = key then none else d.get? key' := by
  split_ifs with h
  · refine get?_eq_none fun hmem => ?_
    obtain ⟨p, hp, hkey⟩ := List.mem_map.1 hmem
    have hne := (List.mem_filter.1 hp).2
    simp [hkey, h] at hne
  · exact get?_filter (p := fun k => decide (k ≠ key)) (by simpa using h)

lemma mem_insert_of_ne {d : Dict α} {key key' : Text} {value value' : α} (h : key' ≠ key) :
    (key', value') ∈ d.insert key value ↔ (key', value') ∈ d := by
  induction d with
  | nil => simp [insert, h]
  | cons p d ih =>
    obtain ⟨k, v⟩ := p
    by_cases hk : k = key
    · subst hk
      simp [insert, h]
    · simp [insert, hk, ih]

lemma keys_insert_nodup {d : Dict α} (h : d.keys.Nodup) (key : Text) (value : α) :
    (d.insert key value).keys.Nodup ∧
      ∀ k, k ∈ (d.insert key value).keys ↔ k ∈ d.keys ∨ k = key := by
  induction d with
  | nil => simp [insert, keys]
  | cons p d ih =>
    obtain ⟨k, v⟩ := p
    simp only [keys, List.map_cons, List.nodup_cons] at h
    obtain ⟨hnodup, hmem⟩ := ih h.2
    by_cases hk : k = key
    · subst hk
      simp only [insert, if_true, keys, List.map_cons]
      refine ⟨List.nodup_cons.2 h, fun k' => ?_⟩
      simp [or_comm]
    · simp only [insert, if_neg hk, keys, List.map_cons, List.mem_cons] at hnodup hmem ⊢
      refine ⟨List.nodup_cons.2 ⟨fun hin => ?_, hnodup⟩, fun k' => ?_⟩
      · exact ((hmem k).1 hin).elim h.1 hk
      · rw [hmem, or_assoc]

lemma keys_filterMap_sublist (d : Dict α) (f : Text → α → Option β) :
    (keys (d.filterMap fun p => (f p.1 p.2).map (p.1, ·))).Sublist d.keys := by
  induction d with
  | nil => exact .slnil
  | cons p d ih =>
    cases hp : f p.1 p.2 with
    | none => simpa [keys, hp] using ih.trans (List.sublist_cons_self _ _)
    | some v => simpa [keys, hp] using ih.cons_cons p.1

lemma keys_filterMap_nodup {d : Dict α} (h : d.keys.Nodup) (f : Text → α → Option β) :
    (keys (d.filterMap fun p => (f p.1 p.2).map (p.1, ·))).Nodup :=
  h.sublist (keys_filterMap_sublist d f)

/-- Go through the fields, keeping the keys. -/
lemma get?_filterMap {d : Dict α} (h : d.keys.Nodup) (f : Text → α → Option β) (key : Text) :
    get? (d.filterMap fun p => (f p.1 p.2).map (p.1, ·)) key = (d.get? key).bind (f key) := by
  induction d with
  | nil => rfl
  | cons p d ih =>
    obtain ⟨k, v⟩ := p
    obtain ⟨hk, hd⟩ := List.nodup_cons.1 h
    by_cases hkey : key = k
    · subst hkey
      cases hf : f key v with
      | some w => simp [get?, hf]
      | none =>
        have hout := fun hm => hk ((keys_filterMap_sublist d f).subset hm)
        have := get?_eq_none hout
        simp only [List.filterMap_cons, hf, Option.map_none]
        rw [this]
        simp [get?, hf]
    · have hne : (key == k) = false := by simpa using hkey
      have ih := ih hd
      cases hf : f k v with
      | none => simpa [get?, List.lookup_cons, hne, hf] using ih
      | some w => simpa [get?, List.lookup_cons, hne, hf] using ih

/-- Where no value under the key is left out, the keys need not be distinct. -/
lemma get?_filterMap_of_isSome (d : Dict α) {f : Text → α → Option β} {key : Text}
    (hf : ∀ value, (f key value).isSome) :
    get? (d.filterMap fun p => (f p.1 p.2).map (p.1, ·)) key = (d.get? key).bind (f key) := by
  induction d with
  | nil => rfl
  | cons p d ih =>
    obtain ⟨k, v⟩ := p
    by_cases hkey : key = k
    · subst hkey
      obtain ⟨w, hw⟩ := Option.isSome_iff_exists.1 (hf v)
      simp [get?, hw]
    · have hne : (key == k) = false := by simpa using hkey
      cases hw : f k v with
      | none => simpa [get?, List.lookup_cons, hne, hw] using ih
      | some w => simpa [get?, List.lookup_cons, hne, hw] using ih

lemma get?_map (d : Dict α) (f : Text → α → β) (key : Text) :
    get? (d.map fun p => (p.1, f p.1 p.2)) key = (d.get? key).map (f key) := by
  induction d with
  | nil => rfl
  | cons p d ih =>
    obtain ⟨k, v⟩ := p
    by_cases hkey : key = k
    · simp [get?, hkey]
    · have hne : (key == k) = false := by simpa using hkey
      simpa [get?, List.lookup_cons, hne] using ih

@[simp] lemma sortKeys_eq_nil {d : Dict α} : d.sortKeys = [] ↔ d = [] := by
  constructor
  · intro h
    have := (sortKeys_perm d)
    rw [h] at this
    exact this.nil_eq.symm
  · rintro rfl
    rfl

end Dict

/-- A JSON value. -/
inductive JsonValue (φ : Type) where
  | null
  | bool (b : Bool)
  | int (n : Int)
  | float (x : φ)
  | str (s : Text)
  | arr (items : List (JsonValue φ))
  | obj (fields : List (Text × JsonValue φ))

namespace JsonValue

variable {φ : Type}

instance : Inhabited (JsonValue φ) := ⟨.null⟩

/-- Induction on a value, with the hypothesis for every item and every field. -/
@[elab_as_elim]
theorem induct {P : JsonValue φ → Prop} (null : P .null) (bool : ∀ b, P (.bool b))
    (int : ∀ n, P (.int n)) (float : ∀ x, P (.float x)) (str : ∀ s, P (.str s))
    (arr : ∀ items, (∀ v ∈ items, P v) → P (.arr items))
    (obj : ∀ fields, (∀ p ∈ fields, P p.2) → P (.obj fields)) (v : JsonValue φ) : P v :=
  JsonValue.rec (motive_1 := P) (motive_2 := fun items => ∀ v ∈ items, P v)
    (motive_3 := fun fields => ∀ p ∈ fields, P p.2) (motive_4 := fun p => P p.2)
    null bool int float str arr obj (by simp)
    (fun _ _ hv hl w hw => (List.mem_cons.1 hw).elim (fun h => h ▸ hv) (hl w)) (by simp)
    (fun _ _ hp hl q hq => (List.mem_cons.1 hq).elim (fun h => h ▸ hp) (hl q))
    (fun _ _ hv => hv) v

mutual

/-- The test holds of the value and of every value inside it. -/
def all (p : JsonValue φ → Bool) : JsonValue φ → Bool
  | .arr items => p (.arr items) && allItems p items
  | .obj fields => p (.obj fields) && allFields p fields
  | v => p v

def allItems (p : JsonValue φ → Bool) : List (JsonValue φ) → Bool
  | [] => true
  | v :: items => v.all p && allItems p items

def allFields (p : JsonValue φ → Bool) : List (Text × JsonValue φ) → Bool
  | [] => true
  | (_, v) :: fields => v.all p && allFields p fields

end

mutual

/-- Rewrite every value, the inner ones first. -/
def rewrite (f : JsonValue φ → JsonValue φ) : JsonValue φ → JsonValue φ
  | .arr items => f (.arr (rewriteItems f items))
  | .obj fields => f (.obj (rewriteFields f fields))
  | v => f v

def rewriteItems (f : JsonValue φ → JsonValue φ) : List (JsonValue φ) → List (JsonValue φ)
  | [] => []
  | v :: items => v.rewrite f :: rewriteItems f items

def rewriteFields (f : JsonValue φ → JsonValue φ) : List (Text × JsonValue φ) → List (Text × JsonValue φ)
  | [] => []
  | (k, v) :: fields => (k, v.rewrite f) :: rewriteFields f fields

end

lemma all_arr (p : JsonValue φ → Bool) (items : List (JsonValue φ)) :
    (arr items).all p = (p (.arr items) && items.all (·.all p)) := by
  have h : allItems p items = items.all (·.all p) := by
    induction items with
    | nil => rfl
    | cons v items ih => simp [allItems, ih]
  simp [all, h]

lemma all_obj (p : JsonValue φ → Bool) (fields : List (Text × JsonValue φ)) :
    (obj fields).all p = (p (.obj fields) && fields.all (·.2.all p)) := by
  have h : allFields p fields = fields.all (·.2.all p) := by
    induction fields with
    | nil => rfl
    | cons q fields ih => simp [allFields, ih]
  simp [all, h]

lemma rewriteItems_eq (f : JsonValue φ → JsonValue φ) (items : List (JsonValue φ)) :
    rewriteItems f items = items.map (·.rewrite f) := by
  induction items with
  | nil => rfl
  | cons v items ih => simp [rewriteItems, ih]

lemma rewriteFields_eq (f : JsonValue φ → JsonValue φ) (fields : List (Text × JsonValue φ)) :
    rewriteFields f fields = fields.map fun p => (p.1, p.2.rewrite f) := by
  induction fields with
  | nil => rfl
  | cons q fields ih => simp [rewriteFields, ih]

@[simp] lemma rewrite_arr (f : JsonValue φ → JsonValue φ) (items : List (JsonValue φ)) :
    (arr items).rewrite f = f (.arr (items.map (·.rewrite f))) := by
  simp [rewrite, rewriteItems_eq]

@[simp] lemma rewrite_obj (f : JsonValue φ → JsonValue φ) (fields : List (Text × JsonValue φ)) :
    (obj fields).rewrite f = f (.obj (fields.map fun p => (p.1, p.2.rewrite f))) := by
  simp [rewrite, rewriteFields_eq]

/-- Every object has distinct keys, as a `dict` does. -/
def distinctKeys (v : JsonValue φ) : Bool :=
  v.all fun
    | .obj fields => (Dict.keys fields).Nodup
    | _ => true

/-- The keys of every object in sorted order: the same value, as `dict`s compare. -/
def sorted (v : JsonValue φ) : JsonValue φ :=
  v.rewrite fun
    | .obj fields => .obj (Dict.sortKeys fields)
    | v => v

@[simp] lemma sorted_arr (items : List (JsonValue φ)) :
    (arr items).sorted = .arr (items.map sorted) := by
  rw [sorted, rewrite_arr]
  rfl

@[simp] lemma sorted_obj (fields : List (Text × JsonValue φ)) :
    (obj fields).sorted = .obj (Dict.sortKeys (fields.map fun p => (p.1, p.2.sorted))) := by
  rw [sorted, rewrite_obj]
  rfl

/-- Objects that are equal up to the order of keys are so field by field. -/
lemma get?_of_sorted_eq {d d' : Dict (JsonValue φ)} (hd : (Dict.keys d).Nodup)
    (hd' : (Dict.keys d').Nodup) (h : (obj d).sorted = (obj d').sorted) (key : Text) :
    (Dict.get? (d.map fun p => (p.1, p.2.sorted)) key) =
      Dict.get? (d'.map fun p => (p.1, p.2.sorted)) key := by
  have hkeys (d : Dict (JsonValue φ)) :
      Dict.keys (d.map fun p => (p.1, p.2.sorted)) = Dict.keys d := by
    simp [Dict.keys, Function.comp_def]
  simp only [sorted_obj, obj.injEq] at h
  calc Dict.get? (d.map fun p => (p.1, p.2.sorted)) key
      = (Dict.sortKeys (d.map fun p => (p.1, p.2.sorted))).get? key :=
        (Dict.get?_sortKeys (by rwa [hkeys]) key).symm
    _ = (Dict.sortKeys (d'.map fun p => (p.1, p.2.sorted))).get? key := by rw [h]
    _ = Dict.get? (d'.map fun p => (p.1, p.2.sorted)) key :=
        Dict.get?_sortKeys (by rwa [hkeys]) key

lemma distinctKeys_arr {items : List (JsonValue φ)} :
    (arr items).distinctKeys ↔ ∀ v ∈ items, v.distinctKeys := by
  simp [distinctKeys, all_arr]

lemma distinctKeys_obj {fields : List (Text × JsonValue φ)} :
    (obj fields).distinctKeys ↔
      (Dict.keys fields).Nodup ∧ ∀ p ∈ fields, p.2.distinctKeys := by
  simp [distinctKeys, all_obj]

end JsonValue
