import RentCompass.Json.Reading

/-!
# Reading back what was written

`json.loads` of `json.dumps` is the value itself, up to the order of the keys where they are
sorted. The value must be one a `dict` can hold, with finite floats.
-/

namespace JsonValue

variable {φ : Type} [FloatFormat φ]

/-! ### Values -/

/-- The floats are finite. -/
def finite (v : JsonValue φ) : Bool :=
  v.all fun
    | .float x => FloatFormat.isFinite x
    | _ => true

lemma finite_arr {items : List (JsonValue φ)} : (arr items).finite ↔ ∀ v ∈ items, v.finite := by
  simp [finite, all_arr]

lemma finite_obj {fields : List (Text × JsonValue φ)} :
    (obj fields).finite ↔ ∀ p ∈ fields, p.2.finite := by
  simp [finite, all_obj]

/-- The value as it comes back from a text. -/
def ordered (style : Style) (v : JsonValue φ) : JsonValue φ := if style.sortKeys then v.sorted else v

lemma dumpsItems_eq (style : Style) (items : List (JsonValue φ)) :
    dumpsItems style items = items.map (·.dumps style) := by
  induction items with
  | nil => rfl
  | cons v items ih => simp [dumpsItems, ih]

lemma dumpsFields_eq (style : Style) (fields : List (Text × JsonValue φ)) :
    dumpsFields style fields = fields.map fun p => (p.1, p.2.dumps style) := by
  induction fields with
  | nil => rfl
  | cons p fields ih => simp [dumpsFields, ih]

/-- The items of an array as they are written. -/
def itemsText (style : Style) (items : List (JsonValue φ)) : Text :=
  style.itemSep.intercalate (items.map (·.dumps style))

/-- The fields of an object as they are written, already in their order. -/
def fieldsText (style : Style) (fields : Dict (JsonValue φ)) : Text :=
  style.itemSep.intercalate (fields.map fun p => style.field (p.1, p.2.dumps style))

lemma dumps_arr (style : Style) (items : List (JsonValue φ)) :
    (arr items).dumps style = openArr :: itemsText style items ++ [closeArr] := by
  simp [dumps, dumpsItems_eq, itemsText]

lemma order_map {α β : Type} (style : Style) (f : α → β) (fields : Dict α) :
    style.order (fields.map fun p => (p.1, f p.2)) =
      (style.order fields).map fun p => (p.1, f p.2) := by
  by_cases h : style.sortKeys
  · simp [Style.order, h, Dict.map_sortKeys]
  · simp [Style.order, h]

lemma mem_order {α : Type} {style : Style} {fields : Dict α} {p : Text × α} :
    p ∈ style.order fields ↔ p ∈ fields := by
  by_cases h : style.sortKeys
  · simp [Style.order, h, Dict.mem_sortKeys]
  · simp [Style.order, h]

lemma dumps_obj (style : Style) (fields : List (Text × JsonValue φ)) :
    (obj fields).dumps style =
      openObj :: fieldsText style (style.order fields) ++ [closeObj] := by
  simp only [dumps, dumpsFields_eq, fieldsText, order_map, List.map_map]
  rfl

omit [FloatFormat φ] in
lemma ordered_of_sorted {style : Style} {v : JsonValue φ} (h : v.sorted = v) :
    v.ordered style = v := by
  unfold ordered
  split_ifs
  · exact h
  · rfl

omit [FloatFormat φ] in
lemma ordered_arr (style : Style) (items : List (JsonValue φ)) :
    (arr items).ordered style = .arr (items.map (ordered style)) := by
  unfold ordered
  by_cases h : style.sortKeys <;> simp [h]

omit [FloatFormat φ] in
lemma ordered_obj (style : Style) (fields : List (Text × JsonValue φ)) :
    (obj fields).ordered style =
      .obj ((style.order fields).map fun p => (p.1, p.2.ordered style)) := by
  unfold ordered Style.order
  by_cases h : style.sortKeys <;> simp [h, Dict.map_sortKeys]

variable [LawfulFloatFormat φ]

lemma readsString_stringText (s : Text) : ReadsString (s.flatMap escapeChar) s :=
  readString_stringText s

/-- What was written is read back. -/
theorem reads_dumps (style : Style) (v : JsonValue φ) (hdict : v.distinctKeys) (hfin : v.finite) :
    Reads (v.dumps style) (v.ordered style) := by
  induction v using induct with
  | null =>
    rw [ordered_of_sorted rfl]
    exact reads_null
  | bool b =>
    rw [ordered_of_sorted rfl]
    cases b with
    | false => exact reads_false
    | true => exact reads_true
  | int m =>
    rw [ordered_of_sorted rfl]
    exact reads_int m
  | float x =>
    rw [ordered_of_sorted rfl]
    exact reads_float (by simpa [finite, all] using hfin)
  | str s =>
    rw [ordered_of_sorted rfl]
    exact reads_str (readsString_stringText s)
  | arr items ih =>
    rw [distinctKeys_arr] at hdict
    rw [finite_arr] at hfin
    rw [dumps_arr, ordered_arr, itemsText]
    by_cases hne : items = []
    · subst hne
      exact reads_arr_nil blank_nil
    · exact reads_items hne (fun v hv => ih v hv (hdict v hv) (hfin v hv)) blank_nil
        (blank_replicate _) blank_nil
  | obj fields ih =>
    rw [distinctKeys_obj] at hdict
    rw [finite_obj] at hfin
    have hnodup : ((style.order fields).map (·.1)).Nodup := by
      unfold Style.order
      split_ifs
      · exact Dict.keys_sortKeys_nodup.2 hdict.1
      · exact hdict.1
    have hreads : ∀ p ∈ style.order fields, Reads (p.2.dumps style) (p.2.ordered style) :=
      fun p hp => ih p (mem_order.1 hp) (hdict.2 p (mem_order.1 hp)) (hfin p (mem_order.1 hp))
    rw [dumps_obj, ordered_obj, fieldsText]
    generalize style.order fields = written at *
    by_cases hne : written = []
    · subst hne
      exact reads_obj_nil blank_nil
    · have := reads_members hne (fun p _ => readsString_stringText p.1) hreads blank_nil
        (blank_replicate style.itemBlanks) (blank_replicate style.keyBlanks) blank_nil
      rw [Dict.ofPairs_of_nodup (by simpa [Dict.keys, Function.comp_def] using hnodup)] at this
      simpa [Style.field, Style.keySep, Style.itemSep, stringText] using this

/-- `json.loads` reads back what `json.dumps` wrote. -/
theorem loads_dumps (style : Style) (v : JsonValue φ) (hdict : v.distinctKeys) (hfin : v.finite) :
    loads (v.dumps style) = some (v.ordered style) := by
  simpa using loads_of_reads (reads_dumps style v hdict hfin) blank_nil blank_nil

end JsonValue
