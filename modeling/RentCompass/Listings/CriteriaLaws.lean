import RentCompass.Listings.CriteriaContract
import RentCompass.Runs

/-!
# What a search leaves of the user's criteria

The slots are filled one at a time, and a slot that is owned is left alone. What is aligned
afterwards is not: an owned slot keeps its value where it agrees with the slots it follows.
-/

namespace RentCompass.CriteriaContract

open Ranking (Value str)

variable {py : Python}

/-! ### Reading a field -/

lemma get_insert (c : Dict Value) (key field : Text) (value : Value) :
    get (c.insert key value) field = if field = key then value else get c field := by
  rw [get, Dict.get?_insert]
  split_ifs <;> rfl

lemma get_eq_of_get? {c : Dict Value} {field : Text} {value : Value}
    (h : c.get? field = some value) : get c field = value := by
  rw [get, h]
  rfl

lemma sources_congr {c d : Dict Value}
    (h : get c "constraint_sources" = get d "constraint_sources") : sources c = sources d := by
  rw [sources, sources, h]

lemma sources_insert {c : Dict Value} {key : Text} {value : Value}
    (h : key ≠ "constraint_sources") : sources (c.insert key value) = sources c :=
  sources_congr (by rw [get_insert, if_neg (Ne.symm h)])

lemma owned_congr {c d : Dict Value} {field : Text} (h : sources c = sources d) :
    Owned c field ↔ Owned d field := by
  rw [Owned, Owned, h]

/-! ### Filling the slots -/

/-- The value a slot has when the loop is done: the user's, and where there is none the search's. -/
def settle (accumulated searched : Dict Value) (field : Text) (keys : List Text)
    (value : Option Value) : Option Value :=
  if Owned accumulated field ∨ ¬ isMissing (value.getD .null) then value
  else (given searched field keys).or value

lemma getD_settle (accumulated searched : Dict Value) (field : Text) (keys : List Text)
    (value : Option Value) : (settle accumulated searched field keys value).getD .null =
      if Owned accumulated field ∨ ¬ isMissing (value.getD .null) then value.getD .null
      else (given searched field keys).getD (value.getD .null) := by
  rw [settle]
  split_ifs
  · rfl
  · cases given searched field keys with
    | none => rfl
    | some _ => rfl

lemma get?_fill (accumulated searched result : Dict Value) (slot : Text × List Text)
    (field : Text) :
    (fill accumulated searched result slot).get? field =
      if field = slot.1 then settle accumulated searched field slot.2 (result.get? field)
      else result.get? field := by
  by_cases hfield : field = slot.1
  · subst hfield
    rw [if_pos rfl, fill, settle]
    by_cases howned : Owned accumulated slot.1
    · rw [if_pos howned, if_pos (.inl howned)]
    · by_cases hmissing : isMissing (get result slot.1) = true
      · have hempty : ¬ (Owned accumulated slot.1 ∨
            ¬ isMissing ((result.get? slot.1).getD .null) = true) :=
          not_or.2 ⟨howned, not_not.2 hmissing⟩
        rw [if_neg howned, if_neg (by simpa using hmissing), if_neg hempty]
        cases given searched slot.1 slot.2 with
        | none => rfl
        | some value => exact (Dict.get?_insert _ _ _ _).trans (if_pos rfl)
      · rw [if_neg howned, if_pos (by simpa using hmissing), if_pos (.inr hmissing)]
  · rw [if_neg hfield, fill]
    split_ifs
    · rfl
    · rfl
    · cases given searched slot.1 slot.2 with
      | none => rfl
      | some value => exact (Dict.get?_insert _ _ _ _).trans (if_neg hfield)

/-- What the loop leaves in a field. -/
def settled (accumulated searched : Dict Value) (slots : Dict (List Text)) (field : Text)
    (value : Option Value) : Option Value :=
  match slots.get? field with
  | some keys => settle accumulated searched field keys value
  | none => value

lemma get?_foldl_fill (accumulated searched : Dict Value) {slots : Dict (List Text)}
    (hslots : slots.keys.Nodup) (result : Dict Value) (field : Text) :
    (slots.foldl (fill accumulated searched) result).get? field =
      settled accumulated searched slots field (result.get? field) := by
  induction slots generalizing result with
  | nil => rfl
  | cons slot slots ih =>
    obtain ⟨name, keys⟩ := slot
    obtain ⟨hslot, hslots⟩ := List.nodup_cons.1 hslots
    rw [List.foldl_cons, ih hslots, get?_fill, settled, settled]
    by_cases hfield : field = name
    · subst hfield
      have hhead : Dict.get? ((field, keys) :: slots) field = some keys := by simp [Dict.get?]
      rw [Dict.get?_eq_none hslot, hhead, if_pos rfl]
    · have hne : (field == name) = false := by simpa using hfield
      have htail : Dict.get? ((name, keys) :: slots) field = Dict.get? slots field := by
        simp [Dict.get?, List.lookup_cons, hne]
      rw [htail, if_neg hfield]

lemma aliases_nodup : (Dict.keys aliases).Nodup := by decide

/-- The value of a slot before the aliases follow it: the user's, and where there is none the
search's. -/
def slot (accumulated searched : Dict Value) (field : Text) : Value :=
  let value := get (normalize accumulated) field
  if Owned accumulated field ∨ ¬ isMissing value then value
  else (given searched field ((aliases.get? field).getD [])).getD value

/-- The criteria with every slot filled. -/
def filled (accumulated searched : Dict Value) : Dict Value :=
  aliases.foldl (fill accumulated searched) (normalize accumulated)

variable {accumulated searched : Dict Value} {field : Text}

lemma get?_normalize (h : field ≠ "commute_destination") :
    (normalize accumulated).get? field = accumulated.get? field := by
  rw [normalize]
  split
  · split_ifs
    · rw [Dict.get?_insert, if_neg h]
    · rfl
  · rfl

lemma get_normalize (h : field ≠ "commute_destination") :
    get (normalize accumulated) field = get accumulated field := by
  rw [get, get?_normalize h, get]

lemma get_filled : get (filled accumulated searched) field = slot accumulated searched field := by
  rw [get, filled, get?_foldl_fill _ _ aliases_nodup, settled, slot]
  cases Dict.get? aliases field with
  | none =>
    simp only [Option.getD_none, given, List.map_nil, List.find?_nil, ite_self]
    rfl
  | some keys =>
    exact getD_settle accumulated searched field keys _

lemma get?_filled_of_owned (h : Owned accumulated field) :
    (filled accumulated searched).get? field = (normalize accumulated).get? field := by
  rw [filled, get?_foldl_fill _ _ aliases_nodup, settled]
  cases Dict.get? aliases field with
  | none => rfl
  | some keys => exact if_pos (.inl h)

lemma get?_filled_of_notMem (h : field ∉ Dict.keys aliases) :
    (filled accumulated searched).get? field = (normalize accumulated).get? field := by
  rw [filled, get?_foldl_fill _ _ aliases_nodup, settled, Dict.get?_eq_none h]

lemma slot_of_owned (h : Owned accumulated field) :
    slot accumulated searched field = get (normalize accumulated) field := by
  rw [slot]
  exact if_pos (.inl h)

lemma slot_of_present (h : ¬ isMissing (get (normalize accumulated) field) = true) :
    slot accumulated searched field = get (normalize accumulated) field := by
  rw [slot]
  exact if_pos (.inr h)

lemma slot_of_notMem (h : field ∉ Dict.keys aliases) :
    slot accumulated searched field = get (normalize accumulated) field := by
  rw [← get_filled, get, get?_filled_of_notMem h, get]

lemma sources_filled : sources (filled accumulated searched) = sources accumulated := by
  refine sources_congr ?_
  rw [get_filled, slot_of_notMem (by decide), get_normalize (by decide)]

/-! ### Aligning the aliases -/

/-- The areas that both names follow. -/
def areasOf (areas area : Value) : List Value :=
  if items areas ≠ [] then items areas else if area.truthy then [area] else []

lemma get?_align (result : Dict Value) (field : Text) :
    (align result).get? field =
      if field = "destination" then some (get result "commute_destination")
      else if field = "area" then
        some ((areasOf (get result "areas") (get result "area")).head?.getD .null)
      else if field = "areas" then
        some (.arr (areasOf (get result "areas") (get result "area")))
      else result.get? field := by
  rw [align, Dict.get?_insert, Dict.get?_insert, Dict.get?_insert, get_insert, get_insert]
  rfl

lemma sources_align (result : Dict Value) : sources (align result) = sources result := by
  refine sources_congr ?_
  rw [get, get?_align]
  rfl

lemma confirmed_null (value period : Value) : confirmed py value .null period = false := by
  cases value <;> simp [confirmed, owns]

lemma sources_sync (criteria : Dict Value) :
    sources (synchronize_monthly_budget_alias py criteria) = sources criteria := by
  rw [synchronize_monthly_budget_alias]
  split_ifs
  · exact sources_insert (by decide)
  · rfl

lemma sources_reconcile :
    sources (reconcile_search_criteria py accumulated searched) = sources accumulated := by
  rw [reconcile_search_criteria, sources_sync, sources_align]
  exact sources_filled

/-! ### Reading what a search leaves -/

lemma get_sources_of_not_owned {criteria : Dict Value} (h : ¬ Owned criteria field) :
    get (sources criteria) field = .null := by
  rw [get, Dict.get?_eq_none h]
  rfl

lemma replaced_of_not_owned {criteria : Dict Value} (h : ¬ Owned criteria "max_budget")
    (period : Value) : replaced py criteria period = false := by
  rw [replaced, get_sources_of_not_owned h]
  split
  · rw [confirmed_null, Bool.false_and]
  · rfl

lemma owned_of_replaced {criteria : Dict Value} {period : Value}
    (h : replaced py criteria period = true) : Owned criteria "max_budget" := by
  by_contra hnot
  rw [replaced_of_not_owned hnot] at h
  cases h

lemma replaced_congr {c d : Dict Value} (hsources : sources c = sources d)
    (hmonthly : c.get? "max_budget_monthly" = d.get? "max_budget_monthly")
    (hvalue : Owned d "max_budget" → c.get? "max_budget" = d.get? "max_budget") (period : Value) :
    replaced py c period = replaced py d period := by
  by_cases howned : Owned d "max_budget"
  · rw [replaced, replaced, hsources, hmonthly, hvalue howned]
  · rw [replaced_of_not_owned howned, replaced_of_not_owned ((owned_congr hsources).not.2 howned)]

lemma get_sync (criteria : Dict Value) (field : Text) :
    get (synchronize_monthly_budget_alias py criteria) field =
      if field = "max_budget_monthly" ∧ replaced py criteria (get criteria "budget_period") then
        get criteria "max_budget"
      else get criteria field := by
  rw [synchronize_monthly_budget_alias]
  by_cases hreplaced : replaced py criteria (get criteria "budget_period") = true
  · rw [if_pos hreplaced, get_insert]
    simp only [hreplaced, and_true]
  · rw [if_neg hreplaced, if_neg fun h => hreplaced h.2]

lemma get_align (result : Dict Value) (field : Text) :
    get (align result) field =
      if field = "destination" then get result "commute_destination"
      else if field = "area" then
        (areasOf (get result "areas") (get result "area")).head?.getD .null
      else if field = "areas" then
        .arr (areasOf (get result "areas") (get result "area"))
      else get result field := by
  rw [get, get?_align]
  split_ifs <;> rfl

/-- The areas of the criteria after a search. -/
def areasAfter (accumulated searched : Dict Value) : List Value :=
  areasOf (slot accumulated searched "areas") (slot accumulated searched "area")

lemma replaced_align_filled (period : Value) :
    replaced py (align (filled accumulated searched)) period = replaced py accumulated period := by
  refine replaced_congr ((sources_align _).trans sources_filled) ?_ (fun howned => ?_) period
  · rw [get?_align]
    exact (get?_filled_of_notMem (by decide)).trans (get?_normalize (by decide))
  · rw [get?_align]
    exact (get?_filled_of_owned howned).trans (get?_normalize (by decide))

lemma get_reconcile (field : Text) :
    get (reconcile_search_criteria py accumulated searched) field =
      if field = "max_budget_monthly" ∧
          replaced py accumulated (slot accumulated searched "budget_period") then
        get accumulated "max_budget"
      else if field = "destination" then slot accumulated searched "commute_destination"
      else if field = "area" then (areasAfter accumulated searched).head?.getD .null
      else if field = "areas" then .arr (areasAfter accumulated searched)
      else slot accumulated searched field := by
  have hperiod : get (align (filled accumulated searched)) "budget_period" =
      slot accumulated searched "budget_period" := (get_align _ _).trans get_filled
  rw [reconcile_search_criteria, ← filled, get_sync, hperiod, replaced_align_filled]
  by_cases h : field = "max_budget_monthly" ∧
    replaced py accumulated (slot accumulated searched "budget_period") = true
  · rw [if_pos h, if_pos h]
    calc get (align (filled accumulated searched)) "max_budget"
        = slot accumulated searched "max_budget" := (get_align _ _).trans get_filled
      _ = get (normalize accumulated) "max_budget" := slot_of_owned (owned_of_replaced h.2)
      _ = get accumulated "max_budget" := get_normalize (by decide)
  · rw [if_neg h, if_neg h, get_align, get_filled, get_filled, get_filled, get_filled, areasAfter]

lemma get_areas_reconcile : get (reconcile_search_criteria py accumulated searched) "areas" =
    .arr (areasAfter accumulated searched) := get_reconcile _

lemma get_area_reconcile : get (reconcile_search_criteria py accumulated searched) "area" =
    (areasAfter accumulated searched).head?.getD .null := get_reconcile _

lemma get_destination_reconcile :
    get (reconcile_search_criteria py accumulated searched) "destination" =
      slot accumulated searched "commute_destination" := get_reconcile _

lemma get_target_reconcile :
    get (reconcile_search_criteria py accumulated searched) "commute_destination" =
      slot accumulated searched "commute_destination" := get_reconcile _

/-! ### Slots that keep their value -/

/-- The area and the areas that a search leaves. -/
def FirstOfAreas (criteria : Dict Value) : Prop :=
  ∃ areas, get criteria "areas" = .arr areas ∧ get criteria "area" = areas.head?.getD .null

theorem firstOfAreas_reconcile :
    FirstOfAreas (reconcile_search_criteria py accumulated searched) :=
  ⟨areasAfter accumulated searched, get_areas_reconcile, get_area_reconcile⟩

/-- What an owned slot has to agree with, for a search to leave it: the slots it follows. -/
structure AliasesAgree (py : Python) (accumulated searched : Dict Value) : Prop where
  areas : Owned accumulated "areas" → get accumulated "areas" ≠ .null ∧
    (get accumulated "areas" = .arr [] → isMissing (slot accumulated searched "area"))
  area : Owned accumulated "area" →
    match items (slot accumulated searched "areas") with
    | [] => get accumulated "area" ≠ .str []
    | first :: _ => get accumulated "area" = first
  destination : Owned accumulated "destination" →
    get accumulated "destination" = slot accumulated searched "commute_destination"
  monthly : Owned accumulated "max_budget_monthly" →
    replaced py accumulated (slot accumulated searched "budget_period") = false

lemma normalize_of_owned (h : Owned accumulated "commute_destination") :
    normalize accumulated = accumulated := by
  rw [normalize]
  split
  · rw [if_neg fun hand => hand.2 h]
  · rfl

lemma get_normalize_of_owned (h : Owned accumulated field) :
    get (normalize accumulated) field = get accumulated field := by
  by_cases hfield : field = "commute_destination"
  · subst hfield
    rw [normalize_of_owned h]
  · exact get_normalize hfield

/-- A slot has the accumulated value or that of the search. -/
lemma slot_cases (accumulated searched : Dict Value) (hkeys : aliases.get? field = some [field])
    (hfield : field ≠ "commute_destination") :
    slot accumulated searched field = get accumulated field ∨
      slot accumulated searched field = get searched field := by
  have hgiven : (given searched field [field]).getD (get accumulated field) =
      get accumulated field ∨
      (given searched field [field]).getD (get accumulated field) = get searched field := by
    cases hfind : given searched field [field] with
    | none => exact .inl rfl
    | some value =>
      rw [given] at hfind
      exact .inr (by simpa using List.mem_of_find?_eq_some hfind)
  rw [slot, get_normalize hfield, hkeys]
  by_cases h : Owned accumulated field ∨ ¬ isMissing (get accumulated field) = true
  · exact .inl (if_pos h)
  · exact hgiven.imp (if_neg h).trans (if_neg h).trans

lemma isMissing_iff_of_text {value : Value} (h : value = .null ∨ ∃ name, value = .str name) :
    isMissing value = true ↔ ¬ value.truthy = true := by
  rcases h with rfl | ⟨name, rfl⟩
  · decide
  · simp [isMissing, Ranking.Value.truthy]

lemma slot_area_text (accumulated searched : Criteria) :
    slot accumulated.fields searched.fields "area" = .null ∨
      ∃ name, slot accumulated.fields searched.fields "area" = .str name := by
  have hkeys : aliases.get? "area" = some [Text.ofString "area"] := rfl
  rcases slot_cases accumulated.fields searched.fields hkeys (by decide) with h | h
  · exact h ▸ accumulated.area
  · exact h ▸ searched.area

lemma eq_self_of_confirmed {value source period : Value}
    (h : confirmed py value source period = true) : Value.eq value value = true := by
  cases value with
  | null => rfl
  | int n => simp [Value.eq, Value.scalarEq, Value.number?]
  | float x => simp [Value.eq, Value.scalarEq, Value.number?]
  | bool b => cases h
  | str s => cases h
  | arr items => cases h
  | obj fields => cases h

lemma ne_of_replaced {criteria : Dict Value} {period : Value}
    (h : replaced py criteria period = true) :
    get criteria "max_budget" ≠ get criteria "max_budget_monthly" := by
  rw [replaced] at h
  split at h
  · next value monthly hvalue hmonthly =>
    rw [Bool.and_eq_true] at h
    rw [get_eq_of_get? hvalue, get_eq_of_get? hmonthly]
    rintro rfl
    rw [eq_self_of_confirmed h.1] at h
    cases h.2
  · cases h

variable {accumulated searched : Criteria}

lemma kept_areas_iff (h : Owned accumulated.fields "areas") :
    get (reconcile_search_criteria py accumulated.fields searched.fields) "areas" =
        get accumulated.fields "areas" ↔
      get accumulated.fields "areas" ≠ .null ∧
        (get accumulated.fields "areas" = .arr [] →
          isMissing (slot accumulated.fields searched.fields "area")) := by
  have hslot : slot accumulated.fields searched.fields "areas" = get accumulated.fields "areas" :=
    (slot_of_owned h).trans (get_normalize_of_owned h)
  rw [get_areas_reconcile, areasAfter, hslot, areasOf, isMissing_iff_of_text (slot_area_text _ _)]
  rcases accumulated.areas with hareas | ⟨names, hareas⟩
  · simp [hareas]
  · cases names with
    | nil => simp [hareas, items]
    | cons name names => simp [hareas, items]

lemma kept_area_iff (h : Owned accumulated.fields "area") :
    get (reconcile_search_criteria py accumulated.fields searched.fields) "area" =
        get accumulated.fields "area" ↔
      match items (slot accumulated.fields searched.fields "areas") with
      | [] => get accumulated.fields "area" ≠ .str []
      | first :: _ => get accumulated.fields "area" = first := by
  have hslot : slot accumulated.fields searched.fields "area" = get accumulated.fields "area" :=
    (slot_of_owned h).trans (get_normalize_of_owned h)
  rw [get_area_reconcile, areasAfter, hslot, areasOf]
  cases items (slot accumulated.fields searched.fields "areas") with
  | nil =>
    rcases accumulated.area with harea | ⟨name, harea⟩
    · simp [harea, Ranking.Value.truthy]
    · cases name with
      | nil => simp [harea, Ranking.Value.truthy]
      | cons c name => simp [harea, Ranking.Value.truthy]
  | cons first rest => exact eq_comm

lemma kept_destination_iff {accumulated searched : Dict Value} :
    get (reconcile_search_criteria py accumulated searched) "destination" =
        get accumulated "destination" ↔
      get accumulated "destination" = slot accumulated searched "commute_destination" := by
  rw [get_destination_reconcile, eq_comm]

lemma kept_monthly_iff {accumulated searched : Dict Value} :
    get (reconcile_search_criteria py accumulated searched) "max_budget_monthly" =
        get accumulated "max_budget_monthly" ↔
      replaced py accumulated (slot accumulated searched "budget_period") = false := by
  rw [get_reconcile]
  by_cases h : replaced py accumulated (slot accumulated searched "budget_period") = true
  · rw [if_pos ⟨rfl, h⟩, h]
    simp [ne_of_replaced h]
  · have hmonthly : slot accumulated searched "max_budget_monthly" =
        get accumulated "max_budget_monthly" :=
      (slot_of_notMem (by decide)).trans (get_normalize (by decide))
    rw [if_neg fun hand => h hand.2]
    exact iff_of_true hmonthly (by simpa using h)

/-- The slots that follow no other are left where they are owned. -/
lemma get_reconcile_of_owned {accumulated searched : Dict Value} (h : Owned accumulated field)
    (hfield : field ∉ (["areas", "area", "destination", "max_budget_monthly"] : List Text)) :
    get (reconcile_search_criteria py accumulated searched) field = get accumulated field := by
  simp only [List.mem_cons, List.not_mem_nil, or_false, not_or] at hfield
  obtain ⟨hareas, harea, hdestination, hmonthly⟩ := hfield
  rw [get_reconcile, if_neg fun hand => hmonthly hand.1, if_neg hdestination, if_neg harea,
    if_neg hareas, slot_of_owned h, get_normalize_of_owned h]

theorem kept_iff : (∀ field, Owned accumulated.fields field →
      get (reconcile_search_criteria py accumulated.fields searched.fields) field =
        get accumulated.fields field) ↔
    AliasesAgree py accumulated.fields searched.fields := by
  constructor
  · intro h
    exact ⟨fun howned => (kept_areas_iff howned).1 (h _ howned),
      fun howned => (kept_area_iff howned).1 (h _ howned),
      fun howned => kept_destination_iff.1 (h _ howned),
      fun howned => kept_monthly_iff.1 (h _ howned)⟩
  · intro h field howned
    by_cases hfield : field ∈ (["areas", "area", "destination", "max_budget_monthly"] : List Text)
    · simp only [List.mem_cons, List.not_mem_nil, or_false] at hfield
      rcases hfield with rfl | rfl | rfl | rfl
      · exact (kept_areas_iff howned).2 (h.areas howned)
      · exact (kept_area_iff howned).2 (h.area howned)
      · exact kept_destination_iff.2 (h.destination howned)
      · exact kept_monthly_iff.2 (h.monthly howned)
    · exact get_reconcile_of_owned howned hfield

/-! ### Once is enough -/

lemma sync_sync (criteria : Dict Value) :
    synchronize_monthly_budget_alias py (synchronize_monthly_budget_alias py criteria) =
      synchronize_monthly_budget_alias py criteria := by
  by_cases h : replaced py criteria (get criteria "budget_period") = true
  · have hsync : synchronize_monthly_budget_alias py criteria =
        criteria.insert "max_budget_monthly" (get criteria "max_budget") := if_pos h
    have hdone (period : Value) : replaced py
        (criteria.insert "max_budget_monthly" (get criteria "max_budget")) period = false := by
      rw [replaced, Dict.get?_insert, if_neg (by decide), Dict.get?_insert, if_pos rfl]
      rw [replaced] at h
      split at h
      · next value monthly hvalue hmonthly =>
        rw [Bool.and_eq_true] at h
        rw [hvalue, get_eq_of_get? hvalue]
        simp only [eq_self_of_confirmed h.1, Bool.not_true, Bool.and_false]
      · cases h
    rw [hsync, synchronize_monthly_budget_alias, hdone]
    rfl
  · have hsync : synchronize_monthly_budget_alias py criteria = criteria := if_neg h
    rw [hsync, hsync]

lemma get?_sync_of_ne (criteria : Dict Value) (h : field ≠ "max_budget_monthly") :
    (synchronize_monthly_budget_alias py criteria).get? field = criteria.get? field := by
  rw [synchronize_monthly_budget_alias]
  split_ifs
  · rw [Dict.get?_insert, if_neg h]
  · rfl

lemma fill_eq_self {accumulated searched result : Dict Value} {slot : Text × List Text}
    (h : ¬ Owned accumulated slot.1 → isMissing (get result slot.1) = true →
      given searched slot.1 slot.2 = none) : fill accumulated searched result slot = result := by
  rw [fill]
  split_ifs with howned hmissing
  · rfl
  · rfl
  · rw [h howned (by simpa using hmissing)]

lemma foldl_fill_eq_self {accumulated searched result : Dict Value} {slots : Dict (List Text)}
    (h : ∀ slot ∈ slots, fill accumulated searched result slot = result) :
    slots.foldl (fill accumulated searched) result = result := by
  induction slots with
  | nil => rfl
  | cons slot slots ih =>
    rw [List.foldl_cons, h slot List.mem_cons_self]
    exact ih fun slot' hslot' => h slot' (List.mem_cons_of_mem _ hslot')

/-- A slot that is left empty is one that the search has no value for. -/
lemma given_eq_none {accumulated searched : Dict Value} {keys : List Text}
    (hkeys : aliases.get? field = some keys) (howned : ¬ Owned accumulated field)
    (hmissing : isMissing (slot accumulated searched field) = true) :
    given searched field keys = none := by
  by_cases hpresent : isMissing (get (normalize accumulated) field) = true
  · cases hgiven : given searched field keys with
    | none => rfl
    | some value =>
      have hgives : gives field value = true := List.find?_some hgiven
      have hslot : slot accumulated searched field = value := by
        have hempty : ¬ (Owned accumulated field ∨
            ¬ isMissing (get (normalize accumulated) field) = true) :=
          not_or.2 ⟨howned, not_not.2 hpresent⟩
        rw [slot, hkeys, Option.getD_some, hgiven]
        exact if_neg hempty
      rw [hslot] at hmissing
      simp [gives, hmissing] at hgives
  · rw [slot_of_present hpresent] at hmissing
    exact absurd hmissing hpresent

lemma slot_areas_list (accumulated searched : Criteria) :
    slot accumulated.fields searched.fields "areas" = .null ∨ ∃ names : List Text,
      slot accumulated.fields searched.fields "areas" = .arr (names.map .str) := by
  have hkeys : aliases.get? "areas" = some [Text.ofString "areas"] := rfl
  rcases slot_cases accumulated.fields searched.fields hkeys (by decide) with h | h
  · exact h ▸ accumulated.areas
  · exact h ▸ searched.areas

/-- Where a search leaves no area, no slot has one. -/
lemma isMissing_of_areasAfter_eq_nil
    (h : areasAfter accumulated.fields searched.fields = []) :
    isMissing (slot accumulated.fields searched.fields "areas") = true ∧
      isMissing (slot accumulated.fields searched.fields "area") = true := by
  rw [areasAfter, areasOf] at h
  rw [isMissing_iff_of_text (slot_area_text _ _)]
  split_ifs at h with hitems harea
  · exact absurd h hitems
  · refine ⟨?_, harea⟩
    rcases slot_areas_list accumulated searched with hareas | ⟨names, hareas⟩
    · rw [hareas]
      rfl
    · rw [hareas] at hitems ⊢
      simpa [items, isMissing] using hitems

/-- A search leaves nothing to do for the loop over the slots, `area` apart. -/
lemma fill_reconcile {result : Dict Value} {slot : Text × List Text} (hslot : slot ∈ aliases)
    (harea : slot.1 = "area" → areasAfter accumulated.fields searched.fields = [])
    (hresult : get result slot.1 =
      get (reconcile_search_criteria py accumulated.fields searched.fields) slot.1) :
    fill (reconcile_search_criteria py accumulated.fields searched.fields) searched.fields result
      slot = result := by
  obtain ⟨field, keys⟩ := slot
  have hkeys : Dict.get? aliases field = some keys := (Dict.mem_iff_get? aliases_nodup).1 hslot
  refine fill_eq_self fun howned hmissing => ?_
  have hfree : ¬ Owned accumulated.fields field := (owned_congr sources_reconcile).not.1 howned
  refine given_eq_none hkeys hfree ?_
  by_cases harea' : field = "area"
  · subst harea'
    exact (isMissing_of_areasAfter_eq_nil (harea rfl)).2
  by_cases hareas' : field = "areas"
  · subst hareas'
    rw [hresult, get_reconcile] at hmissing
    exact (isMissing_of_areasAfter_eq_nil (List.isEmpty_iff.1 hmissing)).1
  have hother : field ∉ (["max_budget_monthly", "destination"] : List Text) := by
    intro hmem
    simp only [List.mem_cons, List.not_mem_nil, or_false] at hmem
    rcases hmem with rfl | rfl
    · cases hkeys
    · cases hkeys
  simp only [List.mem_cons, List.not_mem_nil, or_false, not_or] at hother
  rwa [hresult, get_reconcile, if_neg fun hand => hother.1 hand.1, if_neg hother.2,
    if_neg harea', if_neg hareas'] at hmissing

lemma destination_reconcile {accumulated searched : Dict Value} :
    get (reconcile_search_criteria py accumulated searched) "destination" =
      get (reconcile_search_criteria py accumulated searched) "commute_destination" := by
  rw [get_destination_reconcile, get_target_reconcile]

lemma normalize_eq_self {criteria : Dict Value}
    (h : get criteria "destination" = get criteria "commute_destination") :
    normalize criteria = criteria := by
  rw [normalize]
  split
  · next hnull => rw [h, hnull, if_neg (by simp [Ranking.Value.truthy])]
  · rfl

/-- The aliases are there after a search. -/
lemma get?_reconcile {accumulated searched : Dict Value}
    (hfield : field ∈ (["areas", "area", "destination"] : List Text)) :
    (reconcile_search_criteria py accumulated searched).get? field =
      some (get (reconcile_search_criteria py accumulated searched) field) := by
  have hmonthly : field ≠ "max_budget_monthly" := by
    rintro rfl
    exact absurd hfield (by decide)
  have hsome : ∃ value, (reconcile_search_criteria py accumulated searched).get? field =
      some value := by
    rw [reconcile_search_criteria, get?_sync_of_ne _ hmonthly, get?_align]
    simp only [List.mem_cons, List.not_mem_nil, or_false] at hfield
    rcases hfield with rfl | rfl | rfl
    · exact ⟨_, rfl⟩
    · exact ⟨_, rfl⟩
    · exact ⟨_, rfl⟩
  obtain ⟨value, hvalue⟩ := hsome
  rw [get_eq_of_get? hvalue, hvalue]

/-- To align what a search leaves changes nothing, whatever the loop has made of `area`. -/
lemma align_reconcile {accumulated searched result : Dict Value}
    (hresult : result = reconcile_search_criteria py accumulated searched ∨
      areasAfter accumulated searched ≠ [] ∧ ∃ value,
        result = (reconcile_search_criteria py accumulated searched).insert "area" value) :
    align result = reconcile_search_criteria py accumulated searched := by
  have hother (key : Text) (hkey : key ≠ "area") :
      result.get? key = (reconcile_search_criteria py accumulated searched).get? key := by
    rcases hresult with rfl | ⟨-, value, rfl⟩
    · rfl
    · rw [Dict.get?_insert, if_neg hkey]
  have hget (key : Text) (hkey : key ≠ "area") :
      get result key = get (reconcile_search_criteria py accumulated searched) key := by
    rw [get, hother key hkey, get]
  have hof : areasOf (get result "areas") (get result "area") = areasAfter accumulated searched := by
    rw [hget _ (by decide), get_areas_reconcile, areasOf]
    by_cases hempty : areasAfter accumulated searched = []
    · rcases hresult with rfl | ⟨hnonempty, -⟩
      · rw [get_area_reconcile, hempty]
        rfl
      · exact absurd hempty hnonempty
    · exact if_pos hempty
  have hplaced : result.insert "areas" (.arr (areasAfter accumulated searched)) = result := by
    refine Dict.insert_of_get? ?_
    rw [hother _ (by decide), get?_reconcile (by decide), get_areas_reconcile]
  have hfirst : result.insert "area" ((areasAfter accumulated searched).head?.getD .null) =
      reconcile_search_criteria py accumulated searched := by
    have hput : (reconcile_search_criteria py accumulated searched).insert "area"
        ((areasAfter accumulated searched).head?.getD .null) =
          reconcile_search_criteria py accumulated searched :=
      Dict.insert_of_get? (by rw [get?_reconcile (by decide), get_area_reconcile])
    rcases hresult with rfl | ⟨-, value, rfl⟩
    · exact hput
    · rw [Dict.insert_insert, hput]
  have halign : align result =
      ((result.insert "areas" (.arr (areasOf (get result "areas") (get result "area")))).insert "area"
        ((areasOf (get result "areas") (get result "area")).head?.getD .null)).insert "destination"
      (get ((result.insert "areas"
        (.arr (areasOf (get result "areas") (get result "area")))).insert "area"
        ((areasOf (get result "areas") (get result "area")).head?.getD .null))
        "commute_destination") := rfl
  rw [halign, hof, hplaced, hfirst]
  refine Dict.insert_of_get? ?_
  rw [get?_reconcile (by decide), destination_reconcile]

/-- The loop does nothing or fills one slot. -/
lemma fill_cases (accumulated searched result : Dict Value) (slot : Text × List Text) :
    fill accumulated searched result slot = result ∨
      ∃ value, fill accumulated searched result slot = result.insert slot.1 value := by
  rw [fill]
  split_ifs
  · exact .inl rfl
  · exact .inl rfl
  · cases given searched slot.1 slot.2 with
    | none => exact .inl rfl
    | some value => exact .inr ⟨value, rfl⟩

/-- After a search the loop has at most `area` to fill. -/
lemma foldl_fill_reconcile :
    aliases.foldl (fill (reconcile_search_criteria py accumulated.fields searched.fields)
        searched.fields) (reconcile_search_criteria py accumulated.fields searched.fields) =
      fill (reconcile_search_criteria py accumulated.fields searched.fields) searched.fields
        (reconcile_search_criteria py accumulated.fields searched.fields)
        (Text.ofString "area", [Text.ofString "area"]) := by
  have hsplit : aliases = (Text.ofString "area", [Text.ofString "area"]) :: aliases.tail := rfl
  rw [hsplit, List.foldl_cons]
  refine foldl_fill_eq_self fun slot hslot => ?_
  have hne : slot.1 ≠ "area" := by
    rintro heq
    have hmem : Text.ofString "area" ∈ aliases.tail.map Prod.fst :=
      heq ▸ List.mem_map_of_mem hslot
    exact absurd hmem (by decide)
  refine fill_reconcile (List.mem_of_mem_tail hslot) (fun heq => absurd heq hne) ?_
  rw [get, get?_fill, if_neg hne, get]

/-- To reconcile with the same search again changes nothing. -/
theorem reconcile_reconcile :
    reconcile_search_criteria py
        (reconcile_search_criteria py accumulated.fields searched.fields) searched.fields =
      reconcile_search_criteria py accumulated.fields searched.fields := by
  have hloop : align (aliases.foldl
      (fill (reconcile_search_criteria py accumulated.fields searched.fields) searched.fields)
      (reconcile_search_criteria py accumulated.fields searched.fields)) =
        reconcile_search_criteria py accumulated.fields searched.fields := by
    rw [foldl_fill_reconcile]
    refine align_reconcile ?_
    by_cases hempty : areasAfter accumulated.fields searched.fields = []
    · exact .inl (fill_reconcile (by decide) (fun _ => hempty) rfl)
    · exact (fill_cases _ _ _ _).imp_right fun hfill => ⟨hempty, hfill⟩
  rw [reconcile_search_criteria, normalize_eq_self destination_reconcile, hloop, reconcile_search_criteria, sync_sync]

end RentCompass.CriteriaContract
