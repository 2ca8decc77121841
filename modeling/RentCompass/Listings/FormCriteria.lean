import RentCompass.Listings.CriteriaLaws

/-!
# What searches leave of the form

The form owns its slots from then on. Searches leave them where the slots of the form agree with
one another and with what the form has left in place.
-/

namespace RentCompass.CriteriaContract

open Ranking (Value str)

variable {py : Python} {accumulated form : Criteria} {field : Text}

/-! ### Applying the form -/

/-- The value of a slot where the form is laid over what was there. -/
def shown (accumulated form : Dict Value) (field : Text) : Value :=
  if field ∈ form.keys then get form field else get accumulated field

/-- The slot is owned, by the form or before it. -/
def OwnedOnce (accumulated form : Dict Value) (field : Text) : Prop :=
  field ∈ form.keys ∨ Owned accumulated field

lemma get?_update_of_mem (accumulated form : Criteria) (h : field ∈ form.fields.keys) :
    (accumulated.fields.update form.fields).get? field = form.fields.get? field := by
  obtain ⟨value, hvalue⟩ := Dict.exists_get? h
  rw [Dict.get?_update _ form.distinct, hvalue]
  rfl

lemma get?_update_of_notMem (accumulated form : Criteria) (h : field ∉ form.fields.keys) :
    (accumulated.fields.update form.fields).get? field = accumulated.fields.get? field := by
  rw [Dict.get?_update _ form.distinct, Dict.get?_eq_none h]
  rfl

lemma get_update (accumulated form : Criteria) (field : Text) :
    get (accumulated.fields.update form.fields) field =
      shown accumulated.fields form.fields field := by
  rw [shown]
  split_ifs with h
  · rw [get, get?_update_of_mem _ _ h, get]
  · rw [get, get?_update_of_notMem _ _ h, get]

lemma get?_followBudget {form result : Dict Value} (h : field ≠ "max_budget_monthly") :
    (followBudget py form result).get? field = result.get? field := by
  rw [followBudget]
  split
  · rfl
  · rw [Dict.get?_insert, if_neg h]
  · split_ifs
    · rw [Dict.get?_erase, if_neg h]
    · rw [Dict.get?_insert, if_neg h]

lemma get?_followCommuteTime {form result : Dict Value} (h : field ≠ "max_commute_time") :
    (followCommuteTime form result).get? field = result.get? field := by
  rw [followCommuteTime]
  split
  · rfl
  · rw [Dict.get?_insert, if_neg h]

/-- The sources once the form is applied. -/
def formSources (accumulated form : Dict Value) : Dict Value :=
  (sources (accumulated.update form)).update (form.map fun p => (p.1, formSource p.2))

lemma get?_apply_form {accumulated form : Dict Value} (hbudget : field ≠ "max_budget_monthly")
    (htime : field ≠ "max_commute_time") :
    (apply_form_criteria py accumulated form).get? field =
      if field = "destination" then some (get (accumulated.update form) "commute_destination")
      else if field = "constraint_sources" then some (.obj (formSources accumulated form))
      else (accumulated.update form).get? field := by
  have htarget (sources : Value) :
      get ((accumulated.update form).insert "constraint_sources" sources) "commute_destination" =
        get (accumulated.update form) "commute_destination" :=
    (get_insert _ _ _ _).trans (if_neg (by decide))
  rw [apply_form_criteria, get?_followCommuteTime htime, get?_followBudget hbudget,
    Dict.get?_insert, htarget, Dict.get?_insert, formSources]

lemma sources_apply_form {accumulated form : Dict Value} :
    sources (apply_form_criteria py accumulated form) = formSources accumulated form := by
  have hsources : get (apply_form_criteria py accumulated form) "constraint_sources" =
      .obj (formSources accumulated form) := by
    refine get_eq_of_get? ?_
    rw [get?_apply_form (by decide) (by decide)]
    rfl
  rw [sources, hsources]

lemma keys_formSources (form : Dict Value) :
    Dict.keys (form.map fun p => (p.1, formSource p.2)) = form.keys := by
  rw [Dict.keys, List.map_map, Dict.keys]
  rfl

lemma get?_formSources_of_mem (accumulated form : Criteria) (h : field ∈ form.fields.keys) :
    (formSources accumulated.fields form.fields).get? field =
      some (formSource (get form.fields field)) := by
  obtain ⟨value, hvalue⟩ := Dict.exists_get? h
  have hdistinct := form.distinct
  rw [← keys_formSources] at hdistinct
  rw [formSources, Dict.get?_update _ hdistinct,
    Dict.get?_map form.fields (fun _ value => formSource value), hvalue, get_eq_of_get? hvalue]
  rfl

lemma get_formSources_of_notMem (accumulated form : Criteria) (h : field ∉ form.fields.keys) :
    (formSources accumulated.fields form.fields).get? field =
      (sources (accumulated.fields.update form.fields)).get? field := by
  have hdistinct := form.distinct
  rw [← keys_formSources] at hdistinct
  rw [← keys_formSources] at h
  rw [formSources, Dict.get?_update _ hdistinct, Dict.get?_eq_none h]
  rfl

lemma mem_keys_iff {d : Dict Value} : field ∈ d.keys ↔ ∃ value, d.get? field = some value :=
  ⟨Dict.exists_get?, fun ⟨_, h⟩ => Dict.mem_keys_of_get? h⟩

lemma owned_apply_form (hsources : Text.ofString "constraint_sources" ∉ form.fields.keys) :
    Owned (apply_form_criteria py accumulated.fields form.fields) field ↔
      OwnedOnce accumulated.fields form.fields field := by
  have hold : sources (accumulated.fields.update form.fields) = sources accumulated.fields :=
    sources_congr (by rw [get_update, shown, if_neg hsources])
  rw [Owned, sources_apply_form, OwnedOnce, Owned]
  by_cases h : field ∈ form.fields.keys
  · exact iff_of_true (mem_keys_iff.2 ⟨_, get?_formSources_of_mem _ _ h⟩) (.inl h)
  · rw [mem_keys_iff, get_formSources_of_notMem _ _ h, hold, ← mem_keys_iff]
    exact (or_iff_right h).symm

/-! ### Searches -/

/-- The criteria of a search that has one field. -/
def searchFor (field : Text) (value : Value)
    (harea : field = "area" → ∃ name, value = .str name)
    (hareas : field = "areas" → ∃ names : List Text, value = .arr (names.map .str))
    (hsources : field ≠ "constraint_sources") : Criteria where
  fields := [(field, value)]
  distinct := List.nodup_singleton _
  area := by
    by_cases h : Text.ofString "area" = field
    · subst h
      right
      simpa [get, Dict.get?] using harea rfl
    · have hne : (Text.ofString "area" == field) = false := by simpa using h
      simp [get, Dict.get?, List.lookup_cons, hne]
  areas := by
    by_cases h : Text.ofString "areas" = field
    · subst h
      right
      simpa [get, Dict.get?] using hareas rfl
    · have hne : (Text.ofString "areas" == field) = false := by simpa using h
      simp [get, Dict.get?, List.lookup_cons, hne]
  constraint_sources := by
    have hne : (Text.ofString "constraint_sources" == field) = false := by
      simpa using hsources.symm
    simp [get, Dict.get?, List.lookup_cons, hne]

/-- A search that says nothing. -/
def noSearch : Criteria where
  fields := []
  distinct := List.nodup_nil
  area := .inl rfl
  areas := .inl rfl
  constraint_sources := .inl rfl

lemma slot_noSearch (criteria : Dict Value) (field : Text) :
    slot criteria noSearch.fields field = get (normalize criteria) field := by
  have hnone (keys : List Text) : given noSearch.fields field keys = none := by
    rw [given, List.find?_eq_none]
    intro value hvalue
    obtain ⟨key, -, rfl⟩ := List.mem_map.1 hvalue
    have hnull : get noSearch.fields key = .null := rfl
    simp [gives, hnull, isMissing]
  rw [slot, hnone]
  exact ite_self _

lemma slot_searchFor {criteria : Dict Value} {value : Value}
    (hkeys : aliases.get? field = some [field]) (howned : ¬ Owned criteria field)
    (hmissing : isMissing (get (normalize criteria) field) = true)
    (hgives : gives field value = true) (harea hareas hsources) :
    slot criteria (searchFor field value harea hareas hsources).fields field = value := by
  have hget : get (searchFor field value harea hareas hsources).fields field = value := by
    simp [searchFor, get, Dict.get?]
  have hempty : ¬ (Owned criteria field ∨ ¬ isMissing (get (normalize criteria) field) = true) :=
    not_or.2 ⟨howned, not_not.2 hmissing⟩
  have hgiven : given (searchFor field value harea hareas hsources).fields field [field] =
      some value := by
    rw [given, List.map_singleton, hget, List.find?_cons_of_pos hgives]
  rw [slot, hkeys, Option.getD_some, hgiven]
  exact if_neg hempty

/-! ### Slots that last -/

lemma truthy_of_isMissing {value : Value} (h : isMissing value = true) : value.truthy = false := by
  cases value with
  | null => rfl
  | str s => simpa [isMissing, Ranking.Value.truthy] using h
  | arr items => simpa [isMissing, Ranking.Value.truthy] using h
  | bool b => cases h
  | int n => cases h
  | float x => cases h
  | obj fields => cases h

/-- What the period of the rent may be after searches. -/
def PeriodMayBe (owned : Prop) (period period' : Value) : Prop :=
  period' = period ∨ ¬ owned ∧ isMissing period = true ∧ isMissing period' = false

lemma PeriodMayBe.trans {owned : Prop} {a b c : Value} (hab : PeriodMayBe owned a b)
    (hbc : PeriodMayBe owned b c) : PeriodMayBe owned a c := by
  rcases hab with rfl | ⟨howned, hmissing, hpresent⟩
  · exact hbc
  · rcases hbc with rfl | ⟨-, hempty, -⟩
    · exact .inr ⟨howned, hmissing, hpresent⟩
    · rw [hpresent] at hempty
      cases hempty

lemma periodMayBe_slot (criteria searched : Dict Value) :
    PeriodMayBe (Owned criteria "budget_period") (get criteria "budget_period")
      (slot criteria searched "budget_period") := by
  by_cases hkept : Owned criteria "budget_period" ∨
      ¬ isMissing (get (normalize criteria) "budget_period") = true
  · rw [slot, if_pos hkept, get_normalize (by decide)]
    exact .inl rfl
  · obtain ⟨howned, hmissing⟩ := not_or.1 hkept
    rw [slot, if_neg hkept]
    rw [get_normalize (by decide), not_not] at hmissing
    rw [get_normalize (by decide)]
    cases hgiven : given searched "budget_period"
        ((aliases.get? (Text.ofString "budget_period")).getD []) with
    | none => exact .inl rfl
    | some value =>
      have hgives := List.find?_some hgiven
      rw [gives, Bool.and_eq_true] at hgives
      exact .inr ⟨howned, hmissing, by simpa using hgives.2⟩

/-- The criteria hold the values of the form, and so they will after any search. -/
structure Held (py : Python) (form criteria : Dict Value) : Prop where
  owned : ∀ field ∈ form.keys, Owned criteria field
  kept : ∀ field ∈ form.keys, get criteria field = get form field
  areas : Text.ofString "areas" ∈ form.keys → get form "areas" ≠ .null ∧
    (get form "areas" = .arr [] → Owned criteria "area" ∧ isMissing (get criteria "area") = true)
  area : Text.ofString "area" ∈ form.keys →
    match items (get criteria "areas") with
    | [] => Owned criteria "areas" ∧ get form "area" ≠ .str []
    | first :: _ => get form "area" = first
  target : get criteria "destination" = get criteria "commute_destination"
  destination : Text.ofString "destination" ∈ form.keys → Owned criteria "commute_destination" ∨
    isMissing (get criteria "commute_destination") = false
  monthly : Text.ofString "max_budget_monthly" ∈ form.keys → ∀ period,
    PeriodMayBe (Owned criteria "budget_period") (get criteria "budget_period") period →
      replaced py criteria period = false

namespace Held

variable {criteria : Dict Value} {searched : Criteria}

lemma slot_eq (h : Held py form.fields criteria) (hfield : Owned criteria field ∨
    isMissing (get criteria field) = false) :
    slot criteria searched.fields field = get criteria field := by
  rw [slot, normalize_eq_self h.target]
  refine if_pos (hfield.imp_right fun hpresent => ?_)
  rw [hpresent]
  exact Bool.false_ne_true

lemma areas_reconcile (h : Held py form.fields criteria)
    (hareas : Text.ofString "areas" ∈ form.fields.keys) :
    get (reconcile_search_criteria py criteria searched.fields) "areas" =
      get form.fields "areas" := by
  obtain ⟨hnull, hempty⟩ := h.areas hareas
  have hslot : slot criteria searched.fields "areas" = get form.fields "areas" :=
    (h.slot_eq (.inl (h.owned _ hareas))).trans (h.kept _ hareas)
  rw [get_areas_reconcile, areasAfter, hslot, areasOf]
  rcases form.areas with hform | ⟨names, hform⟩
  · exact absurd hform hnull
  · rw [hform]
    cases names with
    | nil =>
      obtain ⟨howned, hmissing⟩ := hempty hform
      have hfalse : (slot criteria searched.fields "area").truthy = false := by
        rw [h.slot_eq (.inl howned)]
        exact truthy_of_isMissing hmissing
      simp [items, hfalse]
    | cons name names => simp [items]

/-- The areas that a search leaves where the form sets the area. -/
lemma areasAfter_of_area (h : Held py form.fields criteria)
    (harea : Text.ofString "area" ∈ form.fields.keys) :
    (areasAfter criteria searched.fields = [] ∧ get form.fields "area" = .null ∧
        Owned criteria "areas") ∨
      ∃ rest, areasAfter criteria searched.fields = get form.fields "area" :: rest := by
  have hslot : slot criteria searched.fields "area" = get form.fields "area" :=
    (h.slot_eq (.inl (h.owned _ harea))).trans (h.kept _ harea)
  have hform := h.area harea
  rw [areasAfter, hslot, areasOf]
  cases hitems : items (get criteria "areas") with
  | nil =>
    rw [hitems] at hform
    have hslots : slot criteria searched.fields "areas" = get criteria "areas" :=
      h.slot_eq (.inl hform.1)
    rw [hslots, hitems, if_neg (by simp)]
    rcases form.area with hvalue | ⟨name, hvalue⟩
    · exact .inl ⟨by rw [hvalue]; rfl, hvalue, hform.1⟩
    · have htruthy : (get form.fields "area").truthy = true := by
        have hname : name ≠ [] := by
          rintro rfl
          exact hform.2 hvalue
        simpa [hvalue, Ranking.Value.truthy] using hname
      exact .inr ⟨[], if_pos htruthy⟩
  | cons first rest =>
    rw [hitems] at hform
    have hpresent : isMissing (get criteria "areas") = false := by
      cases hareas : get criteria "areas" with
      | arr vs =>
        rw [hareas] at hitems
        obtain rfl : vs = first :: rest := hitems
        rfl
      | null => simp [hareas, items] at hitems
      | bool b => simp [hareas, items] at hitems
      | int n => simp [hareas, items] at hitems
      | float x => simp [hareas, items] at hitems
      | str s => simp [hareas, items] at hitems
      | obj fields => simp [hareas, items] at hitems
    have hslots : slot criteria searched.fields "areas" = get criteria "areas" :=
      h.slot_eq (.inr hpresent)
    rw [hslots, hitems, hform, if_pos (by simp)]
    exact .inr ⟨rest, rfl⟩

lemma area_reconcile (h : Held py form.fields criteria)
    (harea : Text.ofString "area" ∈ form.fields.keys) :
    get (reconcile_search_criteria py criteria searched.fields) "area" =
      get form.fields "area" := by
  rw [get_area_reconcile]
  rcases h.areasAfter_of_area harea with ⟨hnil, hnull, -⟩ | ⟨rest, hcons⟩
  · rw [hnil, hnull]
    rfl
  · rw [hcons]
    rfl

lemma replaced_slot (h : Held py form.fields criteria)
    (hmonthly : Text.ofString "max_budget_monthly" ∈ form.fields.keys) :
    replaced py criteria (slot criteria searched.fields "budget_period") = false := by
  exact h.monthly hmonthly _ (periodMayBe_slot criteria searched.fields)

lemma target_reconcile (h : Held py form.fields criteria)
    (hdestination : Text.ofString "destination" ∈ form.fields.keys) :
    get (reconcile_search_criteria py criteria searched.fields) "commute_destination" =
      get criteria "commute_destination" := by
  rw [get_target_reconcile, h.slot_eq (h.destination hdestination)]

lemma field_reconcile (h : Held py form.fields criteria) (hfield : field ∈ form.fields.keys) :
    get (reconcile_search_criteria py criteria searched.fields) field =
      get form.fields field := by
  by_cases hfollows : field ∈
      (["areas", "area", "destination", "max_budget_monthly"] : List Text)
  · simp only [List.mem_cons, List.not_mem_nil, or_false] at hfollows
    rcases hfollows with rfl | rfl | rfl | rfl
    · exact h.areas_reconcile hfield
    · exact h.area_reconcile hfield
    · rw [destination_reconcile, h.target_reconcile hfield, ← h.target,
        h.kept _ hfield]
    · exact (kept_monthly_iff.2 (h.replaced_slot hfield)).trans (h.kept _ hfield)
  · exact (get_reconcile_of_owned (h.owned _ hfield) hfollows).trans (h.kept _ hfield)

lemma replaced_reconcile (h : Held py form.fields criteria)
    (hmonthly : Text.ofString "max_budget_monthly" ∈ form.fields.keys) (period : Value) :
    replaced py (reconcile_search_criteria py criteria searched.fields) period =
      replaced py criteria period := by
  have hperiod : get (align (filled criteria searched.fields)) "budget_period" =
      slot criteria searched.fields "budget_period" := (get_align _ _).trans get_filled
  have hsync : reconcile_search_criteria py criteria searched.fields =
      align (filled criteria searched.fields) := by
    rw [reconcile_search_criteria, ← filled, synchronize_monthly_budget_alias, hperiod,
      replaced_align_filled, h.replaced_slot hmonthly]
    rfl
  rw [hsync, replaced_align_filled]

/-- One search leaves what the form holds. -/
lemma reconcile (h : Held py form.fields criteria) (searched : Criteria) :
    Held py form.fields (reconcile_search_criteria py criteria searched.fields) where
  owned := fun field hfield => (owned_congr sources_reconcile).2 (h.owned field hfield)
  kept := fun field hfield => h.field_reconcile hfield
  areas := fun hareas => by
    obtain ⟨hnull, hempty⟩ := h.areas hareas
    refine ⟨hnull, fun hform => ⟨(owned_congr sources_reconcile).2 (hempty hform).1, ?_⟩⟩
    have hafter : get (reconcile_search_criteria py criteria searched.fields) "areas" =
        get form.fields "areas" := h.areas_reconcile hareas
    rw [hform, get_areas_reconcile] at hafter
    rw [get_area_reconcile, JsonValue.arr.inj hafter]
    rfl
  area := fun harea => by
    rw [get_areas_reconcile, items]
    rcases h.areasAfter_of_area harea with ⟨hnil, hnull, howned⟩ | ⟨rest, hcons⟩
    · rw [hnil, hnull]
      exact ⟨(owned_congr sources_reconcile).2 howned, by simp⟩
    · rw [hcons]
  target := destination_reconcile
  destination := fun hdestination => by
    rw [h.target_reconcile hdestination]
    exact (h.destination hdestination).imp_left (owned_congr sources_reconcile).2
  monthly := fun hmonthly period hperiod => by
    have hslot : get (reconcile_search_criteria py criteria searched.fields) "budget_period" =
        slot criteria searched.fields "budget_period" := get_reconcile _
    rw [h.replaced_reconcile hmonthly]
    rw [hslot, owned_congr sources_reconcile] at hperiod
    exact h.monthly hmonthly period ((periodMayBe_slot _ _).trans hperiod)

end Held

/-! ### The form that lasts -/

/-- The period of the form's rent is the week. -/
def Weekly (py : Python) (accumulated form : Dict Value) : Prop :=
  periodOf py (shown accumulated form "budget_period") ∈ (["week", "weekly", "pw"] : List Text)

/-- What the slots of the form have to agree with, for searches to leave them. -/
structure FormAgrees (py : Python) (accumulated form : Dict Value) : Prop where
  sources : Text.ofString "constraint_sources" ∉ form.keys
  areas : Text.ofString "areas" ∈ form.keys → get form "areas" ≠ .null ∧
    (get form "areas" = .arr [] →
      OwnedOnce accumulated form "area" ∧ isMissing (shown accumulated form "area") = true)
  area : Text.ofString "area" ∈ form.keys →
    match items (shown accumulated form "areas") with
    | [] => OwnedOnce accumulated form "areas" ∧ get form "area" ≠ .str []
    | first :: _ => get form "area" = first
  destination : Text.ofString "destination" ∈ form.keys →
    get form "destination" = shown accumulated form "commute_destination" ∧
      (OwnedOnce accumulated form "commute_destination" ∨
        isMissing (shown accumulated form "commute_destination") = false)
  commute_time : Text.ofString "max_commute_time" ∈ form.keys →
    Text.ofString "max_travel_time" ∈ form.keys →
      get form "max_commute_time" = get form "max_travel_time"
  budget : Text.ofString "max_budget_monthly" ∈ form.keys →
    Text.ofString "max_budget" ∈ form.keys →
      (Weekly py accumulated form → get form "max_budget_monthly" = .null) ∧
        (¬ Weekly py accumulated form →
          get form "max_budget_monthly" = get form "max_budget")
  monthly : Text.ofString "max_budget_monthly" ∈ form.keys →
    Text.ofString "max_budget" ∉ form.keys → ∀ period,
      PeriodMayBe (OwnedOnce accumulated form "budget_period")
        (shown accumulated form "budget_period") period →
      replaced py (accumulated.update form) period = false

lemma get_apply_form (hbudget : field ≠ "max_budget_monthly") (htime : field ≠ "max_commute_time")
    (hdestination : field ≠ "destination") (hsources : field ≠ "constraint_sources") :
    get (apply_form_criteria py accumulated.fields form.fields) field =
      shown accumulated.fields form.fields field := by
  rw [get, get?_apply_form hbudget htime, if_neg hdestination, if_neg hsources, ← get_update, get]

lemma get_apply_form_destination :
    get (apply_form_criteria py accumulated.fields form.fields) "destination" =
      shown accumulated.fields form.fields "commute_destination" := by
  rw [← get_update]
  refine get_eq_of_get? ?_
  rw [get?_apply_form (by decide) (by decide)]
  rfl

lemma target_apply_form :
    get (apply_form_criteria py accumulated.fields form.fields) "destination" =
      get (apply_form_criteria py accumulated.fields form.fields) "commute_destination" := by
  rw [get_apply_form_destination, get_apply_form (by decide) (by decide) (by decide) (by decide)]

lemma get_apply_form_time :
    get (apply_form_criteria py accumulated.fields form.fields) "max_commute_time" =
      if Text.ofString "max_travel_time" ∈ form.fields.keys then get form.fields "max_travel_time"
      else shown accumulated.fields form.fields "max_commute_time" := by
  rw [apply_form_criteria, followCommuteTime]
  split_ifs with h
  · obtain ⟨value, hvalue⟩ := Dict.exists_get? h
    rw [hvalue, get_insert, if_pos rfl, get_eq_of_get? hvalue]
  · rw [Dict.get?_eq_none h, ← get_update, get, get?_followBudget (by decide), Dict.get?_insert,
      if_neg (by decide), Dict.get?_insert, if_neg (by decide), get]

lemma get?_apply_form_monthly :
    (apply_form_criteria py accumulated.fields form.fields).get? "max_budget_monthly" =
      (followBudget py form.fields (((accumulated.fields.update form.fields).insert
        "constraint_sources" (.obj (formSources accumulated.fields form.fields))).insert
          "destination" (shown accumulated.fields form.fields "commute_destination"))).get?
        "max_budget_monthly" := by
  have htarget (sources : Value) : get ((accumulated.fields.update form.fields).insert
      "constraint_sources" sources) "commute_destination" =
        shown accumulated.fields form.fields "commute_destination" := by
    rw [get_insert, if_neg (by decide), get_update]
  rw [apply_form_criteria, get?_followCommuteTime (by decide), htarget, formSources]

lemma get?_monthly_of_notMem (h : Text.ofString "max_budget" ∉ form.fields.keys) :
    (apply_form_criteria py accumulated.fields form.fields).get? "max_budget_monthly" =
      (accumulated.fields.update form.fields).get? "max_budget_monthly" := by
  rw [get?_apply_form_monthly, followBudget, Dict.get?_eq_none h, Dict.get?_insert,
    if_neg (by decide), Dict.get?_insert, if_neg (by decide)]

lemma get?_monthly_of_mem (py : Python) (accumulated : Criteria)
    (h : Text.ofString "max_budget" ∈ form.fields.keys) :
    Weekly py accumulated.fields form.fields ∧
        (apply_form_criteria py accumulated.fields form.fields).get? "max_budget_monthly" = none ∨
      (Weekly py accumulated.fields form.fields → get form.fields "max_budget" = .null) ∧
        (apply_form_criteria py accumulated.fields form.fields).get? "max_budget_monthly" =
          some (get form.fields "max_budget") := by
  obtain ⟨value, hvalue⟩ := Dict.exists_get? h
  have hperiod (sources target : Value) :
      get (((accumulated.fields.update form.fields).insert "constraint_sources" sources).insert
        "destination" target) "budget_period" =
        shown accumulated.fields form.fields "budget_period" := by
    rw [get_insert, if_neg (by decide), get_insert, if_neg (by decide), get_update]
  rw [get?_apply_form_monthly, get_eq_of_get? hvalue, followBudget, hvalue]
  split
  · next hnull => cases hnull
  · next hnull =>
    obtain rfl := Option.some.inj hnull
    right
    exact ⟨fun _ => rfl, (Dict.get?_insert _ _ _ _).trans (if_pos rfl)⟩
  · next value' hsome =>
    obtain rfl := Option.some.inj hsome
    rw [hperiod]
    split_ifs with hweekly
    · left
      exact ⟨hweekly, (Dict.get?_erase _ _ _).trans (if_pos rfl)⟩
    · right
      exact ⟨fun hnot => absurd hnot hweekly, (Dict.get?_insert _ _ _ _).trans (if_pos rfl)⟩

lemma get_monthly_of_mem (py : Python) (accumulated : Criteria)
    (h : Text.ofString "max_budget" ∈ form.fields.keys) :
    (Weekly py accumulated.fields form.fields →
        get (apply_form_criteria py accumulated.fields form.fields) "max_budget_monthly" = .null) ∧
      (¬ Weekly py accumulated.fields form.fields →
        get (apply_form_criteria py accumulated.fields form.fields) "max_budget_monthly" =
          get form.fields "max_budget") := by
  rcases get?_monthly_of_mem py accumulated h with ⟨hweekly, hnone⟩ | ⟨hnull, hsome⟩
  · refine ⟨fun _ => ?_, fun hnot => absurd hweekly hnot⟩
    rw [get, hnone]
    rfl
  · rw [get_eq_of_get? hsome]
    exact ⟨hnull, fun _ => rfl⟩

/-- Where the form sets the rent, it is not replaced. -/
lemma replaced_apply_form_of_mem (h : Text.ofString "max_budget" ∈ form.fields.keys)
    (period : Value) :
    replaced py (apply_form_criteria py accumulated.fields form.fields) period = false := by
  have hvalue : (apply_form_criteria py accumulated.fields form.fields).get? "max_budget" =
      some (get form.fields "max_budget") := by
    obtain ⟨value, hvalue⟩ := Dict.exists_get? h
    rw [get?_apply_form (by decide) (by decide), if_neg (by decide), if_neg (by decide),
      get?_update_of_mem _ _ h, hvalue, get_eq_of_get? hvalue]
  rw [replaced, hvalue]
  rcases get?_monthly_of_mem py accumulated h with ⟨-, hnone⟩ | ⟨-, hsome⟩
  · rw [hnone]
  · rw [hsome]
    refine Bool.eq_false_iff.2 fun hboth => ?_
    rw [Bool.and_eq_true] at hboth
    obtain ⟨hconfirmed, hne⟩ := hboth
    rw [eq_self_of_confirmed hconfirmed] at hne
    cases hne

/-- Where it does not, the rent is replaced as in the criteria the form is laid over. -/
lemma replaced_apply_form_of_notMem (h : Text.ofString "max_budget" ∉ form.fields.keys)
    (period : Value) :
    replaced py (apply_form_criteria py accumulated.fields form.fields) period =
      replaced py (accumulated.fields.update form.fields) period := by
  have hsource : get (sources (apply_form_criteria py accumulated.fields form.fields)) "max_budget" =
      get (sources (accumulated.fields.update form.fields)) "max_budget" := by
    rw [sources_apply_form, get, get_formSources_of_notMem _ _ h, get]
  rw [replaced, replaced, hsource, get?_monthly_of_notMem h,
    get?_apply_form (by decide) (by decide), if_neg (by decide), if_neg (by decide)]

lemma FormAgrees.held (h : FormAgrees py accumulated.fields form.fields) :
    Held py form.fields (apply_form_criteria py accumulated.fields form.fields) where
  owned := fun field hfield => (owned_apply_form h.sources).2 (.inl hfield)
  kept := fun field hfield => by
    by_cases hown : field ∈ (["constraint_sources", "destination", "max_budget_monthly",
      "max_commute_time"] : List Text)
    · simp only [List.mem_cons, List.not_mem_nil, or_false] at hown
      rcases hown with rfl | rfl | rfl | rfl
      · exact absurd hfield h.sources
      · rw [get_apply_form_destination, (h.destination hfield).1]
      · by_cases hbudget : Text.ofString "max_budget" ∈ form.fields.keys
        · obtain ⟨hweekly, hmonthly⟩ := get_monthly_of_mem py accumulated hbudget
          by_cases hperiod : Weekly py accumulated.fields form.fields
          · rw [hweekly hperiod, (h.budget hfield hbudget).1 hperiod]
          · rw [hmonthly hperiod, (h.budget hfield hbudget).2 hperiod]
        · rw [get, get?_monthly_of_notMem hbudget, get?_update_of_mem _ _ hfield, get]
      · rw [get_apply_form_time]
        split_ifs with htime
        · exact (h.commute_time hfield htime).symm
        · exact if_pos hfield
    · simp only [List.mem_cons, List.not_mem_nil, or_false, not_or] at hown
      obtain ⟨hsources, hdestination, hmonthly, htime⟩ := hown
      rw [get_apply_form hmonthly htime hdestination hsources]
      exact if_pos hfield
  areas := fun hareas => by
    rw [get_apply_form (by decide) (by decide) (by decide) (by decide), owned_apply_form h.sources]
    exact h.areas hareas
  area := fun harea => by
    rw [get_apply_form (by decide) (by decide) (by decide) (by decide), owned_apply_form h.sources]
    exact h.area harea
  target := target_apply_form
  destination := fun hdestination => by
    rw [get_apply_form (by decide) (by decide) (by decide) (by decide), owned_apply_form h.sources]
    exact (h.destination hdestination).2
  monthly := fun hmonthly period hperiod => by
    by_cases hbudget : Text.ofString "max_budget" ∈ form.fields.keys
    · exact replaced_apply_form_of_mem hbudget period
    · rw [get_apply_form (by decide) (by decide) (by decide) (by decide),
        owned_apply_form h.sources] at hperiod
      rw [replaced_apply_form_of_notMem hbudget]
      exact h.monthly hmonthly hbudget period hperiod

/-- After any searches the form's slots have the form's values. -/
def FormKept (py : Python) (accumulated form : Criteria) : Prop :=
  ∀ searches : List Criteria, searches ≠ [] → ∀ field ∈ form.fields.keys,
    get (Runs.run (fun criteria searched => reconcile_search_criteria py criteria searched.fields)
      (apply_form_criteria py accumulated.fields form.fields) searches) field =
        get form.fields field

lemma FormAgrees.formKept (h : FormAgrees py accumulated.fields form.fields) :
    FormKept py accumulated form := by
  intro searches _ field hfield
  have hstep (criteria : Dict Value) (searched : Criteria)
      (hheld : Held py form.fields criteria) :
      Held py form.fields (reconcile_search_criteria py criteria searched.fields) :=
    hheld.reconcile searched
  exact (Runs.run_preserves hstep h.held searches).kept field hfield

/-- What has no other name is what the form shows. -/
lemma slot_apply_form (hbudget : field ≠ "max_budget_monthly") (htime : field ≠ "max_commute_time")
    (hdestination : field ≠ "destination") (hsources : field ≠ "constraint_sources") :
    slot (apply_form_criteria py accumulated.fields form.fields) noSearch.fields field =
      shown accumulated.fields form.fields field := by
  rw [slot_noSearch, normalize_eq_self target_apply_form,
    get_apply_form hbudget htime hdestination hsources]

lemma shown_area_text (accumulated form : Criteria) :
    shown accumulated.fields form.fields "area" = .null ∨
      ∃ name, shown accumulated.fields form.fields "area" = .str name := by
  rw [shown]
  split_ifs
  · exact form.area
  · exact accumulated.area

lemma shown_areas_list (accumulated form : Criteria) :
    shown accumulated.fields form.fields "areas" = .null ∨
      ∃ names : List Text, shown accumulated.fields form.fields "areas" = .arr (names.map .str) := by
  rw [shown]
  split_ifs
  · exact form.areas
  · exact accumulated.areas

lemma truthy_of_areasAfter_eq_nil {criteria searched : Dict Value}
    (h : areasAfter criteria searched = []) : (slot criteria searched "area").truthy = false := by
  rw [areasAfter, areasOf] at h
  split_ifs at h with hitems harea
  · exact absurd h hitems
  · simpa using harea

/-- No value is inside itself. -/
lemma ne_obj_of_formSource_mem {value : Value} {d : Dict Value}
    (h : Dict.get? d field = some (formSource value)) : value ≠ .obj d := by
  rintro rfl
  have hmem : sizeOf (field, formSource (.obj d)) < sizeOf d :=
    List.sizeOf_lt_of_mem (Dict.mem_of_get? h)
  simp [formSource] at hmem
  omega

namespace FormKept

variable (h : FormKept py accumulated form)

include h

lemma one (searched : Criteria) (hfield : field ∈ form.fields.keys) :
    get (reconcile_search_criteria py (apply_form_criteria py accumulated.fields form.fields)
      searched.fields) field = get form.fields field :=
  h [searched] (by simp) field hfield

lemma sources_notMem : Text.ofString "constraint_sources" ∉ form.fields.keys := by
  intro hmem
  have hkept := h.one noSearch hmem
  have hvalue : get (apply_form_criteria py accumulated.fields form.fields) "constraint_sources" =
      .obj (formSources accumulated.fields form.fields) := by
    refine get_eq_of_get? ?_
    rw [get?_apply_form (by decide) (by decide)]
    rfl
  have hafter : get (reconcile_search_criteria py
      (apply_form_criteria py accumulated.fields form.fields) noSearch.fields)
        "constraint_sources" = slot (apply_form_criteria py accumulated.fields form.fields)
          noSearch.fields "constraint_sources" := get_reconcile _
  rw [hafter, slot_noSearch, normalize_eq_self target_apply_form, hvalue] at hkept
  exact ne_obj_of_formSource_mem (get?_formSources_of_mem accumulated form hmem) hkept.symm

/-- A slot that is free and empty takes what a search says. -/
lemma slot_free (hsources : field ≠ "constraint_sources") (hdestination : field ≠ "destination")
    (hbudget : field ≠ "max_budget_monthly") (htime : field ≠ "max_commute_time")
    (hkeys : aliases.get? field = some [field])
    (hfree : ¬ OwnedOnce accumulated.fields form.fields field)
    (hmissing : isMissing (shown accumulated.fields form.fields field) = true) {value : Value}
    (hgives : gives field value = true) (harea hareas) :
    slot (apply_form_criteria py accumulated.fields form.fields)
      (searchFor field value harea hareas hsources).fields field = value := by
  refine slot_searchFor hkeys (fun howned => hfree ?_) ?_ hgives harea hareas hsources
  · exact (owned_apply_form h.sources_notMem).1 howned
  · rw [normalize_eq_self target_apply_form, get_apply_form hbudget htime hdestination hsources]
    exact hmissing

lemma areas (hareas : Text.ofString "areas" ∈ form.fields.keys) :
    get form.fields "areas" ≠ .null ∧ (get form.fields "areas" = .arr [] →
      OwnedOnce accumulated.fields form.fields "area" ∧
        isMissing (shown accumulated.fields form.fields "area") = true) := by
  have hkept (searched : Criteria) : .arr (areasAfter
      (apply_form_criteria py accumulated.fields form.fields) searched.fields) =
        get form.fields "areas" := by
    rw [← h.one searched hareas, get_areas_reconcile]
  refine ⟨fun hnull => ?_, fun hnil => ?_⟩
  · have hnone := hkept noSearch
    rw [hnull] at hnone
    cases hnone
  · have hfalse (searched : Criteria) : (slot (apply_form_criteria py accumulated.fields form.fields)
        searched.fields "area").truthy = false := by
      have hempty := hkept searched
      rw [hnil] at hempty
      exact truthy_of_areasAfter_eq_nil (JsonValue.arr.inj hempty)
    have hmissing : isMissing (shown accumulated.fields form.fields "area") = true := by
      rw [isMissing_iff_of_text (shown_area_text _ _)]
      have hnone := hfalse noSearch
      rw [slot_apply_form (by decide) (by decide) (by decide) (by decide)] at hnone
      simp [hnone]
    refine ⟨?_, hmissing⟩
    by_contra hfree
    have hgiven := hfalse (searchFor "area" (.str "Camden") (fun _ => ⟨_, rfl⟩)
      (fun heq => absurd heq (by decide)) (by decide))
    rw [h.slot_free (by decide) (by decide) (by decide) (by decide) rfl hfree hmissing
      (by decide)] at hgiven
    cases hgiven

lemma area (harea : Text.ofString "area" ∈ form.fields.keys) :
    match items (shown accumulated.fields form.fields "areas") with
    | [] => OwnedOnce accumulated.fields form.fields "areas" ∧ get form.fields "area" ≠ .str []
    | first :: _ => get form.fields "area" = first := by
  have hkept (searched : Criteria) : (areasAfter
      (apply_form_criteria py accumulated.fields form.fields) searched.fields).head?.getD .null =
        get form.fields "area" := by
    rw [← h.one searched harea, get_area_reconcile]
  have hslots : slot (apply_form_criteria py accumulated.fields form.fields) noSearch.fields "areas" =
      shown accumulated.fields form.fields "areas" :=
    slot_apply_form (by decide) (by decide) (by decide) (by decide)
  have hslot : slot (apply_form_criteria py accumulated.fields form.fields) noSearch.fields "area" =
      get form.fields "area" :=
    (slot_apply_form (by decide) (by decide) (by decide) (by decide)).trans (if_pos harea)
  have hnone := hkept noSearch
  rw [areasAfter, hslots, hslot, areasOf] at hnone
  cases hitems : items (shown accumulated.fields form.fields "areas") with
  | cons first rest =>
    rw [hitems] at hnone
    exact hnone.symm
  | nil =>
    refine ⟨?_, fun hempty => ?_⟩
    · by_contra hfree
      have hmissing : isMissing (shown accumulated.fields form.fields "areas") = true := by
        rcases shown_areas_list accumulated form with hnull | ⟨names, hlist⟩
        · rw [hnull]
          rfl
        · rw [hlist] at hitems ⊢
          simpa [items, isMissing] using hitems
      have hgiven (name : Text) : .str name = get form.fields "area" := by
        rw [← hkept (searchFor "areas" (.arr [.str name]) (fun heq => absurd heq (by decide))
          (fun _ => ⟨[name], rfl⟩) (by decide)), areasAfter,
          h.slot_free (by decide) (by decide) (by decide) (by decide) rfl hfree hmissing rfl]
        rfl
      have hboth := (hgiven "Camden").trans (hgiven "Soho").symm
      exact absurd (JsonValue.str.inj hboth) (by decide)
    · rw [hitems, hempty] at hnone
      cases hnone

lemma destination (hdestination : Text.ofString "destination" ∈ form.fields.keys) :
    get form.fields "destination" = shown accumulated.fields form.fields "commute_destination" ∧
      (OwnedOnce accumulated.fields form.fields "commute_destination" ∨
        isMissing (shown accumulated.fields form.fields "commute_destination") = false) := by
  have hkept (searched : Criteria) : slot (apply_form_criteria py accumulated.fields form.fields)
      searched.fields "commute_destination" = get form.fields "destination" := by
    rw [← h.one searched hdestination, get_destination_reconcile]
  constructor
  · rw [← hkept noSearch, slot_apply_form (by decide) (by decide) (by decide) (by decide)]
  · by_contra hfree
    obtain ⟨hfree, hmissing⟩ := not_or.1 hfree
    rw [Bool.not_eq_false] at hmissing
    have hgiven (name : Text) (hname : gives "commute_destination" (.str name) = true) :
        .str name = get form.fields "destination" := by
      rw [← hkept (searchFor "commute_destination" (.str name)
        (fun heq => absurd heq (by decide)) (fun heq => absurd heq (by decide)) (by decide)),
        h.slot_free (by decide) (by decide) (by decide) (by decide) rfl hfree hmissing hname]
    have hboth := (hgiven "Camden" (by decide)).trans (hgiven "Soho" (by decide)).symm
    exact absurd (JsonValue.str.inj hboth) (by decide)

lemma commute_time (hold : Text.ofString "max_commute_time" ∈ form.fields.keys)
    (hnew : Text.ofString "max_travel_time" ∈ form.fields.keys) :
    get form.fields "max_commute_time" = get form.fields "max_travel_time" := by
  have hkept := h.one noSearch hold
  have hafter : get (reconcile_search_criteria py
      (apply_form_criteria py accumulated.fields form.fields) noSearch.fields) "max_commute_time" =
        slot (apply_form_criteria py accumulated.fields form.fields) noSearch.fields
          "max_commute_time" := get_reconcile _
  rw [hafter, slot_noSearch, normalize_eq_self target_apply_form, get_apply_form_time,
    if_pos hnew] at hkept
  exact hkept.symm

lemma budget (hmonthly : Text.ofString "max_budget_monthly" ∈ form.fields.keys)
    (hbudget : Text.ofString "max_budget" ∈ form.fields.keys) :
    (Weekly py accumulated.fields form.fields → get form.fields "max_budget_monthly" = .null) ∧
      (¬ Weekly py accumulated.fields form.fields →
        get form.fields "max_budget_monthly" = get form.fields "max_budget") := by
  rw [← h.one noSearch hmonthly, kept_monthly_iff.2 (replaced_apply_form_of_mem hbudget _)]
  exact get_monthly_of_mem py accumulated hbudget

lemma monthly (hmonthly : Text.ofString "max_budget_monthly" ∈ form.fields.keys)
    (hbudget : Text.ofString "max_budget" ∉ form.fields.keys) (period : Value)
    (hperiod : PeriodMayBe (OwnedOnce accumulated.fields form.fields "budget_period")
      (shown accumulated.fields form.fields "budget_period") period) :
    replaced py (accumulated.fields.update form.fields) period = false := by
  have hold : get (apply_form_criteria py accumulated.fields form.fields) "max_budget_monthly" =
      get form.fields "max_budget_monthly" := by
    rw [get, get?_monthly_of_notMem hbudget, get?_update_of_mem _ _ hmonthly, get]
  have hkept (searched : Criteria) : replaced py (accumulated.fields.update form.fields)
      (slot (apply_form_criteria py accumulated.fields form.fields) searched.fields
        "budget_period") = false := by
    rw [← replaced_apply_form_of_notMem hbudget]
    exact kept_monthly_iff.1 ((h.one searched hmonthly).trans hold.symm)
  rcases hperiod with rfl | ⟨hfree, hmissing, hpresent⟩
  · have hnone := hkept noSearch
    rwa [slot_apply_form (by decide) (by decide) (by decide) (by decide)] at hnone
  · have hgives : gives "budget_period" period = true := by
      rw [gives, hpresent]
      rfl
    have hgiven := hkept (searchFor "budget_period" period (fun heq => absurd heq (by decide))
      (fun heq => absurd heq (by decide)) (by decide))
    rwa [h.slot_free (by decide) (by decide) (by decide) (by decide) rfl hfree hmissing
      hgives] at hgiven

lemma formAgrees : FormAgrees py accumulated.fields form.fields where
  sources := h.sources_notMem
  areas := h.areas
  area := h.area
  destination := h.destination
  commute_time := h.commute_time
  budget := h.budget
  monthly := h.monthly

end FormKept

/-- Criteria in which the user has cleared the area. -/
def areaCleared : Criteria where
  fields := [(Text.ofString "area", .null), (Text.ofString "areas", .arr []),
    (Text.ofString "constraint_sources", .obj [(Text.ofString "area",
      .obj [(Text.ofString "source", .str "user_message"), (Text.ofString "value", .null)])])]
  distinct := by decide
  area := .inl rfl
  areas := .inr ⟨[], rfl⟩
  constraint_sources := .inr ⟨_, rfl⟩

/-- The criteria of a search in Camden. -/
def inCamden : Criteria :=
  searchFor "areas" (.arr [.str "Camden"]) (fun heq => absurd heq (by decide))
    (fun _ => ⟨[Text.ofString "Camden"], rfl⟩) (by decide)

/-- An interpreter that lowers and reads no text. -/
def noTexts : Python where
  floatOf := fun _ => none
  lower := id
  repr := fun _ => []
  extract_budget := fun _ => (none, none)

theorem cleared_area_filled :
    get (reconcile_search_criteria noTexts areaCleared.fields inCamden.fields) "area" =
        .str "Camden" ∧
      ¬ ∀ field, Owned areaCleared.fields field →
        get (reconcile_search_criteria noTexts areaCleared.fields inCamden.fields) field =
          get areaCleared.fields field := by
  have harea : get (reconcile_search_criteria noTexts areaCleared.fields inCamden.fields) "area" =
      .str "Camden" := rfl
  refine ⟨harea, fun hkept => ?_⟩
  have hnull := hkept "area" (by decide)
  rw [harea] at hnull
  cases hnull

/-- Searches leave what the user owns exactly where the aliases agree, always align the areas and
are done after one time; they leave the form exactly where its slots agree. -/
theorem user_owned_iff (py : Python) :
    (∀ accumulated searched : Criteria,
      ((∀ field, Owned accumulated.fields field →
          get (reconcile_search_criteria py accumulated.fields searched.fields) field =
            get accumulated.fields field) ↔
        AliasesAgree py accumulated.fields searched.fields) ∧
      FirstOfAreas (reconcile_search_criteria py accumulated.fields searched.fields) ∧
      reconcile_search_criteria py
          (reconcile_search_criteria py accumulated.fields searched.fields) searched.fields =
        reconcile_search_criteria py accumulated.fields searched.fields) ∧
    ∀ accumulated form : Criteria, FormKept py accumulated form ↔
      FormAgrees py accumulated.fields form.fields :=
  ⟨fun _ _ => ⟨kept_iff, firstOfAreas_reconcile, reconcile_reconcile⟩,
    fun _ _ => ⟨fun h => h.formAgrees, fun h => h.formKept⟩⟩

end RentCompass.CriteriaContract
