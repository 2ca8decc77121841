import RentCompass.Listings.Refinement

/-!
# What a refinement returns

A refinement is a narrowing of what is shown: the records that pass every filter, in the order
asked for with the unknown ones last and ties as they stood, cut to the limit. A plan leaves
something on screen and does something to it.
-/

namespace RentCompass.Refinement

open Narrowing

variable (py : Python)

/-! ### Refinements are narrowings -/

/-- The record passes every filter. -/
def passesAll (filters : List Filter) (rec : Record) : Bool := filters.all (passes py rec)

lemma foldl_filter (filters : List Filter) (previous : List Record) :
    filters.foldl (fun out flt => out.filter fun r => passes py r flt) previous =
      previous.filter (passesAll py filters) := by
  induction filters generalizing previous with
  | nil => exact (List.filter_eq_self.2 fun _ _ => rfl).symm
  | cons flt filters ih =>
    rw [List.foldl_cons, ih, List.filter_filter]
    refine List.filter_congr fun rec _ => ?_
    rw [passesAll, passesAll, List.all_cons, Bool.and_comm]

lemma apply_refinement_eq (previous : List Record) (spec : Spec) :
    apply_refinement py previous spec =
      narrow (passesAll py spec.filters) (spec.sort.map (Sorting.place py)) (spec.limit.getD 0)
        previous := by
  rw [apply_refinement, foldl_filter, narrow]
  obtain ⟨filters, sort, limit, unsupported⟩ := spec
  cases limit with
  | none => cases sort <;> rfl
  | some limit =>
    cases limit with
    | zero => cases sort <;> rfl
    | succ limit => cases sort <;> rfl

/-! ### The order -/

/-- The one record is put before the other: its key is known and the other's is not, or comes first
in the direction asked for, or does not differ and it stood before. -/
def Leads (sort : Option Sorting) (stoodBefore : Prop) (a b : Record) : Prop :=
  match sort with
  | none => stoodBefore
  | some sort =>
    match sort.key.read py a, sort.key.read py b with
    | none, none => stoodBefore
    | none, some _ => False
    | some _, none => True
    | some x, some y => (if sort.desc then y < x else x < y) ∨ x = y ∧ stoodBefore

lemma precedes_iff {sort : Option Sorting} {stoodBefore : Prop} {a b : Record} :
    Precedes (sort.map (Sorting.place py)) stoodBefore a b ↔ Leads py sort stoodBefore a b := by
  cases sort with
  | none => rfl
  | some sort =>
    rw [Option.map_some, Precedes, Leads, Sorting.place, Sorting.place]
    cases sort.key.read py a with
    | none => cases sort.key.read py b <;> simp [Prod.Lex.toLex_lt_toLex]
    | some x =>
      cases sort.key.read py b with
      | none => simp [Prod.Lex.toLex_lt_toLex]
      | some y => cases sort.desc <;> simp [Prod.Lex.toLex_lt_toLex]

/-- What is returned of the shown records: the first of the places that pass, in their order. -/
structure Refines (previous : List Record) (spec : Spec) (places : List Nat) : Prop where
  distinct : places.Nodup
  kept : ∀ i, i ∈ places ↔ ∃ rec, previous[i]? = some rec ∧ ∀ flt ∈ spec.filters, passes py rec flt
  ordered : places.Pairwise fun i j => ∀ a b, previous[i]? = some a → previous[j]? = some b →
    Leads py spec.sort (i < j) a b
  returned : (apply_refinement py previous spec).map some =
    (cut (spec.limit.getD 0) places).map (previous[·]?)

lemma exists_refines (previous : List Record) (spec : Spec) :
    ∃ places, Refines py previous spec places := by
  obtain ⟨places, hdistinct, hkept, hordered, hreturned⟩ :=
    narrow_places (passesAll py spec.filters) (spec.sort.map (Sorting.place py))
      (spec.limit.getD 0) previous
  refine ⟨places, hdistinct, fun i => ?_, ?_, ?_⟩
  · rw [hkept]
    simp only [passesAll, List.all_eq_true]
  · refine hordered.imp fun {i j} hij a b ha hb => ?_
    exact (precedes_iff py).1 (hij a b ha hb)
  · rw [apply_refinement_eq, hreturned]

lemma apply_refinement_idem (previous : List Record) (spec : Spec) :
    apply_refinement py (apply_refinement py previous spec) spec =
      apply_refinement py previous spec := by
  rw [apply_refinement_eq, apply_refinement_eq, narrow_narrow]

/-! ### Plans -/

variable {py} {patterns : Patterns} {message : Text} {previous refined : List Record} {spec : Spec}

lemma length_apply_refinement_le (previous : List Record) (spec : Spec) :
    (apply_refinement py previous spec).length ≤ previous.length := by
  rw [apply_refinement_eq]
  exact narrow_subperm.length_le

/-- What is parsed cuts fewer records than are shown. -/
lemma limit_lt_of_parse (h : parse_refinement patterns message previous = some spec) {limit : Nat}
    (hlimit : spec.limit = some limit) : limit < previous.length := by
  rw [parse_refinement] at h
  split_ifs at h with hnothing hcovers
  · obtain ⟨areas, -, h⟩ := Option.bind_eq_some_iff.1 h
    cases h
  · obtain ⟨areas, -, h⟩ := Option.bind_eq_some_iff.1 h
    dsimp only at h
    split_ifs at h
    obtain rfl := Option.some.inj h
    simpa using (Option.filter_eq_some_iff.1 hlimit).2

/-- A plan leaves something on screen, and takes records away or puts them in order. -/
lemma plan_spec (h : plan_refinement py patterns message previous = some (spec, refined)) :
    refined = apply_refinement py previous spec ∧ refined ≠ [] ∧
      (spec.sort ≠ none ∨ refined.length < previous.length) := by
  rw [plan_refinement] at h
  split_ifs at h with hprevious
  obtain ⟨spec', hparse, h⟩ := Option.bind_eq_some_iff.1 h
  dsimp only at h
  split_ifs at h with hnil hidle
  obtain ⟨rfl, rfl⟩ := Prod.mk.inj (Option.some.inj h)
  refine ⟨rfl, hnil, ?_⟩
  by_contra hnot
  rw [not_or, not_not, not_lt] at hnot
  obtain ⟨hsort, hlength⟩ := hnot
  have hsame := le_antisymm (length_apply_refinement_le previous spec') hlength
  have hlimit : spec'.limit.getD 0 ≠ 0 := fun hzero => hidle ⟨hsame, hsort, hzero⟩
  cases hsome : spec'.limit with
  | none => exact hlimit (by rw [hsome]; rfl)
  | some limit =>
    have hlt := limit_lt_of_parse hparse hsome
    have hle : (apply_refinement py previous spec').length ≤ limit := by
      rw [hsome, Option.getD_some] at hlimit
      rw [apply_refinement_eq, narrow, cut, hsome, Option.getD_some, if_neg hlimit]
      exact List.length_take_le _ _
    omega

/-- Refining returns what passes, in the order asked for and up to the limit, and to refine again
changes nothing; a plan is never empty and never idle. -/
theorem refinement_laws (py : Python) (patterns : Patterns) :
    (∀ previous spec, (∃ places, Refines py previous spec places) ∧
      apply_refinement py (apply_refinement py previous spec) spec =
        apply_refinement py previous spec) ∧
    ∀ message previous spec refined,
      plan_refinement py patterns message previous = some (spec, refined) →
        refined = apply_refinement py previous spec ∧ refined ≠ [] ∧
          (spec.sort ≠ none ∨ refined.length < previous.length) :=
  ⟨fun previous spec => ⟨exists_refines py previous spec, apply_refinement_idem py previous spec⟩,
    fun _ _ _ _ h => plan_spec h⟩

/-! ### A ceiling on the rent -/

/-- An interpreter that knows the digits of ASCII. -/
def asciiPython : Python where
  floatOf _ := none
  lower t := t
  repr _ := []
  digit? c := if 48 ≤ c ∧ c ≤ 57 then some (c - 48) else none
  float n := n

/-- The patterns that find a ceiling of two thousand and nothing else. -/
def ceilingPatterns : Patterns where
  declines _ _ := false
  areas _ _ := some []
  priceBound _ := (some 2000, none)
  roomType _ := (none, none)
  minBedrooms _ := none
  exactBedrooms _ := none
  ceilingCovers _ _ _ := false
  sort _ := (none, none)
  limit _ := none

def priced (price : String) : Record := [("price", .str price)]

def ceilingSpec : Spec :=
  { filters := [.max_price 2000], sort := none, limit := none, unsupported_sort := none }

theorem ceiling_plan :
    [priced "£1,800/month"] =
        apply_refinement asciiPython [priced "£2,400/month", priced "£1,800/month"] ceilingSpec ∧
      [priced "£1,800/month"] ≠ [] ∧
        (ceilingSpec.sort ≠ none ∨
          [priced "£1,800/month"].length <
            [priced "£2,400/month", priced "£1,800/month"].length) :=
  (refinement_laws asciiPython ceilingPatterns).2 "drop anything over £2000" _ ceilingSpec _ rfl

end RentCompass.Refinement
