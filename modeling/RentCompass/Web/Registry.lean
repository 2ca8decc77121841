import RentCompass.Runs
import RentCompass.Web.Focus

/-!
# The registry of recommended listings

All listings a conversation has recommended, in the order they were first shown. The user refers to
a listing by the number it was first shown under, so that number has to stay.
-/

namespace RentCompass.Web

open Scraping

/-- What `int(value)` comes to: a number, a `TypeError` or `ValueError`, or another error. -/
inductive IntRead where
  | number (n : Int)
  | ignored
  | failed

/-- The values of entries and recommendations. -/
class RegistryValue (V : Type) extends FieldValue V where
  ofInt : Int → V
  readInt : V → IntRead
  /-- A set can be asked for it. -/
  hashable : V → Bool
  truthy_empty : truthy (ofText []) = false
  readInt_ofInt : ∀ n, readInt (ofInt n) = .number n

variable {V : Type} [RegistryValue V] (chars : Characters)

/-! ### Keys -/

inductive RegistryKey where
  | url (url : Text)
  | address (address price : Text)
deriving DecidableEq

/-- `_registry_entry_key` -/
def registryEntryKey (url address price : V) : Option RegistryKey :=
  let u := listingUrlKey chars url
  let a := chars.lower (if RowValue.truthy address then RowValue.str address else []).strip
  if u ≠ [] then some (.url u)
  else if a ≠ [] then some (.address a (listingPriceKey chars price))
  else none

/-- The key of an entry, and of a recommendation. -/
def keyOf (row : Row V) : Option RegistryKey :=
  registryEntryKey chars (valueOf row "url") (valueOf row "address") (valueOf row "price")

/-- `int(e.get('index', 0))` -/
def indexOf (entry : Row V) : IntRead :=
  RegistryValue.readInt ((entry.field "index").getD (RegistryValue.ofInt 0))

/-! ### Merging -/

/-- The entry of a recommendation. -/
def registryEntry (index : Int) (rec : Row V) : Row V :=
  [(Text.ofString "index", RegistryValue.ofInt index),
   (Text.ofString "address", orElse (valueOf rec "address") (FieldValue.ofText [])),
   (Text.ofString "price", valueOf rec "price"),
   (Text.ofString "area", valueOf rec "area"),
   (Text.ofString "travel_time", valueOf rec "travel_time"),
   (Text.ofString "url", orElse (valueOf rec "url") (FieldValue.ofText [])),
   (Text.ofString "available_from", valueOf rec "available_from"),
   (Text.ofString "geo_location", orElse (valueOf rec "geo_location") (FieldValue.ofText []))]

/-- `rec.get('candidate_status') in {'excluded', 'unknown'}` -/
def withheld (rec : Row V) : Bool :=
  FieldValue.text? (valueOf rec "candidate_status") = some (Text.ofString "excluded") ||
    FieldValue.text? (valueOf rec "candidate_status") = some (Text.ofString "unknown")

/-- The loop over the recommendations; none where a status cannot be hashed. -/
def mergeRecommendations (maxItems : Int) :
    List (Row V) → List RegistryKey → Int → List (Option (Row V)) → Option (List (Row V))
  | registry, _, _, [] => some registry
  | registry, seen, maxIndex, none :: recs =>
    mergeRecommendations maxItems registry seen maxIndex recs
  | registry, seen, maxIndex, some rec :: recs =>
    if !RegistryValue.hashable (valueOf rec "candidate_status") then none
    else if withheld rec then mergeRecommendations maxItems registry seen maxIndex recs
    else
      match keyOf chars rec with
      | none => mergeRecommendations maxItems registry seen maxIndex recs
      | some key =>
        if key ∈ seen then mergeRecommendations maxItems registry seen maxIndex recs
        else if maxItems ≤ registry.length then some registry
        else
          mergeRecommendations maxItems (registry ++ [registryEntry (maxIndex + 1) rec])
            (key :: seen) (maxIndex + 1) recs

/-- The largest index of some entries, and of `m`; none where reading one fails. -/
def maxIndex (m : Int) : List (Row V) → Option Int
  | [] => some m
  | e :: entries =>
    match indexOf e with
    | .number n => maxIndex (max m n) entries
    | .ignored => maxIndex m entries
    | .failed => none

/-- `_merge_recommended_registry`; none where it raises. -/
def mergeRecommendedRegistry (maxItems : Int) (existing recs : List (Option (Row V))) :
    Option (List (Row V)) :=
  let registry := existing.reduceOption
  (maxIndex 0 registry).bind fun m =>
    mergeRecommendations chars maxItems registry (registry.filterMap (keyOf chars)) m recs

/-- One call: a merge that raises leaves the registry. -/
def mergeCall (maxItems : Int) (existing recs : List (Option (Row V))) : List (Option (Row V)) :=
  ((mergeRecommendedRegistry chars maxItems existing recs).map (·.map some)).getD existing

/-- The entries after some calls. -/
def registryAfter (maxItems : Int) (start : List (Option (Row V)))
    (calls : List (List (Option (Row V)))) : List (Row V) :=
  (Runs.run (mergeCall chars maxItems) start calls).reduceOption

/-! ### What a merge can do -/

/-- A recommendation that may be entered. -/
def Admitted (rec : Row V) : Prop := withheld rec = false ∧ keyOf chars rec ≠ none

/-- The registry takes entries up, each of one of the recommendations: of a key that no entry has,
below the cap, and under a number above all. -/
inductive Grows (maxItems : Int) (recs : Row V → Prop) : List (Row V) → List (Row V) → Prop
  | refl (entries : List (Row V)) : Grows maxItems recs entries entries
  | enter {entries entries' : List (Row V)} {rec : Row V} {n : Int} (hrec : recs rec)
      (hadmitted : Admitted chars rec) (hkey : ∀ e ∈ entries, keyOf chars e ≠ keyOf chars rec)
      (hindex : ∀ e ∈ entries, ∀ m, indexOf e = .number m → m < n)
      (hcap : (entries.length : Int) < maxItems)
      (hthen : Grows maxItems recs (entries ++ [registryEntry n rec]) entries') :
      Grows maxItems recs entries entries'

variable {chars} {maxItems : Int} {recs : Row V → Prop} {entries entries' entries'' : List (Row V)}
  {rec : Row V} {n : Int}

/-! ### Entries -/

lemma truthy_orElse_empty (v : V) :
    RowValue.truthy (orElse v (FieldValue.ofText [])) = RowValue.truthy v := by
  rw [orElse]
  split
  · rfl
  · next h => rw [RegistryValue.truthy_empty, Bool.eq_false_iff.2 h]

lemma listingUrlKey_orElse (v : V) :
    listingUrlKey chars (orElse v (FieldValue.ofText [])) = listingUrlKey chars v := by
  rw [listingUrlKey, listingUrlKey, truthy_orElse_empty]
  cases hv : RowValue.truthy v <;> simp [orElse, hv]

/-- An entry has the key of its recommendation. -/
lemma keyOf_registryEntry : keyOf chars (registryEntry n rec) = keyOf chars rec := by
  have hurl : valueOf (registryEntry n rec) "url" =
    orElse (valueOf rec "url") (FieldValue.ofText []) := by rfl
  have haddress : valueOf (registryEntry n rec) "address" =
    orElse (valueOf rec "address") (FieldValue.ofText []) := by rfl
  have hprice : valueOf (registryEntry n rec) "price" = valueOf rec "price" := by rfl
  rw [keyOf, keyOf, registryEntryKey, registryEntryKey, hurl, haddress, hprice,
    listingUrlKey_orElse, truthy_orElse_empty]
  cases hv : RowValue.truthy (valueOf rec "address") <;> simp [orElse, hv]

lemma indexOf_registryEntry : indexOf (registryEntry n rec) = .number n :=
  RegistryValue.readInt_ofInt n

/-! ### Growing -/

namespace Grows

lemma trans (h : Grows chars maxItems recs entries entries')
    (h' : Grows chars maxItems recs entries' entries'') :
    Grows chars maxItems recs entries entries'' := by
  induction h with
  | refl _ => exact h'
  | enter hrec hadmitted hkey hindex hcap _ ih =>
    exact .enter hrec hadmitted hkey hindex hcap (ih h')

/-- What is entered stays, in its place. -/
lemma isPrefix (h : Grows chars maxItems recs entries entries') : entries <+: entries' := by
  induction h with
  | refl entries => exact List.prefix_refl entries
  | enter _ _ _ _ _ _ ih => exact (List.prefix_append _ _).trans ih

lemma length_le (h : Grows chars maxItems recs entries entries') :
    (entries'.length : Int) ≤ max (entries.length : Int) maxItems := by
  induction h with
  | refl entries => exact le_max_left _ _
  | enter _ _ _ _ hcap _ ih =>
    rw [List.length_append, List.length_singleton] at ih
    omega

/-- The entries that were taken up are of recommendations. -/
lemma of_mem (h : Grows chars maxItems recs entries entries') {e : Row V} (he : e ∈ entries') :
    e ∈ entries ∨ ∃ rec n, recs rec ∧ Admitted chars rec ∧ e = registryEntry n rec := by
  induction h with
  | refl _ => exact .inl he
  | @enter _ _ rec n hrec hadmitted _ _ _ _ ih =>
    rcases ih he with hold | hnew
    · rcases List.mem_append.1 hold with hold | hlast
      · exact .inl hold
      · exact .inr ⟨rec, n, hrec, hadmitted, List.mem_singleton.1 hlast⟩
    · exact .inr hnew

end Grows

/-- The second entry has a key and a number of its own, above the number of the first. -/
def Above (chars : Characters) (e e' : Row V) : Prop :=
  keyOf chars e ≠ keyOf chars e' ∧
    ∃ n, indexOf e' = .number n ∧ ∀ m, indexOf e = .number m → m < n

/-- An entry that was taken up is above all entries before it. -/
lemma Grows.above (h : Grows chars maxItems recs entries entries') {i j : Nat} (hij : i < j)
    (hj : entries.length ≤ j) {e e' : Row V} (he : entries'[i]? = some e)
    (he' : entries'[j]? = some e') : Above chars e e' := by
  induction h with
  | refl entries =>
    rw [List.getElem?_eq_none hj] at he'
    cases he'
  | @enter entries entries' rec n _ _ hkey hindex _ hthen ih =>
    by_cases hlast : j = entries.length
    · subst hlast
      obtain ⟨more, rfl⟩ := hthen.isPrefix
      rw [List.append_assoc, List.getElem?_append_left hij] at he
      rw [List.append_assoc, List.getElem?_append_right (le_refl _), Nat.sub_self] at he'
      cases he'
      have hmem := List.mem_of_getElem? he
      exact ⟨by rw [keyOf_registryEntry]; exact hkey e hmem, n, indexOf_registryEntry,
        hindex e hmem⟩
    · exact ih (by rw [List.length_append, List.length_singleton]; omega) he he'

/-! ### The calls -/

lemma maxIndex_spec {m m' : Int} (h : maxIndex m entries = some m') :
    m ≤ m' ∧ ∀ e ∈ entries, ∀ k, indexOf e = .number k → k ≤ m' := by
  induction entries generalizing m with
  | nil =>
    cases h
    exact ⟨le_refl _, by simp⟩
  | cons e entries ih =>
    rw [maxIndex] at h
    cases hread : indexOf e with
    | number n =>
      rw [hread] at h
      obtain ⟨hm, hentries⟩ := ih h
      refine ⟨(le_max_left m n).trans hm, fun x hx k hk => ?_⟩
      rcases List.mem_cons.1 hx with rfl | hx
      · rw [hread] at hk
        cases hk
        exact (le_max_right m n).trans hm
      · exact hentries x hx k hk
    | ignored =>
      rw [hread] at h
      obtain ⟨hm, hentries⟩ := ih h
      refine ⟨hm, fun x hx k hk => ?_⟩
      rcases List.mem_cons.1 hx with rfl | hx
      · rw [hread] at hk
        cases hk
      · exact hentries x hx k hk
    | failed =>
      rw [hread] at h
      cases h

/-- The loop enters what it may. The keys of the entries have been seen, and no number is above
the largest. -/
lemma mergeRecommendations_grows {seen : List RegistryKey} {m : Int}
    {offered : List (Option (Row V))} (hoffered : ∀ rec, some rec ∈ offered → recs rec)
    (hseen : ∀ e ∈ entries, ∀ key, keyOf chars e = some key → key ∈ seen)
    (hmax : ∀ e ∈ entries, ∀ k, indexOf e = .number k → k ≤ m)
    (h : mergeRecommendations chars maxItems entries seen m offered = some entries') :
    Grows chars maxItems recs entries entries' := by
  induction offered generalizing entries seen m with
  | nil =>
    cases h
    exact .refl _
  | cons r offered ih =>
    have hlater := fun rec hrec => hoffered rec (List.mem_cons_of_mem r hrec)
    cases r with
    | none => exact ih hlater hseen hmax h
    | some rec =>
      rw [mergeRecommendations] at h
      split at h
      · cases h
      split at h
      · exact ih hlater hseen hmax h
      next hwithheld =>
      cases hkey : keyOf chars rec with
      | none =>
        rw [hkey] at h
        exact ih hlater hseen hmax h
      | some key =>
        rw [hkey] at h
        dsimp only at h
        split at h
        · exact ih hlater hseen hmax h
        next hnew =>
        split at h
        · cases h
          exact .refl _
        next hcap =>
        refine .enter (hoffered rec List.mem_cons_self)
          ⟨Bool.eq_false_iff.2 hwithheld, by rw [hkey]; simp⟩
          (fun e he heq => hnew (hseen e he key (heq.trans hkey)))
          (fun e he k hk => Int.lt_add_one_of_le (hmax e he k hk)) (not_le.1 hcap)
          (ih hlater ?_ ?_ h)
        · intro e he k hk
          rcases List.mem_append.1 he with he | he
          · exact List.mem_cons_of_mem key (hseen e he k hk)
          · rw [List.mem_singleton.1 he, keyOf_registryEntry, hkey] at hk
            cases hk
            exact List.mem_cons_self
        · intro e he k hk
          rcases List.mem_append.1 he with he | he
          · exact (hmax e he k hk).trans (Int.le_add_one (le_refl m))
          · rw [List.mem_singleton.1 he, indexOf_registryEntry] at hk
            cases hk
            exact le_refl _

lemma mergeCall_grows (existing offered : List (Option (Row V)))
    (hoffered : ∀ rec, some rec ∈ offered → recs rec) :
    Grows chars maxItems recs existing.reduceOption
      (mergeCall chars maxItems existing offered).reduceOption := by
  rw [mergeCall]
  cases hmerge : mergeRecommendedRegistry chars maxItems existing offered with
  | none => exact .refl _
  | some registry =>
    obtain ⟨m, hm, hloop⟩ := Option.bind_eq_some_iff.1 hmerge
    rw [Option.map_some, Option.getD_some, List.reduceOption, List.filterMap_map]
    simp only [Function.id_comp, List.filterMap_some]
    exact mergeRecommendations_grows hoffered
      (fun e he key hkey => List.mem_filterMap.2 ⟨e, he, hkey⟩) (maxIndex_spec hm).2 hloop

/-- The recommendations of some calls. -/
def Offered (calls : List (List (Option (Row V)))) (rec : Row V) : Prop :=
  ∃ recs ∈ calls, some rec ∈ recs

lemma registryAfter_grows (start : List (Option (Row V))) (calls more : List (List (Option (Row V)))) :
    Grows chars maxItems (Offered (calls ++ more)) (registryAfter chars maxItems start calls)
      (registryAfter chars maxItems start (calls ++ more)) := by
  induction more generalizing calls with
  | nil =>
    rw [List.append_nil]
    exact .refl _
  | cons recs more ih =>
    have hthen := ih (calls ++ [recs])
    rw [List.append_assoc, List.singleton_append] at hthen
    refine Grows.trans ?_ hthen
    rw [registryAfter, registryAfter, Runs.run_append, Runs.run_cons, Runs.run_nil]
    exact mergeCall_grows _ _ fun rec hrec => ⟨recs, by simp, hrec⟩

/-- An entry stays under its number; an entry that was taken up is of a recommendation that was not
withheld, and has a key that no other entry has and a number above those of all entries before it;
and there are no more entries than the cap allows, or than there were. -/
theorem registry_numbers_stay (chars : Characters) (maxItems : Int) (start : List (Option (Row V)))
    (calls more : List (List (Option (Row V)))) :
    registryAfter chars maxItems start calls <+:
        registryAfter chars maxItems start (calls ++ more) ∧
      (∀ i j e e', i < j → (registryAfter chars maxItems start []).length ≤ j →
        (registryAfter chars maxItems start calls)[i]? = some e →
        (registryAfter chars maxItems start calls)[j]? = some e' → Above chars e e') ∧
      (∀ e ∈ registryAfter chars maxItems start calls, e ∈ registryAfter chars maxItems start [] ∨
        ∃ rec n, Offered calls rec ∧ Admitted chars rec ∧ e = registryEntry n rec) ∧
      ((registryAfter chars maxItems start calls).length : Int) ≤
        max ((registryAfter chars maxItems start []).length : Int) maxItems := by
  have hgrown : Grows chars maxItems (Offered calls) (registryAfter chars maxItems start [])
      (registryAfter chars maxItems start calls) := registryAfter_grows start [] calls
  exact ⟨(registryAfter_grows start calls more).isPrefix,
    fun i j e e' hij hj he he' => hgrown.above hij hj he he',
    fun e he => hgrown.of_mem he, hgrown.length_le⟩

/-! ### A registry that is kept as it is -/

/-- The values of entries: texts that are no numerals, and numbers. -/
inductive EntryValue where
  | null
  | text (t : Text)
  | int (n : Int)
deriving DecidableEq

instance : RegistryValue EntryValue where
  truthy
    | .null => false
    | .text t => t ≠ []
    | .int n => n ≠ 0
  str
    | .null => "None"
    | .text t => t
    | .int n => Text.ofString (toString n)
  eq v w := v = w
  parsePrice _ := none
  namesStudio _ := false
  bedsNamed _ := none
  null := .null
  isNull v := v = .null
  ofText := .text
  text?
    | .text t => some t
    | _ => none
  ofInt := .int
  readInt
    | .int n => .number n
    | _ => .ignored
  hashable _ := true
  truthy_empty := rfl
  readInt_ofInt _ := rfl

def registeredFlat : Row EntryValue :=
  [(Text.ofString "index", .int 1),
   (Text.ofString "url", .text "https://www.onthemarket.com/details/17896574/")]

/-- Entries of one listing are not made one. -/
theorem registered_twice_stays :
    ¬ (registryAfter asciiCharacters 200 [some registeredFlat, some registeredFlat] [[]]).Pairwise
      fun e e' => keyOf asciiCharacters e ≠ keyOf asciiCharacters e' := by
  decide +kernel

end RentCompass.Web
