import RentCompass.Listings.Verdict

/-!
# Evidence bound to its listing

The entry that is found first decides, and it is found by its key or by its origin. So an entry of
another listing at the same address decides too, and so does an old success before a later failure.
-/

namespace RentCompass.Listings

variable (rules : TextRules)

/-! ### What evidence has to be -/

/-- The entry has the key of another listing. -/
def KeyedElsewhere (l : Listing) (e : Entry) : Prop :=
  e.candidateKey.truthy ∧ e.candidateKey ≠ .text (candidateKey rules l)

instance (l : Listing) (e : Entry) : Decidable (KeyedElsewhere rules l e) :=
  inferInstanceAs (Decidable (_ ∧ _))

/-- The entry is the listing's: by its key, or by its origin when it has no key. -/
def BoundTo (l : Listing) (e : Entry) : Prop :=
  if e.candidateKey.truthy then e.candidateKey = .text (candidateKey rules l)
  else e.origins ≠ [] ∧ ∀ v ∈ e.origins, norm rules v = norm rules l.anyAddress

instance (l : Listing) (e : Entry) : Decidable (BoundTo rules l e) :=
  inferInstanceAs (Decidable (ite _ _ _))

/-- The entry states no other destination. -/
def FitsDestination (k : Constraints) (e : Entry) : Prop :=
  ∀ v ∈ e.destinations, norm rules v = destinationOf rules k

instance (k : Constraints) (e : Entry) : Decidable (FitsDestination rules k e) :=
  inferInstanceAs (Decidable (∀ v ∈ e.destinations, _))

def Failed (e : Entry) : Prop :=
  evidenceStatus rules (some e) ≠ "success" ∨ e.raw.success = .bool false

instance (e : Entry) : Decidable (Failed rules e) := inferInstanceAs (Decidable (_ ∨ _))

/-- A later entry about the same listing and the same destination failed. -/
def FailsLater (l : Listing) (k : Constraints) (after : List Entry) : Prop :=
  ∃ e ∈ after, BoundTo rules l e ∧ FitsDestination rules k e ∧ Failed rules e

/-- The duration was measured and is within the limit. -/
def WithinLimit (k : Constraints) (e : Entry) : Prop :=
  ∃ d, measuredMinutes rules e.raw e.duration = some d ∧ ∀ limit ∈ k.maxCommuteMinutes, d ≤ limit

/-- A success for this listing and this destination, within the limit, that no later entry
takes back. -/
def Supported (l : Listing) (k : Constraints) (evidence : List Entry) : Prop :=
  ∃ before e after, evidence = before ++ e :: after ∧ BoundTo rules l e ∧ e.destinations ≠ [] ∧
    FitsDestination rules k e ∧ ¬ Failed rules e ∧ WithinLimit rules k e ∧
    ¬ FailsLater rules l k after

/-- The entries without those of other listings. -/
def ownEvidence (l : Listing) (evidence : List Entry) : List Entry :=
  evidence.filter fun e => ¬ KeyedElsewhere rules l e

/-- Eligibility rests on evidence for this listing and this destination, and the status on no
entry of another listing. -/
def EvidenceBound (k : Constraints) (evidence : List Entry)
    (transportCostEvidence : Option (List Entry)) (row : Row) : Prop :=
  (k.requiresCommute → (validateCandidate rules k evidence transportCostEvidence row).status =
    .eligible → Supported rules row.listing k evidence) ∧
  (validateCandidate rules k evidence transportCostEvidence row).status =
    (validateCandidate rules k (ownEvidence rules row.listing evidence)
      (transportCostEvidence.map (ownEvidence rules row.listing)) row).status

/-! ### When it is -/

/-- The findings by an entry, the other evidence given. -/
def findingsBy (k : Constraints) (costEvidence : List Entry) (row : Row) (entry : Option Entry) :
    Findings :=
  otherFindings rules row.listing row.explanation k (checkTotal rules row.listing k costEvidence) ++
    (if k.requiresCommute then (checkCommute rules row.listing k entry).findings else .none) ++
    checkChanges rules row.listing k entry

/-- The entry found first is not this listing's, states no destination or another one, or is taken
back by a later one. -/
def Misbound (l : Listing) (k : Constraints) (evidence : List Entry) (e : Entry) : Prop :=
  ¬ BoundTo rules l e ∨ e.destinations = [] ∨ ¬ FitsDestination rules k e ∨
    ∃ before after, evidence = before ++ e :: after ∧ (∀ d ∈ before, ¬ takenFor rules l d) ∧
      FailsLater rules l k after

/-- Where the entry found first clears the candidate though it is misbound, other entries support
it; where it is another listing's, the entry found without it leads to the same status. -/
structure WellFound (k : Constraints) (evidence : List Entry)
    (transportCostEvidence : Option (List Entry)) (row : Row) : Prop where
  supported : k.requiresCommute → ∀ e, evidenceFor rules row.listing evidence = some e →
    Misbound rules row.listing k evidence e →
    findingsBy rules k (transportCostEvidence.getD evidence) row (some e) = .none →
    Supported rules row.listing k evidence
  own : ∀ e, evidenceFor rules row.listing evidence = some e →
    KeyedElsewhere rules row.listing e →
    (findingsBy rules k (transportCostEvidence.getD evidence) row (some e)).status =
      (findingsBy rules k (transportCostEvidence.getD evidence) row
        (evidenceFor rules row.listing (ownEvidence rules row.listing evidence))).status

/-! ### Findings -/

namespace Findings

variable {f g : Findings}

@[simp] lemma append_reasons : (f ++ g).reasons = f.reasons ++ g.reasons := rfl

@[simp] lemma append_unknownReasons :
    (f ++ g).unknownReasons = f.unknownReasons ++ g.unknownReasons := rfl

lemma eq_none_iff : f = none ↔ f.reasons = [] ∧ f.unknownReasons = [] := by
  obtain ⟨reasons, unknownReasons⟩ := f
  simp [none]

lemma status_eligible_iff : f.status = .eligible ↔ f = none := by
  rw [eq_none_iff, status]
  split_ifs with hreasons hunknown
  · simp [hreasons]
  · simp [hunknown]
  · simpa using ⟨not_not.1 hreasons, not_not.1 hunknown⟩

lemma append_eq_none_iff : f ++ g = none ↔ f = none ∧ g = none := by
  simp only [eq_none_iff, append_reasons, append_unknownReasons, List.append_eq_nil_iff]
  exact and_and_and_comm

end Findings

lemma status_validateCandidate (k : Constraints) (evidence : List Entry)
    (transportCostEvidence : Option (List Entry)) (row : Row) :
    (validateCandidate rules k evidence transportCostEvidence row).status =
      (findingsBy rules k (transportCostEvidence.getD evidence) row
        (evidenceFor rules row.listing evidence)).status := by
  unfold validateCandidate findingsBy
  dsimp only
  split_ifs <;> rfl

/-! ### The entry that is found -/

variable {rules} {l : Listing} {k : Constraints} {evidence : List Entry} {e : Entry}

/-- An entry that clears the commute is a success within the limit. -/
lemma clears_of_checkCommute (h : (checkCommute rules l k (some e)).findings = .none) :
    ¬ Failed rules e ∧ ¬ isUnlinked rules l k e.raw ∧ WithinLimit rules k e := by
  unfold checkCommute at h
  dsimp only at h
  split_ifs at h with hstatus hunlinked
  · simp [Findings.unclear, Findings.none] at h
  · simp [Findings.unclear, Findings.none] at h
  · cases hcounted : countedMinutes rules l k e with
    | none =>
      rw [hcounted] at h
      simp [Findings.unclear, Findings.none] at h
    | some d =>
      rw [hcounted] at h
      unfold countedMinutes at hcounted
      split_ifs at hcounted with hrejected
      simp only [not_or] at hrejected
      refine ⟨?_, hunlinked, d, hcounted, ?_⟩
      · rw [Failed, not_or]
        exact ⟨hrejected.1, hrejected.2.2⟩
      · intro limit hlimit
        dsimp only at h
        split_ifs at h with hexceeds
        · simp [Findings.against, Findings.none] at h
        · rw [Option.mem_def.1 hlimit] at hexceeds
          simpa using hexceeds

/-- The first entry of the list that is taken for the listing. -/
lemma evidenceFor_eq_some :
    evidenceFor rules l evidence = some e ↔ takenFor rules l e ∧
      ∃ before after, evidence = before ++ e :: after ∧ ∀ d ∈ before, ¬ takenFor rules l d := by
  rw [evidenceFor, List.find?_eq_some_iff_append]
  simp

lemma evidenceFor_own_of_not_elsewhere (h : evidenceFor rules l evidence = some e)
    (he : ¬ KeyedElsewhere rules l e) :
    evidenceFor rules l (ownEvidence rules l evidence) = some e := by
  obtain ⟨htaken, before, after, rfl, hbefore⟩ := evidenceFor_eq_some.1 h
  refine evidenceFor_eq_some.2 ⟨htaken, ownEvidence rules l before, ownEvidence rules l after, ?_,
    fun d hd => hbefore d (List.mem_filter.1 hd).1⟩
  simp [ownEvidence, he]

lemma evidenceFor_own_of_none (h : evidenceFor rules l evidence = none) :
    evidenceFor rules l (ownEvidence rules l evidence) = none := by
  rw [evidenceFor, List.find?_eq_none] at h ⊢
  exact fun d hd => h d (List.mem_filter.1 hd).1

/-- Entries of other listings say nothing of the monthly cost. -/
lemma checkTotal_ownEvidence (evidence : List Entry) :
    checkTotal rules l k (ownEvidence rules l evidence) = checkTotal rules l k evidence := by
  have hown : ∀ e, costMatches rules l k e → ¬ KeyedElsewhere rules l e := by
    intro e he helse
    simp only [costMatches, Bool.and_eq_true, Bool.or_eq_true, Bool.not_eq_true',
      decide_eq_true_eq] at he
    rcases he.1.1.1.2 with hkey | hkey
    · rw [helse.1] at hkey
      cases hkey
    · exact helse.2 hkey
  have hfilter : (ownEvidence rules l evidence).filter (costMatches rules l k) =
      evidence.filter (costMatches rules l k) := by
    rw [ownEvidence, List.filter_filter]
    refine List.filter_congr fun e _ => ?_
    cases hcost : costMatches rules l k e with
    | false => rfl
    | true => simpa using hown e hcost
  have hmonthly : monthlyTransportEvidence rules l k (ownEvidence rules l evidence) =
      monthlyTransportEvidence rules l k evidence := by
    unfold monthlyTransportEvidence
    rw [hfilter]
  unfold checkTotal
  rw [hmonthly]

lemma findingsBy_ownEvidence (transportCostEvidence : Option (List Entry)) (row : Row)
    (entry : Option Entry) :
    findingsBy rules k ((transportCostEvidence.map (ownEvidence rules row.listing)).getD
        (ownEvidence rules row.listing evidence)) row entry =
      findingsBy rules k (transportCostEvidence.getD evidence) row entry := by
  unfold findingsBy
  cases transportCostEvidence with
  | none => simp only [Option.map_none, Option.getD_none, checkTotal_ownEvidence]
  | some costs => simp only [Option.map_some, Option.getD_some, checkTotal_ownEvidence]

/-! ### Eligibility -/

/-- A flat of a house; another one has another page. -/
def flatRow (url : Text) : Row where
  listing := { url := .text url, address := "1 mill lane", price := some (.int 900) }

/-- At most half an hour to the university. -/
def halfHourCriteria : Criteria where
  maxCommuteTime := some (.int 30)
  commuteDestination := "ucl"

/-- Twenty minutes from the first flat, and no answer for the second one. -/
def millLaneEvidence : List Entry :=
  [{ candidateKey := "url:a", fromAddress := "1 mill lane", toAddress := "ucl"
     success := .bool true, evidenceStatus := "success", durationMinutes := some (.int 20) },
    { candidateKey := "url:b", fromAddress := "1 mill lane", toAddress := "ucl"
      success := .bool false, evidenceStatus := "timeout" }]

end RentCompass.Listings
