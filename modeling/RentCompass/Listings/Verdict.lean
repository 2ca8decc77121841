import RentCompass.Listings.Validation

/-!
# The verdict on a candidate

The checks that read evidence, the classification of a row, and the re-validation of the rows of a
panel when the criteria change.
-/

namespace RentCompass.Listings

variable (rules : TextRules)

/-! ### Monthly cost -/

/-- The entry says something of a monthly cost. -/
def Entry.isCost (e : Entry) : Bool :=
  e.tool = "calculate_commute_cost" || e.raw.transportCost.isSome || e.raw.monthlyCost.isSome

/-- The entry is about this listing and this destination. -/
def costMatches (l : Listing) (k : Constraints) (e : Entry) : Bool :=
  let returnedFrom := norm rules (e.raw.fromAddress.or e.fromAddress)
  let own := e.candidateKey = .text (candidateKey rules l)
  e.isCost && (!e.candidateKey.truthy || own) &&
    (returnedFrom = [] || returnedFrom = norm rules l.anyAddress) &&
    (returnedFrom ≠ [] || (e.candidateKey.truthy && own)) &&
    norm rules (e.raw.toAddress.or e.toAddress) = destinationOf rules k

/-- `transport_cost`, where it is a record, or `raw_data` itself. -/
def Route.cost (raw : Route) : Cost :=
  match raw.transportCost with
  | some (some cost) => cost
  | _ => raw.toCost

/-- The basis says that the cost is no more than a bound. -/
def isBound (basis : Text) : Bool :=
  (["cap", "estimate", "approx", "封顶", "上界", "估算"] : List Text).any (contains · basis) ||
    (basis.any fun c => c ≠ 10 && contains (("upper" : Text) ++ c :: ("bound" : Text)) basis)

/-- What the last matching entry says of the cost. -/
def entryCost (frequency : ℚ) (e : Entry) : Option ℚ × Text :=
  let cost := e.raw.cost
  let frequencies := [e.officeDaysPerWeek, e.raw.officeDaysPerWeek, cost.officeDaysPerWeek].filter
    (· ≠ .null)
  let basis := norm rules cost.monthlyCostBasis
  if evidenceStatus rules (some e) ≠ "success" ∨ e.raw.success = .bool false ∨ e.voided then
    (none, "failed")
  else if frequencies = [] ∨ ¬ frequencies.all fun v => v.value?.any fun q =>
      |q - frequency| ≤ tolerance then (none, "stale_frequency")
  else if cost.error.truthy ∨ cost.coverageVerified ≠ .bool true then (none, "unverified_coverage")
  else if cost.monthlyCostIsUpperBound = .bool true ∨ isBound basis ∨
      (cost.paygEstimateKind = "daily_cap_upper_bound" ∧
        basis ∉ (["monthly travelcard", "monthly pass"] : List Text)) then (none, "upper_bound")
  else
    match (cost.monthlyCost.getD .null).value?.filter (0 ≤ ·) with
    | none => (none, "missing_amount")
    | some q => (some q, "success")

/-- `_monthly_transport_evidence` -/
def monthlyTransportEvidence (l : Listing) (k : Constraints) (evidence : List Entry) :
    Option ℚ × Text :=
  match k.officeDaysPerWeek with
  | none => (none, "missing_plan")
  | some frequency =>
    if destinationOf rules k = [] then (none, "missing_plan")
    else
      match (evidence.filter (costMatches rules l k)).getLast? with
      | none => (none, "missing")
      | some e => entryCost rules frequency e

/-- `round(amount, 2)` -/
def roundCents (amount : ℚ) : ℚ :=
  let n := (amount * 100).floor
  let rest := amount * 100 - n
  if rest < 1 / 2 ∨ (rest = 1 / 2 ∧ n % 2 = 0) then n / 100 else (n + 1) / 100

structure TotalCheck where
  findings : Findings
  status : Text := "not_required"
  transportCost : Option ℚ := none
  totalCost : Option ℚ := none

/-- The rent and the commute together. -/
def checkTotal (l : Listing) (k : Constraints) (evidence : List Entry) : TotalCheck :=
  match k.monthlyTotalBudget with
  | none => { findings := .none }
  | some budget =>
    match priceOf rules l with
    | none => { findings := .unclear .totalWithoutRent, status := "missing_rent" }
    | some price =>
      if price > budget + tolerance then
        { findings := .against (.rentExceeds price budget), status := "rent_exceeds_total" }
      else
        match monthlyTransportEvidence rules l k evidence with
        | (none, status) => { findings := .unclear .travelCostUnverified, status := status }
        | (some travel, status) =>
          let total := roundCents (price + travel)
          { findings := if total > budget + tolerance then .against (.totalExceeds total budget)
              else .none
            status := status, transportCost := some travel, totalCost := some total }

/-! ### Commute -/

structure CommuteCheck where
  findings : Findings
  evidenceStatus : Text
  minutes : Option ℚ := none
  proof : Option Entry := none

/-- The result names another origin or another destination. -/
def isUnlinked (l : Listing) (k : Constraints) (raw : Route) : Bool :=
  (raw.fromAddress.truthy && norm rules raw.fromAddress ≠ norm rules l.anyAddress) ||
    (raw.toAddress.truthy && norm rules raw.toAddress ≠ destinationOf rules k)

/-- The duration that counts: that of a success that can be linked and was measured. -/
def countedMinutes (l : Listing) (k : Constraints) (e : Entry) : Option ℚ :=
  if evidenceStatus rules (some e) ≠ "success" ∨ isUnlinked rules l k e.raw ∨
      e.raw.success = .bool false then none
  else measuredMinutes rules e.raw e.duration

/-- The commute, by the entry that was found. -/
def checkCommute (l : Listing) (k : Constraints) (entry : Option Entry) : CommuteCheck :=
  match entry with
  | none => { findings := .unclear .commuteMissing, evidenceStatus := "missing" }
  | some e =>
    let status := evidenceStatus rules (some e)
    if status ≠ "success" then
      { findings := .unclear (.commuteTool status), evidenceStatus := status }
    else if isUnlinked rules l k e.raw then
      { findings := .unclear .commuteUnlinked, evidenceStatus := "unlinked" }
    else
      match countedMinutes rules l k e with
      | none => { findings := .unclear .commuteUnmeasured, evidenceStatus := "insufficient" }
      | some duration =>
        { findings := if k.maxCommuteMinutes.any (· < duration) then
              .against (.commuteExceeds duration (k.maxCommuteMinutes.getD 0))
            else .none
          evidenceStatus := status, minutes := some duration
          proof := storedRouteEvidence rules l k e }

/-- The changes of the journey, by the entry that was found. -/
def checkChanges (l : Listing) (k : Constraints) (entry : Option Entry) : Findings :=
  match k.maxChanges with
  | none => .none
  | some limit =>
    if k.noCommute then .none
    else
      let raw : Route := (entry.map Entry.raw).getD {}
      let linked := evidenceStatus rules entry = "success" && raw.success ≠ .bool false &&
        norm rules raw.fromAddress = norm rules l.anyAddress &&
        norm rules raw.toAddress = destinationOf rules k
      match raw.changes with
      | some changes =>
        if ¬ linked then .unclear .changesUnverified
        else if changes > limit then .against (.changesExceed changes limit) else .none
      | none => .unclear .changesUnverified

/-! ### Rows -/

structure Qualification where
  status : CandidateStatus
  reasons : List Reason
  unknownReasons : List Reason
  constraints : Option Constraints

/-- A row of the panel. -/
structure Row where
  listing : Listing
  explanation : Option Text := none
  travelTime : Scalar := .null
  verifiedCommuteMinutes : Option ℚ := none
  verifiedCommuteEvidence : Option Entry := none
  verifiedMonthlyTransportCost : Option ℚ := none
  verifiedMonthlyTotalCost : Option ℚ := none
  candidateStatus : Option CandidateStatus := none
  candidateReasons : Option (List Reason) := none
  candidateUnknownReasons : Option (List Reason) := none
  qualification : Option Qualification := none

/-- `'commute' in str(reason).lower()`, of a reason that something cannot be told. -/
def Reason.mentionsCommute : Reason → Bool
  | .destinationUnverified | .commuteMissing | .commuteTool _ | .commuteUnlinked
  | .commuteUnmeasured | .commuteExceeds _ _ => true
  | .condition reason => contains "commute" (rules.lower reason)
  | .featuresUnverified features | .featuresMissing features | .roomTypeDiffers features =>
    features.any fun f => contains "commute" (rules.lower f)
  | .areaOutside area => contains "commute" (rules.lower area)
  | _ => false

def notVerifiedNote : Text := "Commute not verified for current criteria"

/-- `_withdraw_unverified_commute_display` -/
def withdrawUnverified (k : Constraints) (row : Row) : Row :=
  let unknown := row.candidateUnknownReasons.getD
    ((row.qualification.map (·.unknownReasons)).getD [])
  let unverified := unknown.any (·.mentionsCommute rules)
  if !k.requiresCommute || (row.verifiedCommuteMinutes.isSome && !unverified) then row
  else
    let previous := textOf rules row.travelTime
    { row with
      verifiedCommuteMinutes := none
      verifiedCommuteEvidence := none
      travelTime := if previous ≠ [] ∧ ¬ rules.tentative previous then .text notVerifiedNote
        else row.travelTime
      explanation := row.explanation.map rules.withdrawRoutes }

/-! ### Validation -/

/-- The findings of the checks that do not read the commute evidence. -/
def otherFindings (l : Listing) (explanation : Option Text) (k : Constraints)
    (total : TotalCheck) : Findings :=
  checkAlternative l ++ checkBudget rules l k ++ total.findings ++ checkBedrooms rules l k ++
    checkRoomType rules l k ++ checkArea rules l k ++ checkFeatures rules l k ++
    checkMoveIn rules l k ++ checkConditions rules l explanation k ++ checkDestination k

/-- One of the `statuses`. -/
structure Status where
  candidate : Row
  candidateKey : Text
  status : CandidateStatus
  findings : Findings
  evidenceStatus : Text
  transportCostEvidenceStatus : Text

/-- The body of the loop of `validate_candidates`. -/
def validateCandidate (k : Constraints) (commuteEvidence : List Entry)
    (transportCostEvidence : Option (List Entry)) (row : Row) : Status :=
  let l := row.listing
  let total := checkTotal rules l k (transportCostEvidence.getD commuteEvidence)
  let entry := evidenceFor rules l commuteEvidence
  let commute := if k.requiresCommute then checkCommute rules l k entry
    else { findings := .none, evidenceStatus := "not_required" }
  let findings := otherFindings rules l row.explanation k total ++ commute.findings ++
    checkChanges rules l k entry
  let candidate : Row :=
    { row with
      verifiedCommuteMinutes := commute.minutes
      verifiedCommuteEvidence := commute.proof
      verifiedMonthlyTransportCost := total.transportCost
      verifiedMonthlyTotalCost := total.totalCost
      candidateStatus := some findings.status
      candidateReasons := some findings.reasons
      candidateUnknownReasons := some findings.unknownReasons }
  { candidate := withdrawUnverified rules k candidate
    candidateKey := candidateKey rules l
    status := findings.status
    findings := findings
    evidenceStatus := commute.evidenceStatus
    transportCostEvidenceStatus := total.status }

/-- `validate_candidates`: the `statuses`. -/
def validateCandidates (candidates : List Row) (criteria : Criteria)
    (commuteEvidence : List Entry) (transportCostEvidence : Option (List Entry)) : List Status :=
  candidates.map (validateCandidate rules (hardConstraints rules criteria) commuteEvidence
    transportCostEvidence)

/-! ### Re-validation -/

/-- The route a row is re-validated with: the last new one, or the stored one. -/
def proofFor (k : Constraints) (commuteEvidence : List Entry) (row : Row) : Option Entry :=
  (commuteEvidence.filter (routeScopeMatches rules row.listing k)).getLast?.or
    (row.verifiedCommuteEvidence.bind (storedRouteEvidence rules row.listing k))

/-- The constraints the row's label is for. -/
def Row.label (row : Row) : Option Constraints := row.qualification.bind (·.constraints)

/-- The candidate with the label of its validation. -/
def Status.labelled (k : Constraints) (status : Status) : Row :=
  let qualification : Qualification :=
    { status := status.status, reasons := status.findings.reasons
      unknownReasons := status.findings.unknownReasons, constraints := some k }
  { status.candidate with qualification := some qualification }

/-- One turn of the loop of `revalidate_view_results`. -/
def revalidateRow (k : Constraints) (commuteEvidence : List Entry) (row : Row) : Row :=
  if row.label = some k then withdrawUnverified rules k row
  else
    let status := validateCandidate rules k (proofFor rules k commuteEvidence row).toList none row
    withdrawUnverified rules k (status.labelled k)

/-- The status of the row's qualification. -/
def Row.status (row : Row) : Option CandidateStatus := row.qualification.map (·.status)

/-- `revalidate_view_results`: rows that are excluded come last. -/
def revalidateViewResults (criteria : Criteria) (commuteEvidence : List Entry) (rows : List Row) :
    List Row :=
  let result := rows.map (revalidateRow rules (hardConstraints rules criteria) commuteEvidence)
  result.filter (·.status ≠ some .excluded) ++ result.filter (·.status = some .excluded)

/-- The rules as they are for texts in lower case that name no conditions. -/
def lowerCaseRules : TextRules where
  lower t := t
  lower_ascii _ _ := rfl
  digit c := if 48 ≤ c ∧ c ≤ 57 then some (c - 48) else none
  str _ := []
  studio := contains "studio"
  garden _ := none
  roomTypeParts _ := []
  fitsRoomType _ actual part := contains part actual
  isInLondon _ _ := false
  listingConditions _ _ _ := []
  withdrawRoutes t := t
  tentative := contains "estimat"

end RentCompass.Listings
