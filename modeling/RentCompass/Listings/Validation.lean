import RentCompass.Listings.Candidates

/-!
# The checks of a candidate

Each check finds reasons against a candidate, or reasons why it cannot be told. A candidate is
eligible where no check finds any.
-/

namespace RentCompass.Listings

/-! ### Findings -/

inductive Reason where
  /-- `alternative is outside the declared hard result set` -/
  | alternative
  /-- `price is not structured` -/
  | priceUnstructured
  /-- `monthly price … exceeds budget …` -/
  | priceExceeds (price budget : ℚ)
  /-- `monthly total cannot be verified without a structured rent` -/
  | totalWithoutRent
  /-- `monthly rent … alone exceeds total budget …` -/
  | rentExceeds (price total : ℚ)
  /-- `monthly travel cost is not verified for this listing, destination and attendance` -/
  | travelCostUnverified
  /-- `monthly rent and travel … exceeds total budget …` -/
  | totalExceeds (total budget : ℚ)
  /-- `bedroom count is not verified` -/
  | bedroomsUnverified
  /-- `bedroom count … does not equal requested …` -/
  | bedroomsDiffer (actual requested : ℚ)
  /-- `room type is not verified` -/
  | roomTypeUnverified
  /-- `room type does not match …` -/
  | roomTypeDiffers (wanted : List Text)
  /-- `area is not verified` -/
  | areaUnverified
  /-- `area … is outside the requested areas` -/
  | areaOutside (area : Text)
  /-- `property features are not structurally verified` -/
  | featuresUnstructured
  /-- `missing required features: …` -/
  | featuresMissing (features : List Text)
  /-- `required features are not verified: …` -/
  | featuresUnverified (features : List Text)
  /-- `availability is not verified` -/
  | availabilityUnverified
  /-- `available from …, after requested date` -/
  | availableAfter (date : Text)
  /-- A condition of the listing's own text. -/
  | condition (reason : Text)
  /-- `commute destination is not verified` -/
  | destinationUnverified
  /-- `commute evidence is missing` -/
  | commuteMissing
  /-- `commute tool …` -/
  | commuteTool (status : Text)
  /-- `commute result cannot be linked to this listing` -/
  | commuteUnlinked
  /-- `commute result has no measured duration` -/
  | commuteUnmeasured
  /-- `measured commute … min exceeds limit … min` -/
  | commuteExceeds (duration limit : ℚ)
  /-- `journey changes are not verified for this listing and destination` -/
  | changesUnverified
  /-- `journey changes … exceed limit …` -/
  | changesExceed (changes limit : Int)
  deriving DecidableEq

/-- `reasons` and `unknown_reasons` -/
structure Findings where
  reasons : List Reason
  unknownReasons : List Reason
  deriving DecidableEq

namespace Findings

def none : Findings := ⟨[], []⟩

def against (reason : Reason) : Findings := ⟨[reason], []⟩

def unclear (reason : Reason) : Findings := ⟨[], [reason]⟩

def append (f g : Findings) : Findings :=
  ⟨f.reasons ++ g.reasons, f.unknownReasons ++ g.unknownReasons⟩

instance : Append Findings := ⟨append⟩

end Findings

inductive CandidateStatus where
  | eligible
  | excluded
  | unknown
  deriving DecidableEq

/-- `"excluded" if reasons else "unknown" if unknown_reasons else "eligible"` -/
def Findings.status (f : Findings) : CandidateStatus :=
  if f.reasons ≠ [] then .excluded else if f.unknownReasons ≠ [] then .unknown else .eligible

variable (rules : TextRules)

/-! ### Identity -/

def Listing.anyUrl (l : Listing) : Scalar := l.url.or l.URL

def Listing.anyAddress (l : Listing) : Scalar := l.address.or l.Address

/-- `candidate_key` -/
def candidateKey (l : Listing) : Text :=
  let url := norm rules l.anyUrl
  if url ≠ [] then ("url:" : Text) ++ url.rdropWhile (· == 47)
  else
    let address := norm rules l.anyAddress
    if address ≠ [] then
      ("address:" : Text) ++ address ++ ("|price:" : Text) ++
        norm rules ((l.price.getD .null).or (l.Price.getD .null))
    else []

/-! ### Checks that read no evidence -/

/-- The price, where it is a sensible number. -/
def priceOf (l : Listing) : Option ℚ :=
  (number rules (l.price.getD (l.Price.getD .null))).filter (0 ≤ ·)

/-- `1e-9` -/
def tolerance : ℚ := 1 / 1000000000

def checkAlternative (l : Listing) : Findings :=
  if l.alternative.truthy ∨ l.matchType = "soft_violation" ∨ l.matchType = "similar_suggestion" then
    .against .alternative
  else .none

def checkBudget (l : Listing) (k : Constraints) : Findings :=
  match k.maxBudgetMonthly with
  | none => .none
  | some budget =>
    match priceOf rules l with
    | none => .unclear .priceUnstructured
    | some price => if price > budget + tolerance then .against (.priceExceeds price budget) else .none

/-- `_candidate_bedrooms` -/
def candidateBedrooms (l : Listing) : Option ℚ :=
  let raw := l.bedrooms.getD (l.Bedrooms.getD .null)
  let isStudio : Scalar → Bool := fun
    | .text t => rules.studio t
    | _ => false
  match number rules raw with
  | some q => some q
  | none =>
    if isStudio raw then some 0
    else if raw ∈ ([.null, "", "N/A", "n/a", "Unknown"] : List Scalar) ∧
        [l.propertyType, l.listingType, l.roomType, l.roomTypeCategory].any isStudio then some 0
    else none

def checkBedrooms (l : Listing) (k : Constraints) : Findings :=
  match k.bedrooms with
  | none => .none
  | some wanted =>
    match candidateBedrooms rules l with
    | none => .unclear .bedroomsUnverified
    | some actual =>
      if (if k.bedroomsMinimum then actual < wanted else actual ≠ wanted) then
        .against (.bedroomsDiffer actual wanted)
      else .none

def checkRoomType (l : Listing) (k : Constraints) : Findings :=
  match k.roomType with
  | none => .none
  | some roomType =>
    let actual := norm rules ((l.roomType.or l.propertyType).or l.listingType)
    if actual = [] then .unclear .roomTypeUnverified
    else
      let parts := rules.roomTypeParts roomType
      let wanted := if parts = [] then [roomType] else parts
      if wanted.any (rules.fitsRoomType l actual) then .none else .against (.roomTypeDiffers wanted)

def checkArea (l : Listing) (k : Constraints) : Findings :=
  if k.areas = [] then .none
  else
    let actual := norm rules (l.area.or l.Area)
    if actual = [] then .unclear .areaUnverified
    else if actual ∉ k.areas ∧ ¬ (Text.ofString "london" ∈ k.areas ∧ rules.isInLondon l actual) then
      .against (.areaOutside actual)
    else .none

def normSet (values : List Scalar) : List Text := (values.map (norm rules)).filter (· ≠ [])

/-- `_structured_features` -/
def structuredFeatures (l : Listing) : Option (List Text) :=
  (l.verifiedFeatures.or (l.features.or l.amenities)).map (normSet rules)

def checkFeatures (l : Listing) (k : Constraints) : Findings :=
  let requested := k.propertyFeatures.filter fun f => f ∉ billsFeatures && !isGardenWord rules f
  if requested = [] then .none
  else
    match structuredFeatures rules l with
    | none => .unclear .featuresUnstructured
    | some available =>
      let missing := requested.filter (· ∉ available)
      let unverified := normSet rules (l.unverifiedFeatures.getD [])
      let explicitAbsent := normSet rules (l.absentFeatures.getD [])
      let triState := l.absentFeatures.isSome && l.unverifiedFeatures.isSome
      let isUnknown : Text → Bool := fun f =>
        if triState then f ∉ explicitAbsent else f ∈ unverified
      let absent := missing.filter fun f => !isUnknown f
      let unknown := missing.filter isUnknown
      ⟨if absent = [] then [] else [.featuresMissing absent],
        if unknown = [] then [] else [.featuresUnverified unknown]⟩

def availableNow : Text := "available_now"

/-- `_iso_date` -/
def isoDate (v : Scalar) : Option Text :=
  let text := Text.strip (textOf rules v)
  let isDigit : Nat → Bool := fun c => (rules.digit c).isSome
  if rules.lower text ∈ (["available now", "now", "immediately"] : List Text) then some availableNow
  else
    match text with
    | [a, b, c, d, 45, e, f, 45, g, h] =>
      if [a, b, c, d, e, f, g, h].all isDigit then some text else none
    | _ => none

def checkMoveIn (l : Listing) (k : Constraints) : Findings :=
  if k.moveInDate = .null then .none
  else
    match isoDate rules l.availableFrom, isoDate rules k.moveInDate with
    | some available, some requested =>
      if available ≠ availableNow ∧ requested < available then .against (.availableAfter available)
      else .none
    | _, _ => .unclear .availabilityUnverified

/-- One row of `check_listing_conditions`. -/
def addCondition (f : Findings) (row : Condition) : Findings :=
  match row.status with
  | .met => f
  | .notMet => if .condition row.reason ∈ f.reasons then f else f ++ .against (.condition row.reason)
  | .unknown =>
    if .condition row.reason ∈ f.unknownReasons then f else f ++ .unclear (.condition row.reason)

def checkConditions (l : Listing) (explanation : Option Text) (k : Constraints) : Findings :=
  (rules.listingConditions l explanation k).foldl addCondition .none

def checkDestination (k : Constraints) : Findings :=
  if k.maxCommuteMinutes ≠ none ∧ k.noCommute = false ∧ k.commuteDestination.all (· = []) then
    .unclear .destinationUnverified
  else .none

/-! ### Evidence -/

/-- `_evidence_status` -/
def evidenceStatus (entry : Option Entry) : Text :=
  match entry with
  | none => "missing"
  | some e =>
    let status := rules.lower (textOf rules e.evidenceStatus)
    if status ≠ [] then status
    else if e.timedOut.truthy ∨ e.timeout.truthy then "timeout"
    else if e.success = .bool false then "failed"
    else if e.success = .bool true then "success" else "missing"

/-- The entry is taken for the listing: by its key, or by its origin. -/
def takenFor (l : Listing) (e : Entry) : Bool :=
  e.candidateKey = .text (candidateKey rules l) ||
    (e.fromAddress.truthy && norm rules e.fromAddress = norm rules l.anyAddress)

/-- `_evidence_for` -/
def evidenceFor (l : Listing) (evidence : List Entry) : Option Entry :=
  evidence.find? (takenFor rules l)

/-- `is_measured` -/
def isMeasured (basis : Scalar) : Bool :=
  let source := rules.lower (Text.strip (textOf rules basis))
  source ∉ (["estimate", "estimated", "straight_line_estimate"] : List Text) &&
    (["tfl", "journey planner", "journeyplanner"] : List Text).any fun token => contains token source

/-- `_measured_minutes`, for this value of `duration_minutes`. -/
def measuredMinutes (raw : Route) (duration : Scalar) : Option ℚ :=
  let basis := (raw.basis.or raw.routeSource).or raw.source
  if basis.truthy ∧ ¬ isMeasured rules basis then none
  else duration.value?.filter (0 ≤ ·)

/-- `entry.get("duration_minutes", raw.get("duration_minutes"))` -/
def Entry.duration (e : Entry) : Scalar := e.durationMinutes.getD (e.raw.durationMinutes.getD .null)

/-- The places of an entry that state its origin. -/
def Entry.origins (e : Entry) : List Scalar :=
  [e.fromAddress, (e.rawData.getD {}).fromAddress].filter (·.truthy)

/-- The places of an entry that state its destination. -/
def Entry.destinations (e : Entry) : List Scalar :=
  [e.toAddress, (e.rawData.getD {}).toAddress].filter (·.truthy)

/-- `_norm(constraints.get('commute_destination'))` -/
def destinationOf (k : Constraints) : Text := norm rules (.text (k.commuteDestination.getD []))

/-- `_route_scope_matches` -/
def routeScopeMatches (l : Listing) (k : Constraints) (e : Entry) : Bool :=
  let origin := norm rules l.anyAddress
  let destination := destinationOf rules k
  e.candidateKey = .text (candidateKey rules l) && origin ≠ [] && destination ≠ [] &&
    e.origins ≠ [] && e.destinations ≠ [] && e.origins.all (norm rules · = origin) &&
    e.destinations.all (norm rules · = destination)

/-- `changes_count`, where it is a count. -/
def Route.changes (raw : Route) : Option Int :=
  match raw.changesCount with
  | .int n => if 0 ≤ n then some n else none
  | _ => none

/-- The flags that void an entry. -/
def Entry.voided (e : Entry) : Bool :=
  e.timedOut.truthy || e.denied.truthy || e.abandoned.truthy || e.outcomeUnknown.truthy

/-- A value that is kept if it says something. -/
def kept (v : Scalar) : Scalar := if v.truthy then v else .null

/-- `_stored_route_evidence` -/
def storedRouteEvidence (l : Listing) (k : Constraints) (e : Entry) : Option Entry :=
  if ¬ routeScopeMatches rules l k e ∨ e.success ≠ .bool true ∨
      evidenceStatus rules (some e) ≠ "success" ∨ e.voided ∨ e.raw.success = .bool false then none
  else
    match measuredMinutes rules e.raw e.duration with
    | none => none
    | some duration =>
      let returned := e.raw.durationMinutes.getD .null
      if returned ≠ .null ∧ measuredMinutes rules e.raw returned ≠ some duration then none
      else
        let origin := Scalar.text (Text.strip (textOf rules l.anyAddress))
        let destination := Scalar.text (k.commuteDestination.getD [])
        let facts : Route :=
          { fromAddress := origin, toAddress := destination, durationMinutes := some (.float duration)
            basis := kept e.raw.basis, routeSource := kept e.raw.routeSource
            source := kept e.raw.source
            changesCount := (e.raw.changes.map Scalar.int).getD .null }
        some
          { candidateKey := .text (candidateKey rules l), fromAddress := origin
            toAddress := destination, success := .bool true, evidenceStatus := "success"
            durationMinutes := some (.float duration), rawData := some facts }

end RentCompass.Listings
