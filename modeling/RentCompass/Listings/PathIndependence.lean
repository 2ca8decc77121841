import RentCompass.Listings.EvidenceBinding

/-!
# Re-validating a panel step by step

A step keeps the stored route of a row only where its criteria need it. So a row comes back to its
earlier status after a detour if the criteria on the way keep the route, and may not otherwise.
-/

namespace RentCompass.Listings

variable {rules : TextRules} {l : Listing} {k k' : Constraints} {e p : Entry} {d : ℚ}

/-! ### Stored routes -/

lemma norm_strip (v : Scalar) : norm rules (.text (Text.strip (textOf rules v))) = norm rules v := by
  simp [norm, textOf]

lemma norm_null : norm rules .null = [] := by
  have hnil : rules.lower [] = [] := rules.lower_ascii [] (by simp)
  simp [norm, textOf, Text.strip, Text.lstrip, Text.rstrip, hnil, Text.split, Text.joinSpace]

lemma truthy_of_norm_ne_nil (rules : TextRules) {v : Scalar} (h : norm rules v ≠ []) : v.truthy := by
  by_contra hv
  have htext : textOf rules v = textOf rules .null := by
    cases v with
    | null => rfl
    | bool b => cases b <;> simp_all [Scalar.truthy, textOf]
    | int n => simp_all [Scalar.truthy, textOf]
    | float q => simp_all [Scalar.truthy, textOf]
    | text t => simp_all [Scalar.truthy, textOf]
  refine h ?_
  rw [norm, htext]
  exact norm_null

/-- What an entry proves by itself: a success that was measured. -/
def provenMinutes (rules : TextRules) (e : Entry) : Option ℚ :=
  if e.success ≠ .bool true ∨ evidenceStatus rules (some e) ≠ "success" ∨ e.voided ∨
      e.raw.success = .bool false then none
  else
    (measuredMinutes rules e.raw e.duration).filter fun duration =>
      e.raw.durationMinutes.getD .null = .null ||
        measuredMinutes rules e.raw (e.raw.durationMinutes.getD .null) = some duration

/-- The facts that are stored of a route. -/
def routeFacts (rules : TextRules) (l : Listing) (k : Constraints) (e : Entry) (duration : ℚ) :
    Route where
  fromAddress := .text (Text.strip (textOf rules l.anyAddress))
  toAddress := .text (k.commuteDestination.getD [])
  durationMinutes := some (.float duration)
  basis := kept e.raw.basis
  routeSource := kept e.raw.routeSource
  source := kept e.raw.source
  changesCount := (e.raw.changes.map Scalar.int).getD .null

/-- The record that is stored of a route. -/
def routeRecord (rules : TextRules) (l : Listing) (k : Constraints) (e : Entry) (duration : ℚ) :
    Entry where
  candidateKey := .text (candidateKey rules l)
  fromAddress := .text (Text.strip (textOf rules l.anyAddress))
  toAddress := .text (k.commuteDestination.getD [])
  success := .bool true
  evidenceStatus := "success"
  durationMinutes := some (.float duration)
  rawData := some (routeFacts rules l k e duration)

@[simp] lemma raw_routeRecord : (routeRecord rules l k e d).raw = routeFacts rules l k e d := rfl

lemma storedRouteEvidence_eq (l : Listing) (k : Constraints) (e : Entry) :
    storedRouteEvidence rules l k e =
      if routeScopeMatches rules l k e then (provenMinutes rules e).map (routeRecord rules l k e)
      else none := by
  unfold storedRouteEvidence provenMinutes
  by_cases hscope : routeScopeMatches rules l k e
  · rw [if_pos hscope]
    simp only [hscope, not_true_eq_false, false_or]
    split_ifs with hrejected
    · rfl
    · cases measuredMinutes rules e.raw e.duration with
      | none => rfl
      | some duration =>
        dsimp only
        rw [Option.filter_some]
        by_cases hreturned : e.raw.durationMinutes.getD .null = .null ∨
            measuredMinutes rules e.raw (e.raw.durationMinutes.getD .null) = some duration
        · rw [if_neg (by tauto), if_pos (by simpa using hreturned)]
          rfl
        · rw [if_pos (by tauto), if_neg (by simpa using hreturned)]
          rfl
  · rw [if_neg hscope, if_pos (.inl hscope)]

/-! ### What a stored route proves -/

lemma kept_of_truthy {v : Scalar} (h : v.truthy) : kept v = v := if_pos h

lemma kept_of_not_truthy {v : Scalar} (h : ¬ v.truthy) : kept v = .null := if_neg h

lemma not_truthy_null : ¬ Scalar.null.truthy := Bool.false_ne_true

@[simp] lemma kept_kept (v : Scalar) : kept (kept v) = kept v := by
  by_cases hv : v.truthy
  · rw [kept_of_truthy hv, kept_of_truthy hv]
  · rw [kept_of_not_truthy hv]
    rfl

lemma truthy_kept (v : Scalar) : (kept v).truthy = v.truthy := by
  by_cases hv : v.truthy
  · rw [kept_of_truthy hv]
  · rw [kept_of_not_truthy hv, Bool.eq_false_of_not_eq_true hv]
    rfl

lemma kept_or (v w : Scalar) : (kept v).or (kept w) = kept (v.or w) := by
  by_cases hv : v.truthy
  · have hor : ∀ w, v.or w = v := fun w => if_pos hv
    rw [kept_of_truthy hv, hor, hor, kept_of_truthy hv]
  · have hor : v.or w = w := if_neg hv
    have hnull : Scalar.null.or (kept w) = kept w := if_neg not_truthy_null
    rw [kept_of_not_truthy hv, hor, hnull]

/-- The facts have the basis of the route they are made of. -/
lemma measuredMinutes_routeFacts (duration : Scalar) :
    measuredMinutes rules (routeFacts rules l k e d) duration =
      measuredMinutes rules e.raw duration := by
  unfold measuredMinutes routeFacts
  dsimp only
  rw [kept_or, kept_or]
  by_cases hbasis : ((e.raw.basis.or e.raw.routeSource).or e.raw.source).truthy
  · rw [kept_of_truthy hbasis]
  · have hkept : ¬ (kept ((e.raw.basis.or e.raw.routeSource).or e.raw.source)).truthy := by
      rwa [truthy_kept]
    rw [if_neg (fun h => hkept h.1), if_neg (fun h => hbasis h.1)]

@[simp] lemma changes_routeFacts : (routeFacts rules l k e d).changes = e.raw.changes := by
  have hcount : (routeFacts rules l k e d).changesCount =
      (e.raw.changes.map Scalar.int).getD .null := rfl
  cases hchanges : e.raw.changes with
  | none =>
    rw [hchanges] at hcount
    rw [Route.changes, hcount]
    rfl
  | some n =>
    have hn : 0 ≤ n := by
      unfold Route.changes at hchanges
      split at hchanges
      · split_ifs at hchanges with hn
        cases hchanges
        exact hn
      · cases hchanges
    rw [hchanges] at hcount
    rw [Route.changes, hcount]
    exact if_pos hn

lemma lower_success : rules.lower ("success" : Text) = ("success" : Text) :=
  rules.lower_ascii _ (by decide)

@[simp] lemma evidenceStatus_routeRecord :
    evidenceStatus rules (some (routeRecord rules l k e d)) = "success" := by
  have hne : ("success" : Text) ≠ [] := by decide
  simp [evidenceStatus, routeRecord, textOf, lower_success, hne]

lemma measuredMinutes_float {raw : Route} {v : Scalar} (h : measuredMinutes rules raw v = some d) :
    measuredMinutes rules raw (.float d) = some d := by
  unfold measuredMinutes at h ⊢
  dsimp only at h ⊢
  split_ifs at h ⊢
  rw [Option.filter_eq_some_iff] at h ⊢
  exact ⟨rfl, h.2⟩

lemma measured_of_provenMinutes (h : provenMinutes rules e = some d) :
    measuredMinutes rules e.raw e.duration = some d := by
  unfold provenMinutes at h
  split_ifs at h
  exact (Option.filter_eq_some_iff.1 h).1

/-- A record proves what the route it is made of proves. -/
lemma provenMinutes_routeRecord (h : provenMinutes rules e = some d) :
    provenMinutes rules (routeRecord rules l k e d) = some d := by
  have hmeasured := measuredMinutes_float (measured_of_provenMinutes h)
  have hduration : (routeRecord rules l k e d).duration = .float d := rfl
  have hreturned : (routeFacts rules l k e d).durationMinutes.getD .null = .float d := rfl
  have hvoided : ¬ (routeRecord rules l k e d).voided := Bool.false_ne_true
  unfold provenMinutes
  rw [evidenceStatus_routeRecord, raw_routeRecord, if_neg, hduration, hreturned,
    measuredMinutes_routeFacts, hmeasured, Option.filter_some]
  · simp
  · rintro (hsuccess | hstatus | hflags | hraw)
    · exact hsuccess rfl
    · exact hstatus rfl
    · exact hvoided hflags
    · cases hraw

@[simp] lemma routeRecord_routeRecord :
    routeRecord rules l k' (routeRecord rules l k e d) d = routeRecord rules l k' e d := by
  have hfacts : routeFacts rules l k' (routeRecord rules l k e d) d = routeFacts rules l k' e d := by
    unfold routeFacts
    rw [raw_routeRecord, changes_routeFacts]
    simp [routeFacts]
  unfold routeRecord at hfacts ⊢
  rw [hfacts]

/-- The scope of a route that matches. -/
structure Scope (rules : TextRules) (l : Listing) (k : Constraints) (e : Entry) : Prop where
  key : e.candidateKey = .text (candidateKey rules l)
  origin : norm rules l.anyAddress ≠ []
  destination : destinationOf rules k ≠ []
  origins : e.origins ≠ [] ∧ ∀ v ∈ e.origins, norm rules v = norm rules l.anyAddress
  destinations : e.destinations ≠ [] ∧ FitsDestination rules k e

lemma routeScopeMatches_iff : routeScopeMatches rules l k e ↔ Scope rules l k e := by
  simp only [routeScopeMatches, Bool.and_eq_true, decide_eq_true_eq, List.all_eq_true]
  constructor
  · rintro ⟨⟨⟨⟨⟨⟨hkey, horigin⟩, hdestination⟩, horigins⟩, hdestinations⟩, hall⟩, hall'⟩
    exact ⟨hkey, horigin, hdestination, ⟨horigins, hall⟩, hdestinations, hall'⟩
  · rintro ⟨hkey, horigin, hdestination, ⟨horigins, hall⟩, hdestinations, hall'⟩
    exact ⟨⟨⟨⟨⟨⟨hkey, horigin⟩, hdestination⟩, horigins⟩, hdestinations⟩, hall⟩, hall'⟩

/-- Routes to one destination are in the scope of no other. -/
lemma Scope.destination_eq (h : Scope rules l k e) (h' : Scope rules l k' e) :
    destinationOf rules k' = destinationOf rules k := by
  obtain ⟨v, hv⟩ := List.exists_mem_of_ne_nil _ h.destinations.1
  rw [← h.destinations.2 v hv, h'.destinations.2 v hv]

lemma Scope.congr (h : Scope rules l k e)
    (hdestination : destinationOf rules k' = destinationOf rules k) : Scope rules l k' e :=
  ⟨h.key, h.origin, hdestination ▸ h.destination, h.origins, h.destinations.1, fun v hv =>
    hdestination ▸ h.destinations.2 v hv⟩

/-- A record is in the scope it was stored for. -/
lemma Scope.routeRecord (h : Scope rules l k e) : Scope rules l k (routeRecord rules l k e d) := by
  have horigin : (Scalar.text (Text.strip (textOf rules l.anyAddress))).truthy :=
    truthy_of_norm_ne_nil rules (by rw [norm_strip]; exact h.origin)
  have hdestination : (Scalar.text (k.commuteDestination.getD [])).truthy :=
    truthy_of_norm_ne_nil rules h.destination
  have horigins : (Listings.routeRecord rules l k e d).origins =
      [.text (Text.strip (textOf rules l.anyAddress)),
        .text (Text.strip (textOf rules l.anyAddress))] := by
    simp [Entry.origins, Listings.routeRecord, routeFacts, horigin]
  have hdestinations : (Listings.routeRecord rules l k e d).destinations =
      [.text (k.commuteDestination.getD []), .text (k.commuteDestination.getD [])] := by
    simp [Entry.destinations, Listings.routeRecord, routeFacts, hdestination]
  refine ⟨rfl, h.origin, h.destination, ⟨by simp [horigins], ?_⟩, by simp [hdestinations], ?_⟩
  · intro v hv
    rw [horigins] at hv
    have hv : v = .text (Text.strip (textOf rules l.anyAddress)) := by simpa using hv
    rw [hv, norm_strip]
  · intro v hv
    rw [hdestinations] at hv
    have hv : v = .text (k.commuteDestination.getD []) := by simpa using hv
    rw [hv]
    rfl

lemma storedRouteEvidence_eq_some :
    storedRouteEvidence rules l k e = some p ↔ Scope rules l k e ∧
      ∃ d, provenMinutes rules e = some d ∧ p = routeRecord rules l k e d := by
  rw [storedRouteEvidence_eq]
  by_cases hscope : routeScopeMatches rules l k e
  · rw [if_pos hscope, Option.map_eq_some_iff]
    simp only [routeScopeMatches_iff.1 hscope, true_and, eq_comm]
  · rw [if_neg hscope]
    simp [mt routeScopeMatches_iff.2 hscope]

/-- Storing a route loses nothing of what it proves. -/
lemma storedRouteEvidence_of_stored (h : storedRouteEvidence rules l k e = some p) :
    storedRouteEvidence rules l k' p = storedRouteEvidence rules l k' e := by
  obtain ⟨hscope, d, hproven, rfl⟩ := storedRouteEvidence_eq_some.1 h
  refine Option.ext fun q => ?_
  rw [storedRouteEvidence_eq_some, storedRouteEvidence_eq_some,
    provenMinutes_routeRecord hproven, hproven]
  simp only [Option.some.injEq, exists_eq_left', routeRecord_routeRecord]
  refine and_congr_left fun _ => ⟨fun h' => ?_, fun h' => ?_⟩
  · exact hscope.congr (hscope.routeRecord.destination_eq h')
  · exact hscope.routeRecord.congr (hscope.destination_eq h')

/-! ### One step -/

variable {row : Row}

/-- The stored route, for these constraints. -/
def proofOf (rules : TextRules) (k : Constraints) (row : Row) : Option Entry :=
  row.verifiedCommuteEvidence.bind (storedRouteEvidence rules row.listing k)

/-- What validation says of the row now. -/
def validated (rules : TextRules) (k : Constraints) (row : Row) : Status :=
  validateCandidate rules k (proofOf rules k row).toList none row

/-- The figures of the row may stay on display. -/
def Shown (rules : TextRules) (k : Constraints) (row : Row) : Prop :=
  k.requiresCommute → row.verifiedCommuteMinutes.isSome ∧
    ¬ (row.candidateUnknownReasons.getD ((row.qualification.map (·.unknownReasons)).getD [])).any
      (·.mentionsCommute rules)

lemma withdrawUnverified_of_shown (h : Shown rules k row) : withdrawUnverified rules k row = row := by
  unfold withdrawUnverified
  dsimp only
  rw [if_pos]
  cases hrequired : k.requiresCommute with
  | false => rfl
  | true => simpa using h hrequired

lemma withdrawUnverified_of_not_shown (h : ¬ Shown rules k row) :
    (withdrawUnverified rules k row).verifiedCommuteEvidence = none ∧
      (withdrawUnverified rules k row).verifiedCommuteMinutes = none ∧
      (withdrawUnverified rules k row).explanation = row.explanation.map rules.withdrawRoutes := by
  unfold withdrawUnverified
  dsimp only
  rw [if_neg]
  · exact ⟨rfl, rfl, rfl⟩
  · intro hshown
    refine h fun hrequired => ?_
    rw [hrequired] at hshown
    simpa using hshown

section Frame

variable (rules k row)

@[simp] lemma listing_withdrawUnverified : (withdrawUnverified rules k row).listing = row.listing := by
  unfold withdrawUnverified
  dsimp only
  split_ifs <;> rfl

@[simp] lemma qualification_withdrawUnverified :
    (withdrawUnverified rules k row).qualification = row.qualification := by
  unfold withdrawUnverified
  dsimp only
  split_ifs <;> rfl

@[simp] lemma unknownReasons_withdrawUnverified :
    (withdrawUnverified rules k row).candidateUnknownReasons = row.candidateUnknownReasons := by
  unfold withdrawUnverified
  dsimp only
  split_ifs <;> rfl

end Frame

/-- An explanation with its route notes withdrawn, some number of times. -/
def Withdrawn (rules : TextRules) (explanation explanation' : Option Text) : Prop :=
  ∃ m, explanation' = explanation.map rules.withdrawRoutes^[m]

lemma Withdrawn.refl (explanation : Option Text) : Withdrawn rules explanation explanation :=
  ⟨0, by simp⟩

lemma Withdrawn.trans {x y z : Option Text} (h : Withdrawn rules x y) (h' : Withdrawn rules y z) :
    Withdrawn rules x z := by
  obtain ⟨m, rfl⟩ := h
  obtain ⟨n, rfl⟩ := h'
  exact ⟨n + m, by rw [Option.map_map, Function.iterate_add]⟩

lemma withdrawn_withdrawUnverified (rules : TextRules) (k : Constraints) (row : Row) :
    Withdrawn rules row.explanation (withdrawUnverified rules k row).explanation := by
  by_cases h : Shown rules k row
  · rw [withdrawUnverified_of_shown h]
    exact .refl _
  · rw [(withdrawUnverified_of_not_shown h).2.2]
    exact ⟨1, by simp⟩

/-- The stored route is withdrawn, or it stays. -/
lemma evidence_withdrawUnverified (rules : TextRules) (k : Constraints) (row : Row) :
    (withdrawUnverified rules k row).verifiedCommuteEvidence = none ∨
      (withdrawUnverified rules k row).verifiedCommuteEvidence = row.verifiedCommuteEvidence := by
  by_cases h : Shown rules k row
  · rw [withdrawUnverified_of_shown h]
    exact .inr rfl
  · exact .inl (withdrawUnverified_of_not_shown h).1

/-! ### The commute of a stored route -/

lemma proofOf_eq_some : proofOf rules k row = some p ↔
    ∃ e, row.verifiedCommuteEvidence = some e ∧
      storedRouteEvidence rules row.listing k e = some p := by
  rw [proofOf, Option.bind_eq_some_iff]

lemma evidenceFor_proof (h : storedRouteEvidence rules l k e = some p) :
    evidenceFor rules l [p] = some p := by
  obtain ⟨hscope, d, -, rfl⟩ := storedRouteEvidence_eq_some.1 h
  refine evidenceFor_eq_some.2 ⟨?_, [], [], rfl, by simp⟩
  simp [takenFor, routeRecord]

lemma evidenceFor_proofOf (k : Constraints) (row : Row) :
    evidenceFor rules row.listing (proofOf rules k row).toList = proofOf rules k row := by
  cases hproof : proofOf rules k row with
  | none => rfl
  | some p =>
    obtain ⟨e, -, he⟩ := proofOf_eq_some.1 hproof
    exact evidenceFor_proof he

/-- A stored route is measured and stored again. -/
lemma checkCommute_proof (h : storedRouteEvidence rules l k e = some p) :
    (checkCommute rules l k (some p)).proof = some p ∧
      (checkCommute rules l k (some p)).minutes.isSome := by
  have hagain : storedRouteEvidence rules l k p = some p :=
    (storedRouteEvidence_of_stored h).trans h
  obtain ⟨hscope, d, hproven, rfl⟩ := storedRouteEvidence_eq_some.1 h
  have hlinked : ¬ isUnlinked rules l k (routeFacts rules l k e d) := by
    have hdestination : norm rules (.text (k.commuteDestination.getD [])) = destinationOf rules k :=
      rfl
    simp [isUnlinked, routeFacts, norm_strip, hdestination]
  have hcounted : countedMinutes rules l k (routeRecord rules l k e d) = some d := by
    unfold countedMinutes
    rw [if_neg, measured_of_provenMinutes (provenMinutes_routeRecord hproven)]
    rintro (hstatus | hunlinked | hraw)
    · exact hstatus evidenceStatus_routeRecord
    · exact hlinked hunlinked
    · cases hraw
  unfold checkCommute
  dsimp only
  rw [raw_routeRecord, if_neg (not_not.2 evidenceStatus_routeRecord), if_neg hlinked, hcounted]
  exact ⟨hagain, rfl⟩

/-- The row that a validation with the stored route makes, before it withdraws figures. -/
lemma exists_candidate (rules : TextRules) (k : Constraints) (row : Row) :
    ∃ c : Row, (validated rules k row).candidate = withdrawUnverified rules k c ∧
      c.listing = row.listing ∧ c.explanation = row.explanation ∧
      c.verifiedCommuteEvidence = (if k.requiresCommute then proofOf rules k row else none) ∧
      c.verifiedCommuteMinutes.isSome = (k.requiresCommute && (proofOf rules k row).isSome) ∧
      c.candidateUnknownReasons = some (validated rules k row).findings.unknownReasons := by
  unfold validated validateCandidate
  dsimp only
  refine ⟨_, rfl, rfl, rfl, ?_, ?_, rfl⟩
  · rw [evidenceFor_proofOf]
    split_ifs with hrequired
    · cases hproof : proofOf rules k row with
      | none => rfl
      | some p =>
        obtain ⟨e, -, he⟩ := proofOf_eq_some.1 hproof
        exact (checkCommute_proof he).1
    · rfl
  · rw [evidenceFor_proofOf]
    split_ifs with hrequired
    · rw [hrequired]
      cases hproof : proofOf rules k row with
      | none => rfl
      | some p =>
        obtain ⟨e, -, he⟩ := proofOf_eq_some.1 hproof
        exact (checkCommute_proof he).2
    · simp [hrequired]

/-- The criteria of the step keep the stored route on the row. -/
def Keeps (rules : TextRules) (k : Constraints) (row : Row) : Prop :=
  if row.label = some k then Shown rules k row
  else k.requiresCommute ∧ (proofOf rules k row).isSome ∧
    ¬ (validated rules k row).findings.unknownReasons.any (·.mentionsCommute rules)

/-- A step that skips the row. -/
lemma revalidateRow_of_label (h : row.label = some k) :
    revalidateRow rules k [] row = withdrawUnverified rules k row := if_pos h

/-- A step that validates the row. -/
lemma revalidateRow_of_not_label (h : row.label ≠ some k) :
    revalidateRow rules k [] row =
      withdrawUnverified rules k ((validated rules k row).labelled k) := if_neg h

lemma label_revalidateRow (k : Constraints) (row : Row) :
    (revalidateRow rules k [] row).label = some k := by
  by_cases h : row.label = some k
  · rw [revalidateRow_of_label h, Row.label, qualification_withdrawUnverified]
    exact h
  · rw [revalidateRow_of_not_label h, Row.label, qualification_withdrawUnverified]
    rfl

lemma status_of_label (h : row.label = some k) :
    (revalidateRow rules k [] row).status = row.status := by
  rw [revalidateRow_of_label h, Row.status, qualification_withdrawUnverified, Row.status]

lemma status_of_not_label (h : row.label ≠ some k) :
    (revalidateRow rules k [] row).status = some (validated rules k row).status := by
  rw [revalidateRow_of_not_label h, Row.status, qualification_withdrawUnverified]
  rfl

@[simp] lemma listing_revalidateRow (k : Constraints) (row : Row) :
    (revalidateRow rules k [] row).listing = row.listing := by
  by_cases h : row.label = some k
  · rw [revalidateRow_of_label h, listing_withdrawUnverified]
  · obtain ⟨c, hc, hlisting, -⟩ := exists_candidate rules k row
    rw [revalidateRow_of_not_label h, listing_withdrawUnverified]
    change (validated rules k row).candidate.listing = row.listing
    rw [hc, listing_withdrawUnverified, hlisting]

lemma withdrawn_revalidateRow (rules : TextRules) (k : Constraints) (row : Row) :
    Withdrawn rules row.explanation (revalidateRow rules k [] row).explanation := by
  by_cases h : row.label = some k
  · rw [revalidateRow_of_label h]
    exact withdrawn_withdrawUnverified rules k row
  · obtain ⟨c, hc, -, hexplanation, -⟩ := exists_candidate rules k row
    have hlabelled : ((validated rules k row).labelled k).explanation =
        (withdrawUnverified rules k c).explanation := by rw [← hc]; rfl
    have hfirst := withdrawn_withdrawUnverified rules k c
    rw [hexplanation, ← hlabelled] at hfirst
    rw [revalidateRow_of_not_label h]
    exact hfirst.trans (withdrawn_withdrawUnverified rules k _)

/-- What a route proves that was stored again, or not at all. -/
lemma bind_stored (k k' : Constraints) (row : Row) :
    (proofOf rules k row).bind (storedRouteEvidence rules row.listing k') = none ∨
      (proofOf rules k row).bind (storedRouteEvidence rules row.listing k') = proofOf rules k' row := by
  cases hproof : proofOf rules k row with
  | none => exact .inl rfl
  | some p =>
    obtain ⟨e, he, hstored⟩ := proofOf_eq_some.1 hproof
    refine .inr ?_
    rw [Option.bind_some, storedRouteEvidence_of_stored hstored, proofOf, he, Option.bind_some]

/-- A step makes up no route: it loses the stored one, or leaves it as it is. -/
lemma proofOf_revalidateRow (rules : TextRules) (k k' : Constraints) (row : Row) :
    proofOf rules k' (revalidateRow rules k [] row) = none ∨
      proofOf rules k' (revalidateRow rules k [] row) = proofOf rules k' row := by
  rw [proofOf, listing_revalidateRow]
  by_cases h : row.label = some k
  · rw [revalidateRow_of_label h]
    rcases evidence_withdrawUnverified rules k row with hnone | hsame
    · exact .inl (by rw [hnone]; rfl)
    · exact .inr (by rw [hsame]; rfl)
  · obtain ⟨c, hc, -, -, hevidence, -⟩ := exists_candidate rules k row
    have hlabelled : ((validated rules k row).labelled k).verifiedCommuteEvidence =
        (withdrawUnverified rules k c).verifiedCommuteEvidence := by rw [← hc]; rfl
    rw [revalidateRow_of_not_label h]
    rcases evidence_withdrawUnverified rules k ((validated rules k row).labelled k) with
      hnone | hsame
    · exact .inl (by rw [hnone]; rfl)
    · rw [hsame, hlabelled]
      rcases evidence_withdrawUnverified rules k c with hnone | hsame
      · exact .inl (by rw [hnone]; rfl)
      · rw [hsame, hevidence]
        split_ifs
        · exact bind_stored k k' row
        · exact .inl rfl

lemma proofOf_of_keeps (h : Keeps rules k row) (k' : Constraints) :
    proofOf rules k' (revalidateRow rules k [] row) = proofOf rules k' row := by
  rw [Keeps] at h
  split_ifs at h with hlabel
  · rw [revalidateRow_of_label hlabel, withdrawUnverified_of_shown h]
  · obtain ⟨hrequired, hproof, hmention⟩ := h
    obtain ⟨c, hc, -, -, hevidence, hminutes, hunknown⟩ := exists_candidate rules k row
    rw [hrequired, hproof] at hminutes
    have hshown : Shown rules k c := by
      refine fun _ => ⟨hminutes, ?_⟩
      rwa [hunknown, Option.getD_some]
    rw [withdrawUnverified_of_shown hshown] at hc
    have hlabelled : Shown rules k ((validated rules k row).labelled k) := by
      refine fun _ => ⟨?_, ?_⟩
      · change (validated rules k row).candidate.verifiedCommuteMinutes.isSome
        rw [hc]
        exact hminutes
      · change ¬ ((validated rules k row).candidate.candidateUnknownReasons.getD _).any _
        rwa [hc, hunknown, Option.getD_some]
    have hstored : (revalidateRow rules k [] row).verifiedCommuteEvidence = proofOf rules k row := by
      rw [revalidateRow_of_not_label hlabel, withdrawUnverified_of_shown hlabelled]
      change (validated rules k row).candidate.verifiedCommuteEvidence = _
      rw [hc, hevidence, if_pos hrequired]
    obtain ⟨p, hp⟩ := Option.isSome_iff_exists.1 hproof
    obtain ⟨e, he, hroute⟩ := proofOf_eq_some.1 hp
    rw [proofOf, listing_revalidateRow, hstored, hp, Option.bind_some,
      storedRouteEvidence_of_stored hroute, proofOf, he, Option.bind_some]

/-! ### What a status depends on -/

/-- The criteria look at the commute evidence. -/
def Constraints.readsCommute (k : Constraints) : Prop :=
  k.requiresCommute ∨ (k.maxChanges.isSome ∧ k.noCommute = false)

lemma isCost_of_stored (h : storedRouteEvidence rules l k e = some p) : p.isCost = false := by
  obtain ⟨-, d, -, rfl⟩ := storedRouteEvidence_eq_some.1 h
  rfl

/-- A stored route says nothing of a monthly cost. -/
lemma checkTotal_proof (k k' : Constraints) (row : Row) :
    checkTotal rules row.listing k' (proofOf rules k row).toList =
      checkTotal rules row.listing k' [] := by
  have hfilter : (proofOf rules k row).toList.filter (costMatches rules row.listing k') = [] := by
    rw [List.filter_eq_nil_iff]
    intro p hp
    obtain ⟨e, -, he⟩ := proofOf_eq_some.1 (by simpa using hp)
    simp [costMatches, isCost_of_stored he]
  have hmonthly : monthlyTransportEvidence rules row.listing k' (proofOf rules k row).toList =
      monthlyTransportEvidence rules row.listing k' [] := by
    unfold monthlyTransportEvidence
    rw [hfilter, List.filter_nil]
  unfold checkTotal
  rw [hmonthly]

/-- The findings of a validation with the stored route. -/
lemma status_validated (k : Constraints) (row : Row) :
    (validated rules k row).status = (findingsBy rules k [] row (proofOf rules k row)).status := by
  rw [validated, status_validateCandidate, evidenceFor_proofOf]
  unfold findingsBy
  rw [Option.getD_none, checkTotal_proof]

lemma findingsBy_of_not_reads (h : ¬ k.readsCommute) (evidence : List Entry) (row : Row)
    (entry entry' : Option Entry) :
    findingsBy rules k evidence row entry = findingsBy rules k evidence row entry' := by
  rw [Constraints.readsCommute, not_or] at h
  have hchanges : ∀ entry, checkChanges rules row.listing k entry = .none := by
    intro entry
    unfold checkChanges
    cases hmax : k.maxChanges with
    | none => rfl
    | some limit =>
      dsimp only
      rw [if_pos]
      by_contra hno
      exact h.2 ⟨by simp [hmax], by simpa using hno⟩
  unfold findingsBy
  rw [if_neg h.1, if_neg h.1, hchanges, hchanges]

/-- The texts of the listing meet the same conditions with this explanation. -/
def SameConditions (rules : TextRules) (k : Constraints) (row : Row) (explanation : Option Text) :
    Prop :=
  rules.listingConditions row.listing explanation k =
    rules.listingConditions row.listing row.explanation k

/-- Two states of a row are validated alike, if what the criteria look at is the same. -/
lemma status_validated_congr {row' : Row} (hlisting : row'.listing = row.listing)
    (hconditions : SameConditions rules k row row'.explanation)
    (hproof : k.readsCommute → proofOf rules k row' = proofOf rules k row) :
    (validated rules k row').status = (validated rules k row).status := by
  have hother : ∀ entry, findingsBy rules k [] row' entry = findingsBy rules k [] row entry := by
    intro entry
    unfold findingsBy otherFindings checkConditions
    rw [hlisting, hconditions]
  rw [status_validated, status_validated, hother]
  by_cases hreads : k.readsCommute
  · rw [hproof hreads]
  · rw [findingsBy_of_not_reads hreads]

/-! ### Runs -/

/-- What a step has to leave as it is, for the criteria that come later: the label it replaces is
one that validation gives, the stored route is kept where they use it, and the conditions do not
hang on the route notes of the explanation. -/
structure StepMeets (rules : TextRules) (k : Constraints) (later : List Constraints) (row : Row) :
    Prop where
  label : ∀ k' ∈ later, k' ≠ k → row.label = some k' →
    row.status = some (validated rules k' row).status
  route : ∀ k' ∈ later, k' ≠ k → k'.readsCommute → (proofOf rules k' row).isSome →
    Keeps rules k row
  conditions : ∀ k' ∈ later, k' ≠ k → ∀ m,
    SameConditions rules k' row (row.explanation.map rules.withdrawRoutes^[m])

/-- The row after the steps of a run. -/
def runRow (rules : TextRules) (run : List Constraints) (row : Row) : Row :=
  run.foldl (fun row k => revalidateRow rules k [] row) row

/-- Every step of the run meets the condition, in the state it finds. -/
def RunMeets (rules : TextRules) : List Constraints → Row → Prop
  | [], _ => True
  | k :: later, row =>
    StepMeets rules k later row ∧ RunMeets rules later (revalidateRow rules k [] row)

/-- A step that meets the condition leaves the row such that the later criteria find what they
would have found before it. -/
lemma status_revalidateRow_revalidateRow {later : List Constraints}
    (h : StepMeets rules k later row) (hk : k' ∈ later) :
    (revalidateRow rules k' [] (revalidateRow rules k [] row)).status =
      (revalidateRow rules k' [] row).status := by
  by_cases heq : k' = k
  · subst heq
    exact status_of_label (label_revalidateRow k' row)
  · have hlabel : (revalidateRow rules k [] row).label ≠ some k' := by
      rw [label_revalidateRow]
      exact fun hsame => heq (Option.some.inj hsame).symm
    have hvalidated : (validated rules k' (revalidateRow rules k [] row)).status =
        (validated rules k' row).status := by
      obtain ⟨m, hm⟩ := withdrawn_revalidateRow rules k row
      refine status_validated_congr (listing_revalidateRow k row)
        (hm ▸ h.conditions k' hk heq m) fun hreads => ?_
      rcases proofOf_revalidateRow rules k k' row with hnone | hsame
      · cases hproof : proofOf rules k' row with
        | none => exact hnone
        | some p =>
          rw [← hproof]
          exact proofOf_of_keeps (h.route k' hk heq hreads (by simp [hproof])) k'
      · exact hsame
    rw [status_of_not_label hlabel, hvalidated]
    by_cases hold : row.label = some k'
    · rw [status_of_label hold, h.label k' hk heq hold]
    · rw [status_of_not_label hold]

/-- A run that meets the condition ends in the status its last step gives by itself. -/
lemma status_runRow {before after : List Constraints}
    (h : RunMeets rules (before ++ k :: after) row) :
    (runRow rules (before ++ [k]) row).status = (revalidateRow rules k [] row).status := by
  induction before generalizing row with
  | nil => rfl
  | cons b before ih =>
    obtain ⟨hstep, hrest⟩ := h
    have hrun : runRow rules (b :: before ++ [k]) row =
        runRow rules (before ++ [k]) (revalidateRow rules b [] row) := rfl
    rw [hrun, ih hrest]
    exact status_revalidateRow_revalidateRow hstep (by simp)

/-- The panel after the steps of a run, with no new evidence. -/
def panelRun (rules : TextRules) (run : List Criteria) (rows : List Row) : List Row :=
  run.foldl (fun rows criteria => revalidateViewResults rules criteria [] rows) rows

lemma revalidateViewResults_perm (rules : TextRules) (criteria : Criteria) (rows : List Row) :
    (revalidateViewResults rules criteria [] rows).Perm
      (rows.map (revalidateRow rules (hardConstraints rules criteria) [])) := by
  have hsplit := List.filter_append_perm (fun row : Row => decide (row.status ≠ some .excluded))
    (rows.map (revalidateRow rules (hardConstraints rules criteria) []))
  simpa [revalidateViewResults] using hsplit

/-- The rows of the panel are the rows after their own runs; only their order changes. -/
lemma panelRun_perm (run : List Criteria) (rows : List Row) :
    (panelRun rules run rows).Perm
      (rows.map (runRow rules (run.map (hardConstraints rules)))) := by
  induction run generalizing rows with
  | nil =>
    have hid : runRow rules [] = id := rfl
    simp [panelRun, hid]
  | cons criteria run ih =>
    have hfirst := (revalidateViewResults_perm rules criteria rows).map
      (runRow rules (run.map (hardConstraints rules)))
    rw [List.map_map] at hfirst
    exact (ih _).trans hfirst

/-- A row of the panel with the route that was measured for it. -/
def routedRow : Row :=
  let route : Entry :=
    { candidateKey := "url:a", fromAddress := "1 mill lane", toAddress := "ucl"
      success := .bool true, evidenceStatus := "success", durationMinutes := some (.int 20)
      rawData := some { fromAddress := "1 mill lane", toAddress := "ucl"
                        durationMinutes := some (.int 20) } }
  { flatRow "a" with verifiedCommuteMinutes := some 20, verifiedCommuteEvidence := some route }

/-- A quarter of an hour instead of half an hour. -/
def quarterHourCriteria : Criteria := { halfHourCriteria with maxCommuteTime := some (.int 15) }

/-- No limit for the commute. -/
def anyCommuteCriteria : Criteria := { halfHourCriteria with maxCommuteTime := none }

instance (k : Constraints) (row : Row) : Decidable (Shown rules k row) :=
  inferInstanceAs (Decidable (_ → _))

instance (k : Constraints) (row : Row) : Decidable (Keeps rules k row) :=
  inferInstanceAs (Decidable (ite _ _ _))

instance (k : Constraints) : Decidable k.readsCommute := inferInstanceAs (Decidable (_ ∨ _))

end RentCompass.Listings
