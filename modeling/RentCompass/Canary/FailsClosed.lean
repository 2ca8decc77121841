import RentCompass.Canary.Report

/-!
# The canary verdict fails closed

What the passing exit code shows of the records a report is about, and what an offending line that
is added to a stream does to it. The records of other rollouts are not counted when one is named,
but the latest of them still is the time the window ends at.
-/

namespace RentCompass.Canary

variable {py : Python}

/-! ### What a conforming record states -/

/-- The field is a counter. -/
def IsCount (v : Option Value) : Prop := ∃ n : Int, 0 ≤ n ∧ v = some (.int n)

lemma exists_of_check_count {name : Text} {v : Value} (h : _check_count py name v = []) :
    ∃ n : Int, 0 ≤ n ∧ v = .int n := by
  cases v with
  | int n =>
    by_cases hn : n < 0
    · simp [_check_count, hn] at h
    · exact ⟨n, not_lt.1 hn, rfl⟩
  | null | bool | float | str | arr | obj => simp [_check_count] at h

lemma get_ne_null_of_required {r : Record} {f : String} (h : requiredProblem py r f = []) :
    ∃ v, r.fields.get? f = some v ∧ (r.get f).isNull = false := by
  cases hget : r.fields.get? f with
  | none => simp [requiredProblem, Record.has, hget] at h
  | some v =>
    cases hnull : (r.get f).isNull with
    | true => simp [requiredProblem, Record.has, hget, hnull] at h
    | false => exact ⟨v, rfl, rfl⟩

/-- What conformance says, rule by rule. -/
lemma exists_of_validate_record {r : Record} (h : validate_record py r = .ok []) :
    ∃ ver, requiredProblems py r ver = [] ∧ securityProblems py r = [] ∧
      rangeProblems py r = [] := by
  cases hver : version? r with
  | none => simp [validate_record, hver] at h
  | some ver =>
    simp only [validate_record, hver, fieldProblems, Except.bind_eq_ok, Except.pure_eq_ok,
      List.append_eq_nil_iff] at h
    grind

lemma isCount_of_validate_record {r : Record} (h : validate_record py r = .ok []) {f : String}
    (hf : f ∈ ["dsml_leak", "provider_schema_400_count"]) : IsCount (r.fields.get? f) := by
  obtain ⟨ver, hrequired, -, hrange⟩ := exists_of_validate_record h
  have hreq : requiredProblem py r f = [] := by
    refine List.flatMap_eq_nil_iff.1 hrequired f (List.mem_append_left _ ?_)
    rcases List.mem_pair.1 hf with rfl | rfl <;> decide
  obtain ⟨v, hv, hnull⟩ := get_ne_null_of_required hreq
  simp only [rangeProblems, List.append_eq_nil_iff] at hrange
  have hcount := List.flatMap_eq_nil_iff.1 hrange.1.1.1.1 f (List.mem_cons_of_mem _ hf)
  rw [if_neg (by simp [hnull])] at hcount
  obtain ⟨n, hn, hget⟩ := exists_of_check_count hcount
  refine ⟨n, hn, ?_⟩
  simpa [Record.get, hv] using hget

lemma isCount_of_security {r : Record} (h : validate_record py r = .ok []) {f : String}
    (hf : f ∈ REQUIRED_SECURITY_FIELDS) : IsCount ((securityOf r).get? f) := by
  obtain ⟨ver, hrequired, hsec, -⟩ := exists_of_validate_record h
  have hreq : requiredProblem py r "security" = [] :=
    List.flatMap_eq_nil_iff.1 hrequired _ (List.mem_append_left _ (by decide))
  obtain ⟨v, hv, -⟩ := get_ne_null_of_required hreq
  cases hobj : (r.get "security").obj? with
  | none => simp [securityProblems, hobj, Record.has, hv] at hsec
  | some sec =>
    simp only [securityProblems, hobj] at hsec
    have hproblem := List.flatMap_eq_nil_iff.1 hsec f hf
    have hsecurity : securityOf r = sec := by simp [securityOf, hobj]
    rw [hsecurity]
    cases hget : sec.get? f with
    | none => simp [securityProblem, hget] at hproblem
    | some w =>
      have hcheck : _check_count py (Text.ofString "security." ++ f) w = [] := by
        cases w <;> simp_all [securityProblem]
      obtain ⟨n, hn, rfl⟩ := exists_of_check_count hcheck
      exact ⟨n, hn, rfl⟩

/-! ### Zero tolerance -/

/-- The record states that nothing happened for which there is no tolerance. -/
structure Record.Spotless (r : Record) : Prop where
  tainted_write : (securityOf r).get? "tainted_write_executed_count" = some (.int 0)
  forbidden_write : (securityOf r).get? "forbidden_write_executed_count" = some (.int 0)
  dsml_leak : r.fields.get? "dsml_leak" = some (.int 0)
  api_400 : r.fields.get? "provider_schema_400_count" = some (.int 0)

/-- No flag of zero tolerance is raised. -/
def Flags.Clear (f : Flags) : Prop :=
  f.tainted_unauth_write = false ∧ f.forbidden_write = false ∧ f.dsml_leak = false ∧ f.api_400 ≤ 0

lemma eq_zero_of_count {v : Option Value} (h : IsCount v) {n : Int}
    (hn : (v.getD .null)._to_int py = .ok n) (hle : n ≤ 0) : v = some (.int 0) := by
  obtain ⟨m, hm, rfl⟩ := h
  have hmn : m = n := by simpa [Value._to_int, Value.isNull, Value.toInt?] using hn
  subst hmn
  rw [le_antisymm hle hm]

lemma spotless_of_classify {r : Record} {f : Flags} (h : validate_record py r = .ok [])
    (hf : classify py r = .ok f) (hclear : f.Clear) : r.Spotless := by
  simp only [classify, Except.bind_eq_ok, Except.pure_eq_ok] at hf
  obtain ⟨tainted, ht, forbidden, hfb, is_5xx, -, lat, -, blocked, -, leak, hl, api, ha, rfl⟩ := hf
  obtain ⟨htainted, hforbidden, hleak, hapi⟩ := hclear
  have htainted : tainted = 0 := by simpa using htainted
  have hforbidden : forbidden = 0 := by simpa using hforbidden
  have hleak : leak ≤ 0 := by simpa using hleak
  exact {
    tainted_write := eq_zero_of_count (isCount_of_security h (by decide)) ht htainted.le
    forbidden_write := eq_zero_of_count (isCount_of_security h (by decide)) hfb hforbidden.le
    dsml_leak := eq_zero_of_count (isCount_of_validate_record h (by decide)) hl hleak
    api_400 := eq_zero_of_count (isCount_of_validate_record h (by decide)) ha hapi }

lemma clear_of_zt_reasons {records : List Record} {zt : ZeroTolerance}
    (h : aggregate_zero_tolerance py records = .ok zt) (hzt : zt_reasons zt = []) :
    ∀ r ∈ records, ∃ f, classify py r = .ok f ∧ f.Clear := by
  simp only [aggregate_zero_tolerance, Except.bind_eq_ok, Except.pure_eq_ok] at h
  obtain ⟨flags, hflags, rfl⟩ := h
  simp only [zt_reasons, List.append_eq_nil_iff, ite_eq_right_iff, imp_false,
    List.cons_ne_nil, List.countP_pos_iff, not_exists, not_and] at hzt
  obtain ⟨⟨⟨htainted, hforbidden⟩, hleak⟩, hapi⟩ := hzt
  intro r hr
  obtain ⟨f, hf, hrf⟩ := (List.forall₂_of_mapM_ok hflags).exists_right hr
  refine ⟨f, hrf, ?_, ?_, ?_, ?_⟩
  · simpa using htainted f hf
  · simpa using hforbidden f hf
  · simpa using hleak f hf
  · simpa using hapi f hf

/-! ### Holds -/

lemma foldl_hold_ok {i : Instrumentation} {holds : List (Text × Nat)} :
    (holds.foldl _hold_instrumentation i).ok = true ↔ holds = [] ∧ i.ok = true := by
  induction holds generalizing i with
  | nil => simp
  | cons hold holds ih => simp [ih, _hold_instrumentation]

/-- The validity of a measurement is one of its records: no hold changes it. -/
lemma evaluate_foldl_hold {i : Instrumentation} {holds : List (Text × Nat)} :
    evaluate_measurement_validity py (holds.foldl _hold_instrumentation i) =
      evaluate_measurement_validity py i := by
  induction holds generalizing i with
  | nil => rfl
  | cons hold holds ih =>
    rw [List.foldl_cons, ih]
    rfl

lemma of_validate_records {records : List Record} {arch : Text} {i : Instrumentation}
    (h : validate_records py records arch = .ok i) (hok : i.ok = true) :
    ∀ r ∈ records, validate_record py r = .ok [] := by
  simp only [validate_records, Except.bind_eq_ok, Except.pure_eq_ok] at h
  obtain ⟨problems, hproblems, keys, -, shas, -, versions, -, variants, -, rfl⟩ := h
  have hbad : problems.countP (· ≠ []) = 0 := by grind
  intro r hr
  obtain ⟨found, hfound, hrecord⟩ := (List.forall₂_of_mapM_ok hproblems).exists_right hr
  have hempty : found = [] := by simpa using List.countP_eq_zero.1 hbad found hfound
  rw [hrecord, hempty]

/-! ### The passing verdict -/

lemma ofReasons_passes {measurement : List Invalidity} {zt : List Breach} {instr : List Unproven}
    {sp : List Pause} {stage_eval : Option Bool}
    (h : (Decision.ofReasons measurement zt instr sp stage_eval).exit_code = 0) :
    zt = [] ∧ instr = [] := by
  unfold Decision.ofReasons at h
  split_ifs at h with hm hz hi hs
  · simp [Decision.exit_code] at h
  · simp [Decision.exit_code] at h
  · simp [Decision.exit_code] at h
  · simp [Decision.exit_code] at h
  · exact ⟨by simpa using hz, by simpa using hi⟩

/-- Only a valid measurement blocks the canary. -/
lemma ofReasons_blocks {measurement : List Invalidity} {zt : List Breach} {instr : List Unproven}
    {sp : List Pause} {stage_eval : Option Bool}
    (h : (Decision.ofReasons measurement zt instr sp stage_eval).exit_code = 3) :
    measurement = [] := by
  unfold Decision.ofReasons at h
  split_ifs at h with hm
  · simp [Decision.exit_code] at h
  all_goals simpa using hm

/-- What the passing exit code shows of the records the report is about. -/
structure Population.Promotable (py : Python) (o : Options) (p : Population) : Prop where
  conforms : ∀ r ∈ p.windowed, validate_record py r = .ok []
  dated : p.undated = []
  candidate : ∃ r ∈ p.windowed,
    record_endpoint py r ∈ GATE_ENDPOINTS ∧ record_arch py r = o.candidate_arch
  control : ∃ r ∈ p.windowed,
    record_endpoint py r ∈ GATE_ENDPOINTS ∧ record_arch py r = o.control_arch
  spotless : ∀ r ∈ p.windowed, isOfArm py o.candidate_arch o.candidate_sha r → r.Spotless

variable {clock : Time} {o : Options} {stream : Stream}

lemma exists_gateRecord {windowed : List Record} {arch : Text}
    (h : gateRecords py windowed arch ≠ []) :
    ∃ r ∈ windowed, record_endpoint py r ∈ GATE_ENDPOINTS ∧ record_arch py r = arch := by
  obtain ⟨r, hr⟩ := List.exists_mem_of_ne_nil _ h
  obtain ⟨hr, hgate⟩ := List.mem_filter.1 hr
  exact ⟨r, hr, by simpa using hgate⟩

lemma of_windowHolds {windowed undated : List Record} {skipped : Nat}
    {zt candidates controls : List Record} {fc : Arm}
    (h : windowHolds py o windowed undated skipped zt candidates controls fc = []) :
    undated = [] ∧ skipped = 0 ∧ candidates ≠ [] ∧ controls ≠ [] := by
  simp only [windowHolds, List.append_eq_nil_iff] at h
  obtain ⟨⟨⟨⟨⟨⟨-, hundated⟩, hskipped⟩, -⟩, hcandidates⟩, hcontrols⟩, -⟩ := h
  exact ⟨by simpa using hundated, by simpa using hskipped, by simpa using hcandidates,
    by simpa using hcontrols⟩

lemma exit_code_eq_zero (h : exit_code py clock o stream = 0) :
    ∃ verdict, build_report py clock o stream = .ok verdict ∧ verdict.decision.exit_code = 0 := by
  cases hbuild : build_report py clock o stream with
  | error e => simp [exit_code, hbuild] at h
  | ok verdict => exact ⟨verdict, rfl, by simpa [exit_code, hbuild] using h⟩

/-- The passing code is for a population that shows what it has to. -/
lemma promotable_of_exit_code (h : exit_code py clock o stream = 0) :
    ∃ p, population py clock o stream.records = .ok p ∧ p.Promotable py o ∧ stream.skipped = 0 := by
  obtain ⟨verdict, hbuild, hexit⟩ := exit_code_eq_zero h
  simp only [build_report, Except.bind_eq_ok, Except.pure_eq_ok] at hbuild
  obtain ⟨-, -, p, hp, i, hi, rollout, -, zt, hzt, fc, -, legacy, -, et, -, er, -, rfl⟩ := hbuild
  obtain ⟨hclear, hinstr⟩ := ofReasons_passes hexit
  simp only [instr_reasons, List.append_eq_nil_iff, ite_eq_left_iff, List.cons_ne_nil, imp_false,
    Bool.not_eq_true, Bool.not_eq_false] at hinstr
  obtain ⟨hholds, hok⟩ := foldl_hold_ok.1 hinstr.1.1.2
  obtain ⟨-, hwindow⟩ := List.append_eq_nil_iff.1 hholds
  obtain ⟨hundated, hskipped, hcandidates, hcontrols⟩ := of_windowHolds hwindow
  have hconforms := of_validate_records hi hok
  refine ⟨p, hp, ⟨hconforms, hundated, exists_gateRecord hcandidates, exists_gateRecord hcontrols,
    ?_⟩, hskipped⟩
  intro r hr harm
  obtain ⟨f, hf, hfclear⟩ := clear_of_zt_reasons hzt hclear r (List.mem_filter.2 ⟨hr, harm⟩)
  exact spotless_of_classify (hconforms r hr) hf hfclear

/-- The rollback code is for a measurement that is valid. -/
lemma valid_of_exit_code (h : exit_code py clock o stream = 3) {p : Population}
    {i : Instrumentation} (hp : population py clock o stream.records = .ok p)
    (hi : validate_records py p.windowed o.candidate_arch = .ok i) :
    evaluate_measurement_validity py i = [] := by
  cases hbuild : build_report py clock o stream with
  | error e => simp [exit_code, hbuild] at h
  | ok verdict =>
    have hexit : verdict.decision.exit_code = 3 := by simpa [exit_code, hbuild] using h
    simp only [build_report, Except.bind_eq_ok, Except.pure_eq_ok] at hbuild
    obtain ⟨-, -, p', hp', i', hi', rollout, -, zt, -, fc, -, legacy, -, et, -, er, -, rfl⟩ := hbuild
    obtain rfl : p' = p := Except.ok.inj (hp'.symm.trans hp)
    obtain rfl : i' = i := Except.ok.inj (hi'.symm.trans hi)
    exact evaluate_foldl_hold.symm.trans (ofReasons_blocks hexit)

/-! ### One more line -/

lemma stamped_insert {l₁ l₂ : List Record} {r : Record} {stamps : List (Record × Option Time)}
    (h : stamped py (l₁ ++ r :: l₂) = .ok stamps) :
    ∃ s₁ t s₂, record_ts py r = .ok t ∧ stamps = s₁ ++ (r, t) :: s₂ ∧
      stamped py (l₁ ++ l₂) = .ok (s₁ ++ s₂) := by
  simp only [stamped, List.mapM_append, List.mapM_cons, Except.bind_eq_ok,
    Except.pure_eq_ok] at h ⊢
  obtain ⟨s₁, h₁, _, ⟨_, ⟨t, ht, rfl⟩, s₂, h₂, rfl⟩, rfl⟩ := h
  exact ⟨s₁, t, s₂, ht, rfl, s₁, h₁, s₂, h₂, rfl⟩

/-- A record that is not selected, or is before the cutoff, leaves the window as it is. -/
lemma filter_window_insert {d₁ d₂ : List (Record × Time)} {r : Record} {t : Time}
    {cutoff : Option Time} (h : o.selects r = false ∨ ∃ c, cutoff = some c ∧ keeps py c t = false) :
    (filter_window py (d₁ ++ (r, t) :: d₂) cutoff).filter o.selects =
      (filter_window py (d₁ ++ d₂) cutoff).filter o.selects := by
  rcases h with h | ⟨c, rfl, h⟩
  · cases cutoff with
    | none => simp [filter_window, h]
    | some c => cases hk : keeps py c t <;> simp [filter_window, h, hk]
  · simp [filter_window, h]

/-- The window is empty when the latest of the records is before the cutoff. -/
lemma filter_window_eq_nil {d : List (Record × Time)} {t c : Time} (h : keeps py c t = false)
    (hd : ∀ p ∈ d, p.2 ≤ t) : filter_window py d (some c) = [] := by
  have hout : ∀ p ∈ d, ¬ keeps py c p.2 := by
    intro p hp hkeeps
    simp [keeps_mono py (hd p hp) hkeeps] at h
  simpa [filter_window] using hout

/-- A record that is not the latest does not move the time. -/
lemma max?_insert {l₁ l₂ : List Time} {t t' : Time} (ht' : t' ∈ l₁ ++ l₂) (h : t ≤ t') :
    (l₁ ++ t :: l₂).max? = (l₁ ++ l₂).max? := by
  obtain ⟨m, hm⟩ : ∃ m, (l₁ ++ l₂).max? = some m := by
    cases hmax : (l₁ ++ l₂).max? with
    | none => simp [List.max?_eq_none_iff.1 hmax] at ht'
    | some m => exact ⟨m, rfl⟩
  rw [hm]
  obtain ⟨hmem, hle⟩ := List.max?_eq_some_iff.1 hm
  refine List.max?_eq_some_iff.2 ⟨?_, ?_⟩
  · rw [List.mem_append] at hmem
    simp only [List.mem_append, List.mem_cons]
    tauto
  · intro b hb
    simp only [List.mem_append, List.mem_cons] at hb
    rcases hb with hb | rfl | hb
    · exact hle b (List.mem_append_left _ hb)
    · exact h.trans (hle t' ht')
    · exact hle b (List.mem_append_right _ hb)

/-- The record is later than the others, and the time that a window or a stage ends at is theirs. -/
def AdvancesClock (py : Python) (o : Options) (records : List Record) (r : Record) : Prop :=
  o.now_override = none ∧ (o.window_hours ≠ none ∨ o.stage ≠ none) ∧
    ∃ t, record_ts py r = .ok (some t) ∧
      ∀ r' ∈ records, ∀ t', record_ts py r' = .ok (some t') → t' < t

/-- A stream with one more line: one that does not parse, or a record that violates the contract or
has no time. A record of another rollout than the one that is named does not advance the clock. -/
inductive AddsOffence (py : Python) (o : Options) : Stream → Stream → Prop
  | line (records : List Record) (skipped : Nat) :
    AddsOffence py o ⟨records, skipped⟩ ⟨records, skipped + 1⟩
  | record (l₁ l₂ : List Record) (skipped : Nat) (r : Record)
    (offends : validate_record py r ≠ .ok [] ∨ record_ts py r = .ok none)
    (selected : o.selects r = true ∨ ¬ AdvancesClock py o (l₁ ++ l₂) r) :
    AddsOffence py o ⟨l₁ ++ l₂, skipped⟩ ⟨l₁ ++ r :: l₂, skipped⟩

lemma mem_stamped {records : List Record} {stamps : List (Record × Option Time)}
    (h : stamped py records = .ok stamps) {p : Record × Option Time} (hp : p ∈ stamps) :
    p.1 ∈ records ∧ record_ts py p.1 = .ok p.2 := by
  obtain ⟨r, hr, hrp⟩ := (List.forall₂_of_mapM_ok h).exists_left hp
  simp only [Except.bind_eq_ok, Except.pure_eq_ok] at hrp
  obtain ⟨t, ht, rfl⟩ := hrp
  exact ⟨hr, ht⟩

/-- The records with a time, as the window filter is given them. -/
abbrev datedOf (stamps : List (Record × Option Time)) : List (Record × Time) :=
  stamps.filterMap fun p => p.2.map (p.1, ·)

lemma population_eq {records : List Record} {stamps : List (Record × Option Time)}
    {cutoff : Option Time} (hs : stamped py records = .ok stamps)
    (hc : window_bounds py o.window_hours o.since (reference_now stamps o.now_override clock) =
      .ok cutoff) :
    population py clock o records = .ok {
      now := reference_now stamps o.now_override clock
      windowed := (filter_window py (datedOf stamps) cutoff).filter o.selects
      undated := ((stamps.filter (·.2.isNone)).map (·.1)).filter o.selects } := by
  simp [population, hs, hc]

/-- The time the report refers to is that of the latest record, unless it is given. -/
lemma reference_now_insert {s₁ s₂ : List (Record × Option Time)} {r : Record} {t : Time}
    {now_override : Option Time}
    (h : now_override ≠ none ∨ ∃ p ∈ s₁ ++ s₂, ∃ t', p.2 = some t' ∧ t ≤ t') :
    reference_now (s₁ ++ (r, some t) :: s₂) now_override clock =
      reference_now (s₁ ++ s₂) now_override clock := by
  rcases h with h | ⟨p, hp, t', ht', hle⟩
  · obtain ⟨now, rfl⟩ := Option.ne_none_iff_exists'.1 h
    rfl
  · have hmem : t' ∈ s₁.filterMap (·.2) ++ s₂.filterMap (·.2) := by
      rw [← List.filterMap_append]
      exact List.mem_filterMap.2 ⟨p, hp, ht'⟩
    simp only [reference_now, List.filterMap_append, List.filterMap_cons,
      max?_insert hmem hle]

/-- An offending record that is in none of the lists the report is about changes none of them. -/
lemma population_insert {l₁ l₂ : List Record} {r : Record} {p' : Population}
    (hp' : population py clock o (l₁ ++ r :: l₂) = .ok p') (hprom : p'.Promotable py o)
    (offends : validate_record py r ≠ .ok [] ∨ record_ts py r = .ok none)
    (selected : o.selects r = true ∨ ¬ AdvancesClock py o (l₁ ++ l₂) r) :
    ∃ p, population py clock o (l₁ ++ l₂) = .ok p ∧ p.windowed = p'.windowed ∧
      p.undated = p'.undated ∧ (o.stage = none ∨ p.now = p'.now) := by
  have hbuilt := hp'
  simp only [population, Except.bind_eq_ok, Except.pure_eq_ok] at hbuilt
  obtain ⟨stamps, hs, cutoff, hc, -⟩ := hbuilt
  obtain rfl := Except.ok.inj (hp'.symm.trans (population_eq hs hc))
  obtain ⟨s₁, stamp, s₂, hstamp, rfl, hs₀⟩ := stamped_insert hs
  cases stamp with
  | none =>
    have hsel : o.selects r = false := by
      have hdated := hprom.dated
      simp only [List.filter_append, List.filter_cons, Option.isNone_none, if_true,
        List.map_append, List.map_cons, List.append_eq_nil_iff] at hdated
      cases h : o.selects r with
      | true => simp [h] at hdated
      | false => rfl
    have hnow : reference_now (s₁ ++ (r, none) :: s₂) o.now_override clock =
        reference_now (s₁ ++ s₂) o.now_override clock := by
      simp [reference_now]
    refine ⟨_, population_eq hs₀ (hnow ▸ hc), ?_, ?_, .inr hnow.symm⟩
    · simp
    · simp [hsel]
  | some t =>
    have hdated : datedOf (s₁ ++ (r, some t) :: s₂) = datedOf s₁ ++ (r, t) :: datedOf s₂ := by
      simp [datedOf]
    have hundated : (((s₁ ++ s₂).filter (·.2.isNone)).map (·.1)).filter o.selects =
        (((s₁ ++ (r, some t) :: s₂).filter (·.2.isNone)).map (·.1)).filter o.selects := by
      simp
    -- in the window it would conform, and it has a time
    have hdropped : o.selects r = false ∨ ∃ c, cutoff = some c ∧ keeps py c t = false := by
      by_contra hkept
      push Not at hkept
      obtain ⟨hsel, hkeeps⟩ := hkept
      have hmem : r ∈ (filter_window py (datedOf s₁ ++ (r, t) :: datedOf s₂) cutoff).filter
          o.selects := by
        refine List.mem_filter.2 ⟨?_, by simpa using hsel⟩
        cases cutoff with
        | none => simp [filter_window]
        | some c => simp [filter_window, hkeeps c rfl]
      rcases offends with hviolates | hundated
      · rw [← hdated] at hmem
        exact hviolates (hprom.conforms r hmem)
      · simp [hstamp] at hundated
    have hwindow : (filter_window py (datedOf (s₁ ++ s₂)) cutoff).filter o.selects =
        (filter_window py (datedOf (s₁ ++ (r, some t) :: s₂)) cutoff).filter o.selects := by
      rw [hdated, filter_window_insert hdropped, datedOf, List.filterMap_append]
    by_cases hsame : o.now_override ≠ none ∨ ∃ p ∈ s₁ ++ s₂, ∃ t', p.2 = some t' ∧ t ≤ t'
    · have hnow : reference_now (s₁ ++ (r, some t) :: s₂) o.now_override clock =
          reference_now (s₁ ++ s₂) o.now_override clock := reference_now_insert hsame
      exact ⟨_, population_eq hs₀ (hnow ▸ hc), hwindow, hundated, .inr hnow.symm⟩
    · push Not at hsame
      obtain ⟨hoverride, hlatest⟩ := hsame
      rcases hdropped with hsel | ⟨c, rfl, hkeeps⟩
      · -- the clock is read by nothing
        have hunread : o.window_hours = none ∧ o.stage = none := by
          by_contra hread
          refine selected.resolve_left (by simp [hsel]) ⟨hoverride, by tauto, t, hstamp, ?_⟩
          intro r' hr' t' ht'
          obtain ⟨p, hp, hrp⟩ := (List.forall₂_of_mapM_ok hs₀).exists_right hr'
          simp only [Except.bind_eq_ok, Except.pure_eq_ok, ht', Except.ok.injEq] at hrp
          obtain ⟨_, rfl, rfl⟩ := hrp
          exact hlatest _ hp t' rfl
        rw [hunread.1] at hc
        exact ⟨_, population_eq hs₀ (by rw [hunread.1]; exact hc), hwindow, hundated,
          .inl hunread.2⟩
      · -- the latest record is before the cutoff, so all of them are
        have hempty : filter_window py (datedOf s₁ ++ (r, t) :: datedOf s₂) (some c) = [] := by
          refine filter_window_eq_nil hkeeps fun p hp => ?_
          rw [← hdated] at hp
          obtain ⟨q, hq, hqp⟩ := List.mem_filterMap.1 hp
          obtain ⟨t', ht', rfl⟩ := Option.map_eq_some_iff.1 hqp
          simp only [List.mem_append, List.mem_cons] at hq
          rcases hq with hq | rfl | hq
          · exact (hlatest q (List.mem_append_left _ hq) t' ht').le
          · exact (Option.some.inj ht').ge
          · exact (hlatest q (List.mem_append_right _ hq) t' ht').le
        obtain ⟨r', hr', -⟩ := hprom.candidate
        have hr' : r' ∈ filter_window py (datedOf (s₁ ++ (r, some t) :: s₂)) (some c) :=
          (List.mem_filter.1 hr').1
        rw [hdated, hempty] at hr'
        cases hr'

/-- The report reads its records only through the population, and the clock only for a stage. -/
lemma build_report_congr {stream' : Stream} {p p' : Population}
    (hp : population py clock o stream.records = .ok p)
    (hp' : population py clock o stream'.records = .ok p') (hwindowed : p.windowed = p'.windowed)
    (hundated : p.undated = p'.undated) (hnow : o.stage = none ∨ p.now = p'.now)
    (hskipped : stream.skipped = stream'.skipped) :
    build_report py clock o stream = build_report py clock o stream' := by
  have hstage (fc : Arm) : (o.stage.map fun stage => evaluate_stage py fc stage o.since p.now) =
      o.stage.map fun stage => evaluate_stage py fc stage o.since p'.now := by
    rcases hnow with hnow | hnow
    · simp [hnow]
    · rw [hnow]
  have hbind (p : Population) (f : Population → Except Raised Verdict) :
      (Except.ok p >>= f) = f p := rfl
  simp only [build_report, hp, hp', hbind, hwindowed, hundated, hskipped, hstage]

/-- An offence that is added leaves a passing stream passing only where it is not counted: the
stream without it passes too. -/
lemma exit_code_of_addsOffence {stream' : Stream} (h : AddsOffence py o stream stream')
    (hpass : exit_code py clock o stream' = 0) : exit_code py clock o stream = 0 := by
  obtain ⟨p', hp', hprom, hskipped⟩ := promotable_of_exit_code hpass
  cases h with
  | line records skipped => cases hskipped
  | record l₁ l₂ skipped r offends selected =>
    obtain ⟨p, hp, hwindowed, hundated, hnow⟩ := population_insert hp' hprom offends selected
    have heq : build_report py clock o ⟨l₁ ++ l₂, skipped⟩ =
        build_report py clock o ⟨l₁ ++ r :: l₂, skipped⟩ :=
      build_report_congr hp hp' hwindowed hundated hnow rfl
    rwa [exit_code, heq]

/-- The verdict fails closed: only records that show what they have to let it pass, an invalid
measurement does not roll back, and no offence that is added turns it into passing. -/
theorem verdict_fails_closed (py : Python) (clock : Time) (o : Options) (stream : Stream) :
    (exit_code py clock o stream = 0 →
      ∃ p, population py clock o stream.records = .ok p ∧ p.Promotable py o ∧
        stream.skipped = 0) ∧
    (∀ p i, population py clock o stream.records = .ok p →
      validate_records py p.windowed o.candidate_arch = .ok i →
      evaluate_measurement_validity py i ≠ [] → exit_code py clock o stream ≠ 3) ∧
    ∀ stream', AddsOffence py o stream stream' → exit_code py clock o stream ≠ 0 →
      exit_code py clock o stream' ≠ 0 :=
  ⟨promotable_of_exit_code, fun _ _ hp hi hinvalid h => hinvalid (valid_of_exit_code h hp hi),
    fun _ hadds hne hpass => hne (exit_code_of_addsOffence hadds hpass)⟩

/-! ### A record of another rollout -/

/-- An interpreter whose doubles are exact. -/
def exactPython : Python where
  round := .real
  round_mono p q h := by simpa [Double.le, Double.lt] using h
  lower t := t.map fun c => if isUpper c then c + 32 else c
  floatOf _ := none
  intOf _ := none
  fromisoformat _ := none
  repr
    | .null => "None"
    | .bool b => if b then "True" else "False"
    | .int n => Text.ofString (toString n)
    | .str s => [39] ++ s ++ [39]
    | _ => "..."

/-- A turn of the rollout, with so many leaks. -/
def edgeTurn (request_id arch pool : String) (ts : Int) (leaks : Value) : Record where
  fields := [("telemetry_schema_version", .int 3), ("ts", .int ts), ("endpoint", .str "alex"),
    ("agent_arch", .str arch), ("candidate_sha", .str "abc1234"), ("request_id", .str request_id),
    ("conversation_id", .str "c1"), ("http_status", .int 200), ("turn_outcome", .str "ok"),
    ("turn_latency_ms", .int 1000), ("soft_wrapped", .bool false), ("partial", .bool false),
    ("tool_budget_timeout", .bool false), ("dsml_blocked", .int 0), ("dsml_leak", leaks),
    ("provider_schema_400_count", .int 0),
    ("security", .obj [("denied_write_count", .int 0), ("tainted_write_executed_count", .int 0),
      ("forbidden_write_executed_count", .int 0)]),
    ("user_id_hash_status", .str "no_user"), ("strict", .bool true),
    ("llm_usage_status", .str "no_llm_calls"), ("llm_calls", .int 0), ("tool_batches", .int 0),
    ("traffic_source", .str "edge"), ("assigned_pool", .str pool), ("rollout_id", .str "r1"),
    ("rollout_stage", .str "c1"), ("configured_candidate_percent", .int 20),
    ("variant_id", .str (Text.ofString arch ++ ":strict-1:specialists-0"))]

def rolloutOptions : Options :=
  { rollout_id := some "r1", expect_rollout_turns := some 2, window_hours := some (.real 24) }

/-- A turn of the rollout that violates the contract, and twenty hours later one of each arm. -/
def rolloutRecords : List Record :=
  [edgeTurn "q0" "fc_loop" "candidate" 1000000 .null,
    edgeTurn "q1" "fc_loop" "candidate" 1072000 (.int 0),
    edgeTurn "q2" "legacy" "legacy" 1072000 (.int 0)]

/-- A record of no rollout and of no known schema, another twenty hours later. -/
def laterRecord : Record where
  fields := [("event", .str "canary.turn"), ("agent_arch", .str "fc_loop"), ("ts", .int 1144000)]

/-- A record of no rollout and of no known schema, without a time. -/
def undatedRecord : Record where
  fields := [("event", .str "canary.turn"), ("agent_arch", .str "fc_loop")]

/-- The later record moves the window past the violation, and neither it nor the undated one is
counted. -/
theorem laterRecord_passes :
    exit_code exactPython 0 rolloutOptions ⟨rolloutRecords, 0⟩ = 2 ∧
      validate_record exactPython laterRecord ≠ .ok [] ∧
      exit_code exactPython 0 rolloutOptions ⟨rolloutRecords ++ [laterRecord], 0⟩ = 0 ∧
      record_ts exactPython undatedRecord = .ok none ∧
      exit_code exactPython 0 rolloutOptions
        ⟨rolloutRecords ++ [laterRecord, undatedRecord], 0⟩ = 0 := by
  refine ⟨by decide +kernel, ?_, by decide +kernel, rfl, by decide +kernel⟩
  intro h
  cases h

end RentCompass.Canary
