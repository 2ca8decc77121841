import RentCompass.Runs
import Mathlib.Algebra.Order.Ring.Rat
import Mathlib.Algebra.Order.Floor.Ring
import Mathlib.Data.Rat.Floor
import Mathlib.Algebra.Order.Ring.Star
import Mathlib.Data.Rat.Star
import Mathlib.Tactic.Linarith

/-!
# Access to the listing source

All processes of a host ask for their slots in one shared row, which also says until when the source
is blocked and why. A refusal moves the end of the block, never backwards; the status and the
reason are those of the last refusal that was recorded, whether or not the block ends with it.
-/

namespace RentCompass.Scraping

/-! ### The shared row -/

inductive SourceStatus where
  | unavailable
  | blocked
  | rateLimited
deriving DecidableEq

inductive Reason where
  | sourceCooldown
  | requestBudgetExhausted
  | accessStateUnavailable
  | transportError
  | httpRateLimited
  | httpAccessDenied
  | httpRedirect
  | httpError
  | challengeResponse
  | robotsInvalidResponse
  | robotsVerificationInProgress
deriving DecidableEq

/-- `OTMSourceError` -/
structure OTMSourceError where
  sourceStatus : SourceStatus
  reason : Reason
  statusCode : Option Nat
  retryAfterSeconds : Option ℚ
deriving DecidableEq

/-- The row of `source_access`; an empty text is none. -/
structure AccessRow where
  nextRequest : ℚ
  blockedUntil : ℚ
  sourceStatus : Option SourceStatus
  reason : Option Reason
  statusCode : Option Nat
deriving DecidableEq

/-- `MIN_INTERVAL_SECONDS` -/
def minIntervalSeconds : ℚ := 6 / 5

/-- `DEFAULT_BLOCK_SECONDS` -/
def defaultBlockSeconds : Int := 3600

/-- `DEFAULT_RATE_LIMIT_SECONDS` -/
def defaultRateLimitSeconds : Int := 300

/-- What is reported of a block. -/
def AccessRow.report (row : AccessRow) : SourceStatus × Reason :=
  (row.sourceStatus.getD .blocked, row.reason.getD .sourceCooldown)

/-! ### Slots -/

def requestBudgetExhausted : OTMSourceError := ⟨.unavailable, .requestBudgetExhausted, none, none⟩

def accessStateUnavailable : OTMSourceError := ⟨.unavailable, .accessStateUnavailable, none, none⟩

/-- What one round of the loop of `wait_for_slot` comes to. -/
inductive Turn where
  | granted (row : AccessRow)
  | sleeps
  | raised (error : OTMSourceError)
deriving DecidableEq

/-- One round of the loop of `wait_for_slot`, with the transaction on the row; `exhausted` says
that the budget does not last, for the request or for the delay. -/
def waitForSlot (row : AccessRow) (now : ℚ) (exhausted : Bool) : Turn :=
  if now < row.blockedUntil then
    .raised ⟨row.report.1, row.report.2, row.statusCode, some (row.blockedUntil - now)⟩
  else if exhausted then .raised requestBudgetExhausted
  else if row.nextRequest ≤ now then
    .granted { row with nextRequest := now + minIntervalSeconds }
  else .sleeps

/-! ### Responses -/

/-- A header `Retry-After` that can be read. -/
inductive RetryAfter where
  | seconds (s : ℚ)
  | date (time : ℚ)

/-- `_retry_after` -/
def retryAfter (value : Option RetryAfter) (default : Int) (now : ℚ) : Int :=
  match value with
  | some (.seconds s) => if 0 ≤ s then max 1 ⌈s⌉ else default
  | some (.date time) => max 1 ⌈time - now⌉
  | none => default

inductive Response where
  /-- The slot took all of the budget. -/
  | late
  | transportError
  /-- A response with its status code; `challenge` says that its text asks for a human, `valid`
  that it can be taken for the rules of the source. -/
  | http (code : Nat) (header : Option RetryAfter) (challenge valid : Bool)

/-- What becomes of a request. -/
inductive Outcome where
  | page (valid : Bool)
  /-- `_pause(error)`, then `raise error` -/
  | refused (error : OTMSourceError) (retry : ℚ)
  | raised (error : OTMSourceError)

/-- The error of a refusal. -/
def refusal (sourceStatus : SourceStatus) (reason : Reason) (code : Nat) (retry : Int) : Outcome :=
  .refused ⟨sourceStatus, reason, some code, some retry⟩ retry

/-- `_request`, once the slot is granted. -/
def request (now : ℚ) : Response → Outcome
  | .late => .raised requestBudgetExhausted
  | .transportError => .raised ⟨.unavailable, .transportError, none, none⟩
  | .http code header challenge valid =>
    if code = 429 then
      refusal .rateLimited .httpRateLimited code (retryAfter header defaultRateLimitSeconds now)
    else if code = 401 ∨ code = 403 then
      refusal .blocked .httpAccessDenied code (retryAfter header defaultBlockSeconds now)
    else if code ≠ 200 then
      .raised ⟨.unavailable, if 300 ≤ code ∧ code < 400 then .httpRedirect else .httpError,
        some code, none⟩
    else if challenge then refusal .blocked .challengeResponse code defaultBlockSeconds
    else .page valid

/-- The `UPDATE` of `_pause`; `pausedUntil` is the time it was called with. -/
def AccessRow.pause (row : AccessRow) (pausedUntil : ℚ) (error : OTMSourceError) : AccessRow where
  nextRequest := row.nextRequest
  blockedUntil := max row.blockedUntil pausedUntil
  sourceStatus := some error.sourceStatus
  reason := some error.reason
  statusCode := error.statusCode

/-! ### Processes -/

/-- Where a process is in `get`; `robots` says that it is in `_ensure_robots`. -/
inductive Phase where
  | idle
  /-- in `wait_for_slot` -/
  | asking (robots : Bool)
  | requesting (robots : Bool)
  /-- in `_pause`, before `time.time()` is read -/
  | failing (robots : Bool) (error : OTMSourceError) (retry : ℚ)
  /-- in `_pause`, before the row is locked -/
  | pausing (robots : Bool) (error : OTMSourceError) (retry pausedUntil : ℚ)

/-- An error is raised: `_ensure_robots` pauses for a minute, if nothing else has. -/
def afterRaise (robots : Bool) (error : OTMSourceError) : Phase :=
  if robots ∧ error.retryAfterSeconds = none ∧ error.reason ≠ .robotsVerificationInProgress ∧
      error.reason ≠ .requestBudgetExhausted then
    .failing false { error with retryAfterSeconds := some 60 } 60
  else .idle

/-- A pause that was recorded. -/
structure RecordedPause where
  recorded : ℚ
  retry : ℚ
  pausedUntil : ℚ
  sourceStatus : SourceStatus
  reason : Reason
deriving DecidableEq

/-- What the row was used for. -/
inductive Entry where
  | grant (time blockedUntil : ℚ)
  | pause (p : RecordedPause)
deriving DecidableEq

/-- The processes of a host, the row and the clock they share, and what happened, last first. -/
structure Host where
  row : AccessRow
  now : ℚ
  phase : Nat → Phase
  history : List Entry

/-- A length of time. -/
abbrev Delay := {d : ℚ // 0 ≤ d}

inductive Move where
  /-- `get`, with rules of the source that are current or not. -/
  | call (current : Bool)
  /-- The call ends without a request. -/
  | leave
  | ask (exhausted unavailable : Bool)
  | respond (response : Response)
  | readClock
  | record (unavailable : Bool)

/-- A process moves, a while after the move before. -/
structure Act where
  elapsed : Delay
  process : Nat
  move : Move

/-- The process goes on. -/
def Host.go (h : Host) (process : Nat) (phase : Phase) : Host :=
  { h with phase := Function.update h.phase process phase }

/-- A round of `wait_for_slot`. -/
def Host.ask (h : Host) (process : Nat) (robots exhausted : Bool) : Host :=
  match waitForSlot h.row h.now exhausted with
  | .granted row =>
    { h with row := row, history := .grant h.now h.row.blockedUntil :: h.history }.go process
      (.requesting robots)
  | .sleeps => h
  | .raised error => h.go process (afterRaise robots error)

/-- The response arrives. -/
def Host.respond (h : Host) (process : Nat) (robots : Bool) (response : Response) : Host :=
  match request h.now response with
  | .page valid =>
    if !robots then h.go process .idle
    else if valid then h.go process (.asking false)
    else h.go process (afterRaise true ⟨.unavailable, .robotsInvalidResponse, none, none⟩)
  | .refused error retry => h.go process (.failing robots error retry)
  | .raised error => h.go process (afterRaise robots error)

/-- The transaction of `_pause`. -/
def Host.record (h : Host) (process : Nat) (robots : Bool) (error : OTMSourceError)
    (retry pausedUntil : ℚ) : Host :=
  { h with
    row := h.row.pause pausedUntil error
    history := .pause ⟨h.now, retry, pausedUntil, error.sourceStatus, error.reason⟩ :: h.history
    }.go process (afterRaise robots error)

/-- Time passes. -/
def Host.wait (h : Host) (elapsed : Delay) : Host := { h with now := h.now + elapsed }

def Host.move (h : Host) (process : Nat) (m : Move) : Host :=
  match h.phase process, m with
  | .idle, .call current => h.go process (.asking !current)
  | .asking _, .leave => h.go process .idle
  | .asking robots, .ask exhausted unavailable =>
    if unavailable then h.go process (afterRaise robots accessStateUnavailable)
    else h.ask process robots exhausted
  | .requesting robots, .respond response => h.respond process robots response
  | .failing robots error retry, .readClock =>
    h.go process (.pausing robots error retry (h.now + retry))
  | .pausing robots error retry pausedUntil, .record unavailable =>
    if unavailable then h.go process (afterRaise robots accessStateUnavailable)
    else h.record process robots error retry pausedUntil
  | _, _ => h

def Host.step (h : Host) (a : Act) : Host := (h.wait a.elapsed).move a.process a.move

/-- The row as it is inserted, and no process in `get`. -/
def Host.start (now : Delay) : Host := ⟨⟨0, 0, none, none, none⟩, now, fun _ => .idle, []⟩

/-! ### Etiquette -/

/-- The time of a grant. -/
def Entry.granted : Entry → Option ℚ
  | .grant time _ => some time
  | .pause _ => none

def Entry.paused : Entry → Option RecordedPause
  | .grant _ _ => none
  | .pause p => some p

/-- The pause reaches the end of the block, and is what is reported of it. -/
def RecordedPause.Explains (p : RecordedPause) (row : AccessRow) : Prop :=
  row.blockedUntil ≤ p.pausedUntil ∧ row.report = (p.sourceStatus, p.reason)

instance (p : RecordedPause) (row : AccessRow) : Decidable (p.Explains row) :=
  inferInstanceAs (Decidable (_ ∧ _))

/-- The slots are apart and outside the blocks, no slot is given for the retry time of a recorded
pause, and what is reported of a block is of a pause that reaches its end. -/
structure Etiquette (h : Host) : Prop where
  spaced : h.history.Pairwise fun later earlier =>
    ∀ t ∈ earlier.granted, ∀ t' ∈ later.granted, t + minIntervalSeconds ≤ t'
  unblocked : ∀ t b, .grant t b ∈ h.history → b ≤ t
  quiet : h.history.Pairwise fun later earlier =>
    ∀ p ∈ earlier.paused, ∀ t ∈ later.granted, p.recorded + p.retry ≤ t
  reported : h.now < h.row.blockedUntil → ∃ e ∈ h.history, ∃ p ∈ e.paused, p.Explains h.row

/-- The pause that is recorded next is written in time: the block it leaves lasts for its retry time
from now on; and it ends with the block, or says of the block what a pause that does has said. -/
def Host.TimelyPause (h : Host) (pausedUntil retry : ℚ) (error : OTMSourceError) : Prop :=
  h.now + retry ≤ max h.row.blockedUntil pausedUntil ∧
    (pausedUntil < h.row.blockedUntil → h.now < h.row.blockedUntil →
      ∃ e ∈ h.history, ∃ p ∈ e.paused, p.Explains (h.row.pause pausedUntil error))

instance (h : Host) (pausedUntil retry : ℚ) (error : OTMSourceError) :
    Decidable (h.TimelyPause pausedUntil retry error) :=
  inferInstanceAs (Decidable (_ ∧ _))

/-- A step that records a pause records it in time. -/
def Host.timely (h : Host) (a : Act) : Bool :=
  match h.phase a.process, a.move with
  | .pausing _ error retry pausedUntil, .record false =>
    (h.wait a.elapsed).TimelyPause pausedUntil retry error
  | _, _ => true

/-! ### What a step does -/

/-- What a step does to the row, the clock and the history. -/
inductive Effect (h : Host) (a : Act) (h' : Host) : Prop where
  | untouched (hrow : h'.row = h.row) (hhistory : h'.history = h.history)
  | granted (hfree : h.row.blockedUntil ≤ h'.now) (hnext : h.row.nextRequest ≤ h'.now)
      (hrow : h'.row = { h.row with nextRequest := h'.now + minIntervalSeconds })
      (hhistory : h'.history = .grant h'.now h.row.blockedUntil :: h.history)
  | paused (robots : Bool) (error : OTMSourceError) (retry pausedUntil : ℚ)
      (hphase : h.phase a.process = .pausing robots error retry pausedUntil)
      (hmove : a.move = .record false)
      (hrow : h'.row = h.row.pause pausedUntil error)
      (hhistory : h'.history =
        .pause ⟨h'.now, retry, pausedUntil, error.sourceStatus, error.reason⟩ :: h.history)

lemma now_move (h : Host) (process : Nat) (m : Move) : (h.move process m).now = h.now := by
  unfold Host.move
  split
  · rfl
  · rfl
  · split
    · rfl
    · rw [Host.ask]
      split <;> rfl
  · rw [Host.respond]
    split
    · split
      · rfl
      · split <;> rfl
    · rfl
    · rfl
  · rfl
  · split <;> rfl
  · rfl

lemma now_step (h : Host) (a : Act) : (h.step a).now = h.now + a.elapsed := now_move _ _ _

/-- A slot is granted outside the block, from the time of the next request on. -/
lemma waitForSlot_granted {row row' : AccessRow} {now : ℚ} {exhausted : Bool}
    (h : waitForSlot row now exhausted = .granted row') :
    row.blockedUntil ≤ now ∧ row.nextRequest ≤ now ∧
      row' = { row with nextRequest := now + minIntervalSeconds } := by
  rw [waitForSlot] at h
  split at h
  · cases h
  next hblocked =>
  split at h
  · cases h
  split at h
  · next hnext =>
    cases h
    exact ⟨not_lt.1 hblocked, hnext, rfl⟩
  · cases h

lemma effect_step (h : Host) (a : Act) : Effect h a (h.step a) := by
  unfold Host.step Host.move
  split
  · exact .untouched rfl rfl
  · exact .untouched rfl rfl
  · split
    · exact .untouched rfl rfl
    · rw [Host.ask]
      split
      · next hgranted =>
        obtain ⟨hfree, hnext, hrow⟩ := waitForSlot_granted hgranted
        exact .granted hfree hnext hrow rfl
      · exact .untouched rfl rfl
      · exact .untouched rfl rfl
  · rw [Host.respond]
    split
    · split
      · exact .untouched rfl rfl
      · split
        · exact .untouched rfl rfl
        · exact .untouched rfl rfl
    · exact .untouched rfl rfl
    · exact .untouched rfl rfl
  · exact .untouched rfl rfl
  · next robots error retry pausedUntil unavailable hphase hmove =>
    cases unavailable with
    | true => exact .untouched rfl rfl
    | false => exact .paused robots error retry pausedUntil hphase hmove rfl rfl
  · exact .untouched rfl rfl

/-! ### Runs -/

/-- What holds in every run: the slots taken are behind the next one, and outside the blocks. -/
structure Paced (h : Host) : Prop where
  behind : ∀ t b, .grant t b ∈ h.history → t + minIntervalSeconds ≤ h.row.nextRequest
  unblocked : ∀ t b, .grant t b ∈ h.history → b ≤ t
  spaced : h.history.Pairwise fun later earlier =>
    ∀ t ∈ earlier.granted, ∀ t' ∈ later.granted, t + minIntervalSeconds ≤ t'

/-- What holds where the pauses are recorded in time: the block covers the retry times. -/
structure Covered (h : Host) : Prop where
  covered : ∀ p, .pause p ∈ h.history → p.recorded + p.retry ≤ h.row.blockedUntil
  quiet : h.history.Pairwise fun later earlier =>
    ∀ p ∈ earlier.paused, ∀ t ∈ later.granted, p.recorded + p.retry ≤ t
  reported : h.now < h.row.blockedUntil → ∃ e ∈ h.history, ∃ p ∈ e.paused, p.Explains h.row

lemma mem_granted {e : Entry} {t : ℚ} (h : t ∈ e.granted) : ∃ b, e = .grant t b := by
  cases e with
  | grant time b =>
    obtain rfl : time = t := Option.some_injective _ h
    exact ⟨b, rfl⟩
  | pause p => cases h

lemma mem_paused {e : Entry} {p : RecordedPause} (h : p ∈ e.paused) : e = .pause p := by
  cases e with
  | grant time b => cases h
  | pause q =>
    obtain rfl : q = p := Option.some_injective _ h
    rfl

lemma paced_step {h : Host} (hp : Paced h) (a : Act) : Paced (h.step a) := by
  cases effect_step h a with
  | untouched hrow hhistory =>
    refine ⟨fun t b hmem => ?_, fun t b hmem => ?_, ?_⟩
    · rw [hrow]
      exact hp.behind t b (hhistory ▸ hmem)
    · exact hp.unblocked t b (hhistory ▸ hmem)
    · rw [hhistory]
      exact hp.spaced
  | granted hfree hnext hrow hhistory =>
    have hmin : 0 < minIntervalSeconds := by norm_num [minIntervalSeconds]
    refine ⟨fun t b hmem => ?_, fun t b hmem => ?_, ?_⟩
    · rw [hhistory] at hmem
      rw [hrow]
      rcases List.mem_cons.1 hmem with heq | hmem
      · cases heq
        exact le_rfl
      · have hbehind := hp.behind t b hmem
        change t + minIntervalSeconds ≤ (h.step a).now + minIntervalSeconds
        linarith
    · rw [hhistory] at hmem
      rcases List.mem_cons.1 hmem with heq | hmem
      · cases heq
        exact hfree
      · exact hp.unblocked t b hmem
    · rw [hhistory]
      refine List.pairwise_cons.2 ⟨fun e he t ht t' ht' => ?_, hp.spaced⟩
      obtain ⟨b, rfl⟩ := mem_granted ht
      obtain rfl : (h.step a).now = t' := Option.some_injective _ ht'
      exact (hp.behind t b he).trans hnext
  | paused robots error retry pausedUntil _ _ hrow hhistory =>
    have hmem_grant {t b : ℚ} (hmem : .grant t b ∈ (h.step a).history) :
        .grant t b ∈ h.history := by
      rw [hhistory] at hmem
      rcases List.mem_cons.1 hmem with heq | hmem
      · cases heq
      · exact hmem
    refine ⟨fun t b hmem => ?_, fun t b hmem => hp.unblocked t b (hmem_grant hmem), ?_⟩
    · rw [hrow]
      exact hp.behind t b (hmem_grant hmem)
    · rw [hhistory]
      refine List.pairwise_cons.2 ⟨fun e _ t _ t' ht' => ?_, hp.spaced⟩
      cases ht'

lemma blockedUntil_step (h : Host) (a : Act) :
    h.row.blockedUntil ≤ (h.step a).row.blockedUntil := by
  cases effect_step h a with
  | untouched hrow hhistory => rw [hrow]
  | granted hfree hnext hrow hhistory => rw [hrow]
  | paused robots error retry pausedUntil _ _ hrow hhistory =>
    rw [hrow]
    exact le_max_left _ _

/-- The end of the block never moves back. -/
lemma blockedUntil_run (h : Host) (as : List Act) :
    h.row.blockedUntil ≤ (Runs.run Host.step h as).row.blockedUntil :=
  Runs.run_preserves (I := fun h' : Host => h.row.blockedUntil ≤ h'.row.blockedUntil)
    (fun h' a hle => hle.trans (blockedUntil_step h' a)) le_rfl as

lemma covered_step {h : Host} (hc : Covered h) {a : Act} (htimely : h.timely a) :
    Covered (h.step a) := by
  have hnow : h.now ≤ (h.step a).now := by
    rw [now_step]
    linarith [a.elapsed.2]
  cases effect_step h a with
  | untouched hrow hhistory =>
    refine ⟨fun p hmem => ?_, ?_, fun hblocked => ?_⟩
    · rw [hrow]
      exact hc.covered p (hhistory ▸ hmem)
    · rw [hhistory]
      exact hc.quiet
    · rw [hrow] at hblocked ⊢
      rw [hhistory]
      exact hc.reported (hnow.trans_lt hblocked)
  | granted hfree hnext hrow hhistory =>
    refine ⟨fun p hmem => ?_, ?_, fun hblocked => ?_⟩
    · rw [hhistory] at hmem
      rw [hrow]
      rcases List.mem_cons.1 hmem with heq | hmem
      · cases heq
      · exact hc.covered p hmem
    · rw [hhistory]
      refine List.pairwise_cons.2 ⟨fun e he p hp t ht => ?_, hc.quiet⟩
      obtain rfl := mem_paused hp
      obtain rfl : (h.step a).now = t := Option.some_injective _ ht
      exact (hc.covered p he).trans hfree
    · rw [hrow] at hblocked
      exact absurd hblocked hfree.not_gt
  | paused robots error retry pausedUntil hphase hmove hrow hhistory =>
    obtain ⟨hlasts, hsays⟩ : (h.wait a.elapsed).TimelyPause pausedUntil retry error := by
      simpa only [Host.timely, hphase, hmove, decide_eq_true_eq] using htimely
    have hwait : (h.wait a.elapsed).now = (h.step a).now := (now_step h a).symm
    rw [hwait] at hlasts hsays
    refine ⟨fun p hmem => ?_, ?_, fun hblocked => ?_⟩
    · rw [hhistory] at hmem
      rw [hrow]
      rcases List.mem_cons.1 hmem with heq | hmem
      · cases heq
        exact hlasts
      · exact (hc.covered p hmem).trans (le_max_left _ _)
    · rw [hhistory]
      refine List.pairwise_cons.2 ⟨fun e _ p _ t ht => ?_, hc.quiet⟩
      cases ht
    · rw [hhistory, hrow]
      rw [hrow] at hblocked
      by_cases hends : h.row.blockedUntil ≤ pausedUntil
      · -- the block ends with this pause
        refine ⟨_, List.mem_cons_self, _, rfl, ?_, rfl⟩
        exact (max_eq_right hends).le
      · have hmax : max h.row.blockedUntil pausedUntil = h.row.blockedUntil :=
          max_eq_left (not_le.1 hends).le
        change (h.step a).now < max h.row.blockedUntil pausedUntil at hblocked
        rw [hmax] at hblocked
        obtain ⟨e, he, p, hp, hexplains⟩ := hsays (not_le.1 hends) hblocked
        exact ⟨e, List.mem_cons_of_mem _ he, p, hp, hexplains⟩

lemma paced_start (now : Delay) : Paced (Host.start now) :=
  ⟨fun _ _ hmem => absurd hmem List.not_mem_nil, fun _ _ hmem => absurd hmem List.not_mem_nil,
    List.Pairwise.nil⟩

lemma covered_start (now : Delay) : Covered (Host.start now) :=
  ⟨fun _ hmem => absurd hmem List.not_mem_nil, List.Pairwise.nil,
    fun hblocked => absurd hblocked now.2.not_gt⟩

/-- In every run that records its pauses in time, the processes keep the etiquette, and the end of
the block never moves back. -/
theorem crawl_etiquette_of_timely_pauses (now : Delay) {as : List Act}
    (h : Runs.Along Host.step (fun h a => h.timely a) (Host.start now) as) :
    Etiquette (Runs.run Host.step (Host.start now) as) ∧
      ∀ bs, (Runs.run Host.step (Host.start now) as).row.blockedUntil ≤
        (Runs.run Host.step (Host.start now) (as ++ bs)).row.blockedUntil := by
  have hpaced : Paced (Runs.run Host.step (Host.start now) as) :=
    Runs.run_preserves (I := Paced) (fun h a hp => paced_step hp a) (paced_start now) as
  have hcovered : Covered (Runs.run Host.step (Host.start now) as) :=
    Runs.run_preserves_along (I := Covered) (fun h a hc ht => covered_step hc ht)
      (covered_start now) h
  refine ⟨⟨hpaced.spaced, hpaced.unblocked, hcovered.quiet, hcovered.reported⟩, fun bs => ?_⟩
  rw [Runs.run_append]
  exact blockedUntil_run _ bs

/-! ### Two refusals -/

def atOnce : Delay := ⟨0, le_rfl⟩

/-- A process calls and is given a slot. -/
def slotTaken (process : Nat) (elapsed : Delay) : List Act :=
  [⟨elapsed, process, .call true⟩, ⟨atOnce, process, .ask false false⟩]

/-- A process is refused, and records it at once. -/
def refusalRecorded (process code : Nat) (header : Option RetryAfter) (elapsed : Delay) :
    List Act :=
  [⟨elapsed, process, .respond (.http code header false false)⟩, ⟨atOnce, process, .readClock⟩,
   ⟨atOnce, process, .record false⟩]

/-- A refusal for half a minute, and a slot when it is over. -/
def politeRun : List Act :=
  slotTaken 0 ⟨1, by norm_num⟩ ++ refusalRecorded 0 429 (some (.seconds 30)) ⟨2, by norm_num⟩ ++
    slotTaken 1 ⟨30, by norm_num⟩

theorem politeRun_keeps_etiquette :
    Etiquette (Runs.run Host.step (Host.start ⟨1000, by norm_num⟩) politeRun) ∧
      ∀ bs, (Runs.run Host.step (Host.start ⟨1000, by norm_num⟩) politeRun).row.blockedUntil ≤
        (Runs.run Host.step (Host.start ⟨1000, by norm_num⟩) (politeRun ++ bs)).row.blockedUntil :=
  crawl_etiquette_of_timely_pauses ⟨1000, by norm_num⟩ (by decide +kernel)

/-- Two processes are refused one after the other, the first for longer. -/
def overlappingRefusals : List Act :=
  slotTaken 0 ⟨1, by norm_num⟩ ++ slotTaken 1 ⟨2, by norm_num⟩ ++
    refusalRecorded 0 403 (some (.seconds 3600)) ⟨1, by norm_num⟩ ++
    refusalRecorded 1 429 none ⟨1, by norm_num⟩

/-- The block is reported as the rate limit, which ends long before it. -/
theorem shorter_refusal_renames_block :
    ¬ Etiquette (Runs.run Host.step (Host.start ⟨1000, by norm_num⟩) overlappingRefusals) := by
  intro h
  have hreported := h.reported (by decide +kernel)
  revert hreported
  decide +kernel

end RentCompass.Scraping
