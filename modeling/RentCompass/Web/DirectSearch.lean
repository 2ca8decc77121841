import RentCompass.Fallible
import RentCompass.Web.SearchLine
import RentCompass.Store.Idempotency
import Mathlib.Data.Rat.Defs

/-!
# Direct searches and their repetition

The form sends criteria as JSON. They are checked, and a line is composed from them that is stored
as the message of the turn; a second request under the same id is taken for a repetition if its line
is the stored message.
-/

namespace RentCompass.Web

open Store

/-- The room types in their canonical order. -/
inductive RoomType where
  | whole
  | studio
  | ensuite
  | shared
deriving DecidableEq

def RoomType.name : RoomType → String
  | .whole => "whole"
  | .studio => "studio"
  | .ensuite => "ensuite"
  | .shared => "shared"

/-- `_ROOM_TYPE_ORDER` -/
def roomTypeOrder : List RoomType := [.whole, .studio, .ensuite, .shared]

/-- What the interpreter reads off texts and numbers. -/
structure FormRules (φ : Type) where
  /-- `str.lower` -/
  lower : Text → Text
  /-- `str` of a value that is no text. -/
  str : JsonValue φ → Text
  /-- `int(x)` where `x.is_integer()` -/
  wholeFloat : φ → Option Int
  nonzero : φ → Bool
  /-- `int` of a text. -/
  parseInt : Text → Option Int
  /-- `Decimal` of a text, where it is finite. -/
  parseDecimal : Text → Option ℚ
  /-- `float` of a decimal, as it is written: before and behind the point. -/
  roundFloat : ℚ → Nat × Digits
  /-- `^\d{4}-\d{2}-\d{2}$` -/
  isoShape : Text → Bool
  /-- `strptime` takes it. -/
  calendarDate : Text → Bool

variable {φ : Type} (rules : FormRules φ)

/-! ### Single criteria -/

/-- `str(value)` -/
def FormRules.textOf : JsonValue φ → Text
  | .str t => t
  | v => rules.str v

/-- `bool(value)` -/
def FormRules.truthy : JsonValue φ → Bool
  | .null => false
  | .bool b => b
  | .int n => n ≠ 0
  | .float x => rules.nonzero x
  | .str t => t ≠ []
  | .arr items => items.length ≠ 0
  | .obj fields => fields.length ≠ 0

/-- The message of an `ApiError` with status 400. -/
abbrev ApiError := String

/-- `_coerce_optional_int`, of a value that is given. -/
def coerceInt (v : JsonValue φ) (field : String) (minValue maxValue : Int) :
    Except ApiError Int := do
  let n ← match v with
    | .bool _ => throw (field ++ " must be an integer")
    | .float x =>
      match rules.wholeFloat x with
      | some n => pure n
      | none => throw (field ++ " must be a whole number")
    | .int n => pure n
    | v =>
      match rules.parseInt (rules.textOf v).strip with
      | some n => pure n
      | none => throw (field ++ " must be an integer")
  if n < minValue ∨ maxValue < n then
    throw (field ++ " must be between " ++ toString minValue ++ " and " ++ toString maxValue)
  else pure n

/-- The value is given: it is neither `None` nor `""`. -/
def given : Option (JsonValue φ) → Option (JsonValue φ)
  | some .null | some (.str []) => none
  | v => v

/-- `_coerce_optional_int` -/
def coerceOptionalInt (v : Option (JsonValue φ)) (field : String) (minValue maxValue : Int) :
    Except ApiError (Option Nat) :=
  match given v with
  | none => .ok none
  | some v => (coerceInt rules v field minValue maxValue).map fun n => some n.toNat

/-- `_coerce_optional_money` -/
def coerceOptionalMoney (v : Option (JsonValue φ)) (field : String) (minValue maxValue : Int) :
    Except ApiError (Option Amount) :=
  let error : ApiError := field ++ " must be an amount between " ++ toString minValue ++ " and " ++
    toString maxValue ++ " without rounding"
  match given v with
  | none => .ok none
  | some (.bool _) => .error error
  | some v =>
    match rules.parseDecimal (rules.textOf v).strip with
    | none => .error error
    | some amount =>
      if (minValue : ℚ) ≤ amount ∧ amount ≤ (maxValue : ℚ) then
        .ok (some (if amount.den = 1 then .whole amount.num.toNat
          else .fraction (rules.roundFloat amount).1 (rules.roundFloat amount).2))
      else .error error

/-- `_coerce_bool` -/
def coerceBool (v : Option (JsonValue φ)) : Bool :=
  match v with
  | none => false
  | some (.str t) =>
    rules.lower t.strip ∈ ["1", "true", "yes", "on"].map Text.ofString
  | some v => rules.truthy v

/-- `_coerce_optional_iso_date` -/
def coerceOptionalIsoDate (v : Option (JsonValue φ)) (field : String) :
    Except ApiError (Option Text) :=
  match given v with
  | none => .ok none
  | some (.str t) =>
    if t.strip = [] then .ok none
    else if !rules.isoShape t.strip then .error (field ++ " must be in YYYY-MM-DD format")
    else if !rules.calendarDate t.strip then .error (field ++ " is not a valid calendar date")
    else .ok (some t.strip)
  | some _ => .error (field ++ " must be a date string (YYYY-MM-DD)")

/-- A text that is not blank, stripped. -/
def stripped : Option (JsonValue φ) → Option Text
  | some (.str t) => if t.strip = [] then none else some t.strip
  | _ => none

/-! ### The criteria -/

/-- The criteria of a search as they are checked, and the language of the reply. -/
structure Criteria where
  area : Option Text
  areas : List Text
  maxBudget : Option Amount
  weekly : Bool
  bedrooms : Option Nat
  bedroomsMinimum : Bool
  roomTypes : List RoomType
  commuteDestination : Option Text
  maxCommuteTime : Option Nat
  noCommute : Bool
  moveInDate : Option Text
  language : Language
deriving DecidableEq

/-- The areas of the list, each once. -/
def areaList (v : Option (JsonValue φ)) : List Text :=
  match v with
  | some (.arr items) => items.foldl (fun areas item =>
      match stripped (some item) with
      | some a => if a ∈ areas then areas else areas ++ [a]
      | none => areas) []
  | _ => []

/-- The tokens of `room_type`, stripped and in lower case. -/
def roomTypeTokens (v : Option (JsonValue φ)) : List Text :=
  let tokens : List Text := match v with
    | some (.str t) => t.splitOn 43
    | some (.arr items) => items.map rules.textOf
    | _ => []
  (tokens.filter (·.strip ≠ [])).map fun t => rules.lower t.strip

/-- The room types the tokens name, in their order; none where a token names none. -/
def roomTypesOf (tokens : List Text) : List RoomType :=
  if tokens.all fun t => roomTypeOrder.any fun rt => Text.ofString rt.name = t then
    roomTypeOrder.filter fun rt => Text.ofString rt.name ∈ tokens
  else []

/-- `_normalize_ui_language` -/
def normalizeUiLanguage (v : Option (JsonValue φ)) : Language :=
  match v with
  | some (.str t) => if rules.lower t.strip = Text.ofString "zh" then .zh else .en
  | _ => .en

/-- The checks of `api_search_direct`. -/
def checkCriteria (uiLanguage : Option (JsonValue φ)) (criteria : Dict (JsonValue φ)) :
    Except ApiError Criteria := do
  let get (name : String) : Option (JsonValue φ) := criteria.get? (Text.ofString name)
  let listed := areaList (get "areas")
  let named := stripped (get "area")
  let area := named <|> listed.head?
  let areas := match named with
    | some a => if a ∈ listed then listed else a :: listed
    | none => listed
  let commuteDestination := stripped (get "commute_destination")
  if area = none ∧ commuteDestination = none then
    throw "area or commute_destination is required"
  let maxBudget ← coerceOptionalMoney rules (get "max_budget") "max_budget" 1 100000
  let bedrooms ← coerceOptionalInt rules (get "bedrooms") "bedrooms" 0 20
  let maxCommuteTime ← coerceOptionalInt rules (get "max_commute_time") "max_commute_time" 1 300
  let noCommute := coerceBool rules (get "no_commute")
  let period := match get "budget_period" with
    | some v => if rules.truthy v then rules.textOf v else Text.ofString "month"
    | none => Text.ofString "month"
  let moveInDate ← coerceOptionalIsoDate rules (get "move_in_date") "move_in_date"
  return {
    area := area
    areas := areas
    maxBudget := maxBudget
    weekly := rules.lower period.strip = Text.ofString "week"
    bedrooms := bedrooms
    bedroomsMinimum := coerceBool rules (get "bedrooms_minimum")
    roomTypes := roomTypesOf (roomTypeTokens rules (get "room_type"))
    commuteDestination := commuteDestination
    maxCommuteTime := if noCommute then none else maxCommuteTime
    noCommute := noCommute
    moveInDate := moveInDate
    language := normalizeUiLanguage rules uiLanguage }

/-- `_area_label` -/
def Criteria.label (c : Criteria) : Text :=
  (c.area <|> c.commuteDestination).getD
    (match c.language with
    | .zh => Text.ofString "你的区域"
    | .en => Text.ofString "your area")

def Criteria.parts (c : Criteria) : List Part :=
  searchParts c.maxBudget c.weekly c.bedrooms c.noCommute c.commuteDestination c.maxCommuteTime
    c.moveInDate

/-- The line of the search. -/
def Criteria.readable (c : Criteria) : Text := composeSearchLine c.label c.parts c.language

/-! ### The second request -/

/-- How `api_search_direct` answers, as far as the request id decides. -/
inductive DirectAnswer where
  /-- The turn of the id is given back. -/
  | replayed
  /-- 409, the id is of another request. -/
  | reused
  | started
  | refused
deriving DecidableEq

/-- `start_request_turn` -/
def startAnswer (p : Process) (now : Instant) (fresh : Id) (a : StartArgs) (db : Db) :
    DirectAnswer :=
  match (startRequestTurn p now fresh a db).1 with
  | .ok s => if s.replayed then .replayed else .started
  | .error (.idempotencyKeyReused _) => .reused
  | .error _ => .refused

/-- `api_search_direct` once the line is composed: it is the message of the start. The request id
is an identifier, which is its own key. -/
def searchDirectAnswer (p : Process) (now : Instant) (fresh : Id) (a : StartArgs) (db : Db) :
    DirectAnswer :=
  match getRequestTurn db a.userId a.key with
  | some t =>
    if requestMessageDiffers db a.userId t a.userContent then .reused
    else if requestTurnReplays db a.userId t then .replayed
    else startAnswer p now fresh a db
  | none => startAnswer p now fresh a db

/-- A request with the line `first` is recorded under an id, and one with the line `second` under
the same id is answered by replaying it. -/
def ReplayedFor (first second : Text) : Prop :=
  ∃ (as : List Action) (s : Start) (p : Process) (now : Instant) (a : StartArgs),
    (World.after as).history.latest a.userId a.key = some s ∧ s.userContent = first ∧
      (∃ t ∈ (World.after as).db.turns, t.id = s.turnId) ∧ a.userContent = second ∧
      searchDirectAnswer p now (World.after as).nextId a (World.after as).db = .replayed

/-- A turn with an answer is given back to a request with its message. -/
lemma searchDirectAnswer_of_same {p : Process} {now : Instant} {fresh : Id} {a : StartArgs}
    {db : Db} {t : Turn} (hnamed : getRequestTurn db a.userId a.key = some t)
    (hdiffers : requestMessageDiffers db a.userId t a.userContent = false)
    (hreplays : requestTurnReplays db a.userId t = true) :
    searchDirectAnswer p now fresh a db = .replayed := by
  rw [searchDirectAnswer, hnamed]
  simp [hdiffers, hreplays]

/-- A recorded search followed by its answer. -/
def recordedRun (line : Text) : List Action :=
  [.startRequestTurn sampleProcess 0 { sampleStart with userContent := line },
   .finalizeRequestTurn 1 sampleStart.userId 0 (sampleAnswer 0)]

/-- A request is replayed for another just if its stored line is the line of the other. -/
theorem replayedFor_iff {first second : Text} :
    ReplayedFor first second ↔ safeText first = second := by
  constructor
  · rintro ⟨as, s, p, now, a, hlatest, rfl, ⟨t, ht, hid⟩, rfl, hanswer⟩
    have h := requests_after as
    have hmem := List.mem_of_getLast? hlatest
    obtain ⟨hsm, hkeys⟩ := List.mem_filter.1 hmem
    obtain ⟨hsu, hskey⟩ : s.userId = a.userId ∧ s.requestId = a.key := by simpa using hkeys
    obtain ⟨htu, hasked⟩ := h.asked s hsm t ht hid
    have htu' : t.userId = a.userId := htu.trans hsu
    have hnamed := h.getRequestTurn (coherent_after as).flight.turnIds ht htu'
      (h.latest _ _ s hlatest t ht hid)
    have hdiffers : requestMessageDiffers (World.after as).db a.userId t a.userContent =
        decide (safeText s.userContent ≠ a.userContent) := h.requestMessageDiffers_eq htu' hasked
    by_contra hne
    rw [decide_eq_true hne] at hdiffers
    rw [searchDirectAnswer, hnamed] at hanswer
    simp only [hdiffers, if_true] at hanswer
    cases hanswer
  · rintro rfl
    have h := requests_after (recordedRun first)
    obtain ⟨t, ht, hnamed, huser, hid, hdone⟩ : ∃ t ∈ (World.after (recordedRun first)).db.turns,
        getRequestTurn (World.after (recordedRun first)).db sampleStart.userId sampleStart.key =
          some t ∧ t.userId = sampleStart.userId ∧ t.id = 0 ∧ t.status = .completed :=
      ⟨_, List.mem_cons_self, rfl, rfl, rfl, rfl⟩
    have hasked := (h.asked ⟨sampleStart.userId, sampleStart.key, first, 0⟩ List.mem_cons_self t ht
      hid).2
    have hdiffers : requestMessageDiffers (World.after (recordedRun first)).db sampleStart.userId t
        (safeText first) = decide (safeText first ≠ safeText first) :=
      h.requestMessageDiffers_eq huser hasked
    rw [decide_eq_false (not_not_intro rfl)] at hdiffers
    refine ⟨recordedRun first, ⟨sampleStart.userId, sampleStart.key, first, 0⟩, sampleProcess, 2,
      { sampleStart with userContent := safeText first }, rfl, rfl, ⟨t, ht, hid⟩, rfl, ?_⟩
    have hreplays : requestTurnReplays (World.after (recordedRun first)).db sampleStart.userId t =
        true := by
      rw [requestTurnReplays, hdone]
    exact searchDirectAnswer_of_same hnamed hdiffers hreplays

/-! ### The same search -/

/-- The two ask for the same search. -/
structure SameSearch (c c' : Criteria) : Prop where
  areas : c.areas = c'.areas
  budget : c.maxBudget = c'.maxBudget ∧ c.weekly = c'.weekly
  bedrooms : c.bedrooms = c'.bedrooms ∧ c.bedroomsMinimum = c'.bedroomsMinimum
  roomTypes : c.roomTypes = c'.roomTypes
  commute : c.commuteDestination = c'.commuteDestination ∧ c.maxCommuteTime = c'.maxCommuteTime ∧
    c.noCommute = c'.noCommute
  moveInDate : c.moveInDate = c'.moveInDate

/-- The parts as the store keeps them. -/
def storedParts (parts : List Part) : List Part := parts.map fun p => (p.1, safeText p.2)

/-- The stored line of the first reads like the line of the second. -/
def ReadsAlike (c c' : Criteria) : Prop :=
  c.language = c'.language ∧
    Alike c.language (safeText c.label) (storedParts c.parts) c'.label c'.parts

/-- Only characters that the store keeps. -/
lemma storable_of_lt {t : Text} (h : ∀ c ∈ t, c < 0xD800 ∨ 0xDFFF < c) : t.Storable := by
  intro c hc
  have := h c hc
  simp only [Text.isSurrogate, Bool.and_eq_false_iff, decide_eq_false_iff_not]
  omega

lemma storable_of_digits {t : Text} (h : ∀ c ∈ t, JsonValue.isDigit c) : t.Storable := by
  refine storable_of_lt fun c hc => ?_
  have hdigit := h c hc
  simp only [JsonValue.isDigit, Bool.and_eq_true, decide_eq_true_eq] at hdigit
  omega

lemma storable_decimal (n : Nat) : (JsonValue.decimal n).Storable :=
  storable_of_digits (isDigit_decimal n)

lemma storable_append {t u : Text} (ht : t.Storable) (hu : u.Storable) :
    Text.Storable (t ++ u) := fun c hc => (List.mem_append.1 hc).elim (ht c) (hu c)

lemma storable_cons {c : Nat} {t : Text} (hc : Text.isSurrogate c = false)
    (ht : t.Storable) : Text.Storable (c :: t) := fun d hd => by
  rcases List.mem_cons.1 hd with rfl | hd
  · exact hc
  · exact ht d hd

lemma Key.text_storable (l : Language) (k : Key) : (k.text l).Storable := by
  have hphrase {t : Text} (h : t.all fun c => !Text.isSurrogate c) : t.Storable := by
    simpa [Text.Storable] using h
  cases k with
  | budget amount weekly =>
    refine storable_cons rfl (storable_cons rfl (storable_append ?_
      (storable_cons rfl (hphrase ?_))))
    · cases amount with
      | whole n => exact storable_decimal n
      | fraction n digits =>
        refine storable_append (storable_decimal n) (storable_cons rfl ?_)
        exact storable_of_digits digits.2
    · cases l <;> cases weekly <;> decide
  | bedrooms n =>
    refine storable_append (storable_decimal n) (hphrase ?_)
    cases l <;> decide
  | noCommute => exact hphrase (by cases l <;> decide)
  | within minutes =>
    refine storable_cons rfl (storable_append (storable_decimal minutes) (hphrase ?_))
    cases l <;> decide
  | destination => exact hphrase (by cases l <;> decide)
  | moveIn => exact hphrase (by cases l <;> decide)

lemma safeText_eq (t : Text) : safeText t = t.replaceSurrogates := by
  rw [safeText]
  split
  · rfl
  · next h => exact (Text.replaceSurrogates_of_storable (by simpa [Text.Storable] using h)).symm

lemma safeText_append (t u : Text) : safeText (t ++ u) = safeText t ++ safeText u := by
  rw [safeText_eq, safeText_eq, safeText_eq]
  exact List.flatMap_append

lemma safeText_partsText (l : Language) (ps : List Part) :
    safeText (partsText l ps) = partsText l (storedParts ps) := by
  induction ps with
  | nil => rfl
  | cons p ps ih =>
    rw [storedParts, List.map_cons, partsText_cons, partsText_cons, safeText_append,
      safeText_append, safeText_append, ih, safeText_of_storable (Key.text_storable l p.1)]
    rfl

/-- The store keeps the words of a line, and its free texts each for itself. -/
lemma safeText_readable (x : Text) (ps : List Part) (l : Language) :
    safeText (composeSearchLine x ps l) = composeSearchLine (safeText x) (storedParts ps) l := by
  have hopening : safeText l.phrases.opening = l.phrases.opening := by
    cases l <;> decide
  rw [composeSearchLine, composeSearchLine, safeText_append, safeText_append, hopening,
    safeText_partsText]

/-- A request is replayed for another just if the two read alike. -/
lemma replayedFor_readable_iff {c c' : Criteria} :
    ReplayedFor c.readable c'.readable ↔ ReadsAlike c c' := by
  rw [replayedFor_iff, Criteria.readable, Criteria.readable, safeText_readable,
    composeSearchLine_eq_iff]
  exact and_congr_right fun h => by rw [h]

/-! ### The criteria behind the parts -/

/-- Where a list goes from one kind of members to the other is determined. -/
lemma append_inj_of_kind {α : Type} {p : α → Bool} {xs xs' ys ys' : List α}
    (hxs : ∀ x ∈ xs, p x = true) (hys : ∀ y ∈ ys, p y = false) (hxs' : ∀ x ∈ xs', p x = true)
    (hys' : ∀ y ∈ ys', p y = false) (h : xs ++ ys = xs' ++ ys') : xs = xs' ∧ ys = ys' := by
  have hfilter {us vs : List α} (hus : ∀ x ∈ us, p x = true) (hvs : ∀ y ∈ vs, p y = false) :
      (us ++ vs).filter p = us := by
    rw [List.filter_append, List.filter_eq_self.2 hus,
      List.filter_eq_nil_iff.2 fun y hy => by simp [hvs y hy], List.append_nil]
  have heq : xs = xs' := by rw [← hfilter hxs hys, h, hfilter hxs' hys']
  subst heq
  exact ⟨rfl, List.append_cancel_left h⟩

lemma kind_of_mem_budgetParts {b : Option Amount} {w : Bool} {p : Part}
    (hp : p ∈ budgetParts b w) : p.1.kind = .budget := by
  obtain ⟨amount, -, rfl⟩ := Option.map_eq_some_iff.1 (Option.mem_toList.1 hp)
  rfl

lemma kind_of_mem_bedroomParts {b : Option Nat} {p : Part} (hp : p ∈ bedroomParts b) :
    p.1.kind = .bedrooms := by
  obtain ⟨n, -, rfl⟩ := Option.map_eq_some_iff.1 (Option.mem_toList.1 hp)
  rfl

lemma kind_of_mem_commuteParts {nc : Bool} {d : Option Text} {m : Option Nat} {p : Part}
    (hp : p ∈ commuteParts nc d m) :
    p.1.kind ∈ [KeyKind.noCommute, .within, .destination] := by
  rw [commuteParts] at hp
  split at hp
  · obtain rfl := List.mem_singleton.1 hp
    decide
  · obtain ⟨t, -, rfl⟩ := Option.map_eq_some_iff.1 (Option.mem_toList.1 hp)
    cases m <;> simp [Key.kind]

lemma kind_of_mem_moveInParts {d : Option Text} {p : Part} (hp : p ∈ moveInParts d) :
    p.1.kind = .moveIn := by
  obtain ⟨t, -, rfl⟩ := Option.map_eq_some_iff.1 (Option.mem_toList.1 hp)
  rfl

/-- The parts of each kind are the same where all are. -/
lemma searchParts_inj {b b' : Option Amount} {w w' : Bool} {n n' : Option Nat} {nc nc' : Bool}
    {d d' : Option Text} {m m' : Option Nat} {t t' : Option Text}
    (h : searchParts b w n nc d m t = searchParts b' w' n' nc' d' m' t') :
    budgetParts b w = budgetParts b' w' ∧ bedroomParts n = bedroomParts n' ∧
      commuteParts nc d m = commuteParts nc' d' m' ∧ moveInParts t = moveInParts t' := by
  have hmoveIn {t : Option Text} {k : KeyKind} (hk : k ≠ .moveIn) :
      ∀ p ∈ moveInParts t, decide (p.1.kind = k) = false := fun p hp => by
    simp [kind_of_mem_moveInParts hp, hk.symm]
  have hcommute {nc : Bool} {d : Option Text} {m : Option Nat} {k : KeyKind}
      (hk : k ∉ [KeyKind.noCommute, .within, .destination]) :
      ∀ p ∈ commuteParts nc d m, decide (p.1.kind = k) = false := fun p hp =>
    decide_eq_false fun heq => hk (heq ▸ kind_of_mem_commuteParts hp)
  have hbehind {nc : Bool} {d : Option Text} {m : Option Nat} {t : Option Text} {k : KeyKind}
      (hk : k ∉ [KeyKind.noCommute, .within, .destination, .moveIn]) :
      ∀ p ∈ commuteParts nc d m ++ moveInParts t, decide (p.1.kind = k) = false := fun p hp =>
    (List.mem_append.1 hp).elim (hcommute (fun hmem => hk (by grind)) p)
      (hmoveIn (fun heq => hk (by grind)) p)
  have hbedrooms {n : Option Nat} {nc : Bool} {d : Option Text} {m : Option Nat}
      {t : Option Text} : ∀ p ∈ bedroomParts n ++ (commuteParts nc d m ++ moveInParts t),
      decide (p.1.kind = .budget) = false := fun p hp => by
    rcases List.mem_append.1 hp with hp | hp
    · simp [kind_of_mem_bedroomParts hp]
    · exact hbehind (by decide) p hp
  obtain ⟨hb, hrest⟩ := append_inj_of_kind (p := fun p : Part => decide (p.1.kind = .budget))
    (fun p hp => decide_eq_true (kind_of_mem_budgetParts hp)) hbedrooms
    (fun p hp => decide_eq_true (kind_of_mem_budgetParts hp)) hbedrooms h
  obtain ⟨hn, hrest⟩ := append_inj_of_kind (p := fun p : Part => decide (p.1.kind = .bedrooms))
    (fun p hp => decide_eq_true (kind_of_mem_bedroomParts hp)) (hbehind (by decide))
    (fun p hp => decide_eq_true (kind_of_mem_bedroomParts hp)) (hbehind (by decide)) hrest
  have hcommutes {nc : Bool} {d : Option Text} {m : Option Nat} :
      ∀ p ∈ commuteParts nc d m, decide (p.1.kind ≠ .moveIn) = true := fun p hp =>
    decide_eq_true fun heq => absurd (heq ▸ kind_of_mem_commuteParts hp) (by decide)
  have hdates {t : Option Text} : ∀ p ∈ moveInParts t, decide (p.1.kind ≠ .moveIn) = false :=
    fun p hp => decide_eq_false (not_not_intro (kind_of_mem_moveInParts hp))
  obtain ⟨hc, ht⟩ := append_inj_of_kind (p := fun p : Part => decide (p.1.kind ≠ .moveIn))
    hcommutes hdates hcommutes hdates hrest
  exact ⟨hb, hn, hc, ht⟩

lemma budgetParts_inj {b b' : Option Amount} {w w' : Bool}
    (h : budgetParts b w = budgetParts b' w') : b = b' ∧ (b ≠ none → w = w') := by
  cases b <;> cases b' <;> simp_all [budgetParts]

lemma bedroomParts_inj {n n' : Option Nat} (h : bedroomParts n = bedroomParts n') : n = n' := by
  cases n <;> cases n' <;> simp_all [bedroomParts]

lemma moveInParts_inj {t t' : Option Text} (ht : t ≠ some []) (ht' : t' ≠ some [])
    (h : moveInParts t = moveInParts t') : t = t' := by
  cases t <;> cases t' <;> simp_all [moveInParts, Option.filter]

/-- The commute is read off its part, but for what a search with no commute names. -/
lemma commuteParts_inj {nc nc' : Bool} {d d' : Option Text} {m m' : Option Nat}
    (hd : d ≠ some []) (hd' : d' ≠ some []) (h : commuteParts nc d m = commuteParts nc' d' m') :
    nc = nc' ∧ (nc = false → d = d' ∧ (d ≠ none → m = m')) := by
  have hfilter {t : Option Text} (ht : t ≠ some []) : t.filter (· ≠ []) = t := by
    cases t with
    | none => rfl
    | some t => simp_all [Option.filter]
  rw [commuteParts, commuteParts, hfilter hd, hfilter hd'] at h
  cases nc <;> cases nc' <;> cases d <;> cases d' <;> cases m <;> cases m' <;> simp_all

/-! ### Checked criteria -/

/-- What the checks leave: no text is empty, and a search with no commute has no limit. -/
structure Checked (c : Criteria) : Prop where
  destination : c.commuteDestination ≠ some []
  moveInDate : c.moveInDate ≠ some []
  limit : c.noCommute = true → c.maxCommuteTime = none

lemma stripped_ne_empty (v : Option (JsonValue φ)) : stripped v ≠ some [] := by
  unfold stripped
  split
  · split
    · simp
    · next h => exact fun heq => h (Option.some.inj heq)
  · simp

lemma coerceOptionalIsoDate_ne_empty {v : Option (JsonValue φ)} {field : String} {d : Option Text}
    (h : coerceOptionalIsoDate rules v field = .ok d) : d ≠ some [] := by
  rw [coerceOptionalIsoDate] at h
  split at h
  · cases h
    simp
  · next t _ =>
    by_cases hblank : t.strip = []
    · rw [if_pos hblank] at h
      cases h
      simp
    · rw [if_neg hblank] at h
      split at h
      · cases h
      · split at h
        · cases h
        · cases h
          exact fun heq => hblank (Option.some.inj heq)
  · cases h

lemma checkCriteria_spec {ui : Option (JsonValue φ)} {criteria : Dict (JsonValue φ)} {c : Criteria}
    (h : checkCriteria rules ui criteria = .ok c) : Checked c := by
  simp only [checkCriteria] at h
  split at h
  · cases h
  · obtain ⟨_, -, h⟩ := Except.bind_eq_ok.1 h
    obtain ⟨_, -, h⟩ := Except.bind_eq_ok.1 h
    obtain ⟨_, -, h⟩ := Except.bind_eq_ok.1 h
    obtain ⟨date, hdate, h⟩ := Except.bind_eq_ok.1 h
    obtain rfl := Except.pure_eq_ok.1 h
    exact {
      destination := stripped_ne_empty _
      moveInDate := coerceOptionalIsoDate_ne_empty rules hdate
      limit := fun hnone => if_pos hnone }

/-! ### When a replay is of the same search -/

/-- The two agree in what a line does not say, and their free texts end where they seem to. -/
structure AgreesBeyondLine (c c' : Criteria) : Prop where
  /-- No free text of one goes on with what are parts of the other. -/
  parts : storedParts c.parts = c'.parts
  /-- The store keeps the free texts of the parts as they are. -/
  storable : ∀ p ∈ c.parts, p.2.Storable
  areas : c.areas = c'.areas
  period : c.maxBudget = none → c.weekly = c'.weekly
  minimum : c.bedroomsMinimum = c'.bedroomsMinimum
  roomTypes : c.roomTypes = c'.roomTypes
  destination : c.noCommute = true → c.commuteDestination = c'.commuteDestination
  limit : c.noCommute = false → c.commuteDestination = none →
    c.maxCommuteTime = c'.maxCommuteTime

lemma storedParts_of_storable {parts : List Part} (h : ∀ p ∈ parts, p.2.Storable) :
    storedParts parts = parts := by
  refine (List.map_congr_left fun p hp => ?_).trans (List.map_id parts)
  rw [safeText_of_storable (h p hp)]
  rfl

/-- Criteria that agree beyond the line, of lines that read alike, are those of one search. -/
lemma SameSearch.of_agrees {c c' : Criteria} (hc : Checked c) (hc' : Checked c')
    (h : AgreesBeyondLine c c') : SameSearch c c' := by
  have hparts : c.parts = c'.parts := (storedParts_of_storable h.storable).symm.trans h.parts
  obtain ⟨hbudget, hbedrooms, hcommute, hmoveIn⟩ := searchParts_inj hparts
  obtain ⟨hamount, hperiod⟩ := budgetParts_inj hbudget
  obtain ⟨hnone, hsome⟩ := commuteParts_inj hc.destination hc'.destination hcommute
  exact {
    areas := h.areas
    budget := ⟨hamount, (em (c.maxBudget = none)).elim h.period hperiod⟩
    bedrooms := ⟨bedroomParts_inj hbedrooms, h.minimum⟩
    roomTypes := h.roomTypes
    commute := by
      cases hcommutes : c.noCommute with
      | true =>
        refine ⟨h.destination hcommutes, ?_, hcommutes.symm.trans hnone⟩
        rw [hc.limit hcommutes, hc'.limit (hnone ▸ hcommutes)]
      | false =>
        obtain ⟨hdestination, hlimit⟩ := hsome hcommutes
        exact ⟨hdestination, (em (c.commuteDestination = none)).elim (h.limit hcommutes) hlimit,
          hcommutes.symm.trans hnone⟩
    moveInDate := moveInParts_inj hc.moveInDate hc'.moveInDate hmoveIn }

lemma SameSearch.parts_eq {c c' : Criteria} (h : SameSearch c c') : c.parts = c'.parts := by
  rw [Criteria.parts, Criteria.parts, h.budget.1, h.budget.2, h.bedrooms.1, h.commute.1,
    h.commute.2.1, h.commute.2.2, h.moveInDate]

/-- What reads like a stored line has only characters that the store keeps. -/
lemma ReadsAlike.storable {c c' : Criteria} (h : ReadsAlike c c') :
    ∀ p ∈ c'.parts, p.2.Storable := by
  intro p hp d hd
  have htext := h.2.text_eq
  rw [← safeText_partsText, ← safeText_append] at htext
  have hstorable := safeText_storable (c.label ++ partsText c.language c.parts)
  rw [htext] at hstorable
  refine hstorable d (List.mem_append_right _ (List.mem_flatMap.2 ⟨p, hp, ?_⟩))
  exact List.mem_append_right _ hd

/-- The lines of one search that read alike are the same in their parts. -/
lemma SameSearch.agrees {c c' : Criteria} (h : SameSearch c c') (halike : ReadsAlike c c') :
    AgreesBeyondLine c c' := by
  have hstorable : ∀ p ∈ c.parts, p.2.Storable := h.parts_eq ▸ halike.storable
  exact {
    parts := (storedParts_of_storable hstorable).trans h.parts_eq
    storable := hstorable
    areas := h.areas
    period := fun _ => h.budget.2
    minimum := h.bedrooms.2
    roomTypes := h.roomTypes
    destination := fun _ => h.commute.1
    limit := fun _ _ => h.commute.2.1 }

/-- Of two requests that pass the checks, the second is replayed for the first only as the same
search just if they agree beyond the line wherever they read alike. -/
theorem direct_search_replay_iff {ui ui' : Option (JsonValue φ)}
    {criteria criteria' : Dict (JsonValue φ)} {c c' : Criteria}
    (hc : checkCriteria rules ui criteria = .ok c)
    (hc' : checkCriteria rules ui' criteria' = .ok c') :
    (ReplayedFor c.readable c'.readable → SameSearch c c') ↔
      (ReadsAlike c c' → AgreesBeyondLine c c') := by
  rw [replayedFor_readable_iff]
  constructor
  · intro hsame halike
    exact (hsame halike).agrees halike
  · intro hagrees halike
    exact SameSearch.of_agrees (checkCriteria_spec rules hc) (checkCriteria_spec rules hc')
      (hagrees halike)

/-- Rules that read the texts of the searches below as the interpreter does. -/
def plainRules : FormRules NonFinite where
  lower t := t.map fun c => if 65 ≤ c ∧ c ≤ 90 then c + 32 else c
  str _ := []
  wholeFloat _ := none
  nonzero _ := true
  parseInt _ := none
  parseDecimal _ := none
  roundFloat _ := (0, ⟨[], by simp⟩)
  isoShape _ := false
  calendarDate _ := false

def camdenRequest : Dict (JsonValue NonFinite) :=
  [(Text.ofString "area", .str (Text.ofString " Camden ")),
   (Text.ofString "bedrooms", .int 2)]

/-- The same, but for studios only. -/
def camdenStudioRequest : Dict (JsonValue NonFinite) :=
  camdenRequest ++ [(Text.ofString "room_type", .str (Text.ofString "Studio"))]

def camdenSearch : Criteria where
  area := some (Text.ofString "Camden")
  areas := [Text.ofString "Camden"]
  maxBudget := none
  weekly := false
  bedrooms := some 2
  bedroomsMinimum := false
  roomTypes := []
  commuteDestination := none
  maxCommuteTime := none
  noCommute := false
  moveInDate := none
  language := .en

def camdenStudioSearch : Criteria := { camdenSearch with roomTypes := [.studio] }

lemma camdenSearch_checked :
    checkCriteria plainRules none camdenRequest = .ok camdenSearch := by rfl

lemma camdenStudioSearch_checked :
    checkCriteria plainRules none camdenStudioRequest = .ok camdenStudioSearch := by rfl

theorem camden_replay_iff :
    (ReplayedFor camdenSearch.readable camdenStudioSearch.readable →
      SameSearch camdenSearch camdenStudioSearch) ↔
    (ReadsAlike camdenSearch camdenStudioSearch →
      AgreesBeyondLine camdenSearch camdenStudioSearch) :=
  direct_search_replay_iff plainRules camdenSearch_checked camdenStudioSearch_checked

/-- The room types are in no line, so the search for studios is answered by the other one. -/
theorem studio_search_replays_other :
    checkCriteria plainRules none camdenRequest = .ok camdenSearch ∧
    checkCriteria plainRules none camdenStudioRequest = .ok camdenStudioSearch ∧
    ReplayedFor camdenSearch.readable camdenStudioSearch.readable ∧
    ¬ SameSearch camdenSearch camdenStudioSearch := by
  refine ⟨camdenSearch_checked, camdenStudioSearch_checked, ?_, fun h => ?_⟩
  · have hstorable : camdenSearch.readable.Storable := by decide +kernel
    exact replayedFor_iff.2 (safeText_of_storable hstorable)
  · exact absurd h.roomTypes (by decide)

end RentCompass.Web
