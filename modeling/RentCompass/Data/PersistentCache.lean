import RentCompass.Json.RoundTrip
import RentCompass.Oldest
import RentCompass.Rows
import RentCompass.Runs

/-!
# The persistent cache

Values are kept in a table of JSON texts, each with the time it was stored, when it expires and
its version. Whoever reads says how old a value may be, and of which version; what has expired is
still given, but marked. In a table that was written by `set` alone a read tells exactly what the
last `set` of its key says, unless its row was evicted, and what is evicted was used before all
that stays.
-/

namespace RentCompass.Data

open Rows

/-! ### Values -/

/-- Times as floats, and what `float` makes of the numbers of a JSON text. -/
class Times (φ : Type) [FloatFormat φ] (T : Type) [LinearOrder T] where
  float : T → φ
  ofFloat : φ → T
  ofInt : ℤ → T
  add : T → T → T
  isFinite_float : ∀ t, FloatFormat.isFinite (float t) = true
  ofFloat_float : ∀ t, ofFloat (float t) = t

variable {φ T : Type} [FloatFormat φ] [LinearOrder T] [Times φ T]

inductive CacheStatus where
  | miss
  | fresh
  | stale
  | corrupt
  deriving DecidableEq

structure CacheEntry (φ T : Type) where
  status : CacheStatus
  value : JsonValue φ
  storedAt : Option T
  expiresAt : Option T
  version : Option Text
  provenance : Dict (JsonValue φ)
  reason : Option Text
  legacy : Bool

/-- What a reader asks for. -/
structure Ask (T : Type) where
  ttlSeconds : Option T
  version : Option Text
  now : T

def cacheEnvelopeMarker : Text := "uk_rent_agent_cache"

/-- `stored_at + max(0.0, ttl)` -/
def expiry (φ : Type) [FloatFormat φ] [Times φ T] (storedAt ttl : T) : T :=
  Times.add φ storedAt (max (Times.ofInt φ 0) ttl)

namespace CacheEntry

def miss : CacheEntry φ T := ⟨.miss, .null, none, none, none, [], none, false⟩

def corrupt (reason : Text) : CacheEntry φ T :=
  ⟨.corrupt, .null, none, none, none, [], some reason, false⟩

/-- A value without an envelope. -/
def legacyOf (payload : JsonValue φ) (ask : Ask T) : CacheEntry φ T :=
  if ask.ttlSeconds.isSome || ask.version.isSome then
    ⟨.stale, payload, none, none, none, [], some "legacy_entry_has_no_freshness_metadata", true⟩
  else ⟨.fresh, payload, none, none, none, [], none, true⟩

end CacheEntry

/-- The fields of an envelope. -/
structure Envelope (φ T : Type) where
  version : Text
  storedAt : T
  expiresAt : Option T
  provenance : Dict (JsonValue φ)
  value : JsonValue φ

/-- `isinstance(v, (int, float))` and `float(v)`; a bool is an int. -/
def number : JsonValue φ → Option T
  | .int n => some (Times.ofInt φ n)
  | .float x => some (Times.ofFloat x)
  | .bool b => some (Times.ofInt φ (if b then 1 else 0))
  | _ => none

/-- `payload.get("_cache_envelope") == _CACHE_ENVELOPE_MARKER` -/
def isMarked (fields : Dict (JsonValue φ)) : Bool :=
  match fields.get? "_cache_envelope" with
  | some (.str s) => s = cacheEnvelopeMarker
  | _ => false

/-- `payload.get("schema") == CACHE_ENVELOPE_SCHEMA` -/
def isSchema (T : Type) [LinearOrder T] [Times φ T] (fields : Dict (JsonValue φ)) : Bool :=
  ((fields.get? "schema").bind number) = some (Times.ofInt φ 1 : T)

def expiresOf : Option (JsonValue φ) → Option (Option T)
  | none | some .null => some none
  | some v => (number v).map some

def versionOf : Option (JsonValue φ) → Option Text
  | some (.str s) => some s
  | _ => none

def provenanceOf : Option (JsonValue φ) → Option (Dict (JsonValue φ))
  | none => some []
  | some (.obj provenance) => some provenance
  | _ => none

/-- The checked fields. -/
def envelopeOf (fields : Dict (JsonValue φ)) : Option (Envelope φ T) := do
  let storedAt ← (fields.get? "stored_at").bind number
  let expiresAt ← expiresOf (fields.get? "expires_at")
  let version ← versionOf (fields.get? "version")
  let provenance ← provenanceOf (fields.get? "provenance")
  let value ← fields.get? "value"
  return ⟨version, storedAt, expiresAt, provenance, value⟩

/-- The answer that an envelope gives. -/
def Envelope.judge (e : Envelope φ T) (ask : Ask T) : CacheEntry φ T :=
  let common := fun status reason =>
    (⟨status, e.value, some e.storedAt, e.expiresAt, some e.version, e.provenance, reason, false⟩ :
      CacheEntry φ T)
  if ask.version.any (e.version ≠ ·) then common .stale (some "version_mismatch")
  else
    let effective :=
      match ask.ttlSeconds, e.expiresAt with
      | none, expiresAt => expiresAt
      | some ttl, none => some (expiry φ e.storedAt ttl)
      | some ttl, some expiresAt => some (min expiresAt (expiry φ e.storedAt ttl))
    if effective.any (· ≤ ask.now) then common .stale (some "expired") else common .fresh none

/-- What the text of a row says. -/
def examine (t : Text) (ask : Ask T) : CacheEntry φ T :=
  match JsonValue.loads (φ := φ) t with
  | none => .corrupt "invalid_json:JSONDecodeError"
  | some (.obj fields) =>
    if !isMarked fields then .legacyOf (.obj fields) ask
    else if !isSchema T fields then .corrupt "unsupported_envelope_schema"
    else
      match envelopeOf fields with
      | none => .corrupt "invalid_envelope_fields"
      | some e => e.judge ask
  | some payload => .legacyOf payload ask

/-! ### The table -/

/-- A row of `cache`. -/
structure CacheRow (T : Type) where
  key : Text
  value : Text
  accessed : T

/-- What a `set` stores; what `json.dumps` refuses never gets there. -/
structure Write (φ T : Type) [FloatFormat φ] where
  value : JsonValue φ
  ttlSeconds : Option T
  version : Text
  provenance : Dict (JsonValue φ)
  storedAt : T
  distinct : value.distinctKeys = true ∧ (JsonValue.obj provenance).distinctKeys = true
  finite : value.finite = true ∧ (JsonValue.obj provenance).finite = true

def Write.expiresAt (w : Write φ T) : Option T := w.ttlSeconds.map (expiry φ w.storedAt)

def Write.envelope (w : Write φ T) : JsonValue φ :=
  .obj [("_cache_envelope", .str cacheEnvelopeMarker), ("schema", .int 1), ("version", .str w.version),
    ("stored_at", .float (Times.float w.storedAt)),
    ("expires_at", (w.expiresAt.map fun t => .float (Times.float t)).getD .null),
    ("provenance", .obj w.provenance), ("value", w.value)]

def Write.payload (w : Write φ T) : Text := w.envelope.dumps .default

/-- The entry of a key, and the table behind the read. -/
def read (rows : List (CacheRow T)) (key : Text) (ask : Ask T) (time : T) :
    CacheEntry φ T × List (CacheRow T) :=
  match selectOne (·.key = key) rows with
  | none => (.miss, rows)
  | some row =>
    (examine row.value ask, updateWhere (·.key = key) ({ · with accessed := time }) rows)

/-- `INSERT … ON CONFLICT(key) DO UPDATE` -/
def upsert (rows : List (CacheRow T)) (row : CacheRow T) : List (CacheRow T) :=
  if row.key ∈ rows.map (·.key) then updateWhere (·.key = row.key) (fun _ => row) rows
  else rows ++ [row]

/-- `set`, where `maxEntries` rows are kept at most. -/
def set (maxEntries : ℕ) (rows : List (CacheRow T)) (key : Text) (w : Write φ T) (time : T) :
    List (CacheRow T) :=
  Oldest.evict CacheRow.key CacheRow.accessed maxEntries (upsert rows ⟨key, w.payload, time⟩)

/-- A transaction of some process, and the clock it reads. -/
inductive CacheOp (φ T : Type) [FloatFormat φ] where
  | read (key : Text) (ask : Ask T) (time : T)
  | set (key : Text) (w : Write φ T) (time : T)

def step (maxEntries : ℕ) (rows : List (CacheRow T)) : CacheOp φ T → List (CacheRow T)
  | .read key ask time => (Data.read (φ := φ) rows key ask time).2
  | .set key w time => Data.set maxEntries rows key w time

/-! ### One value -/

/-- What a read should say of a value: it is given with its age, and it is fresh if it has the
version and has not expired, neither for its writer nor for the reader. -/
def Write.answer (w : Write φ T) (ask : Ask T) : CacheEntry φ T :=
  let common := fun status reason =>
    (⟨status, w.value, some w.storedAt, w.expiresAt, some w.version, w.provenance, reason, false⟩ :
      CacheEntry φ T)
  if ask.version.any (w.version ≠ ·) then common .stale (some "version_mismatch")
  else if w.expiresAt.any (· ≤ ask.now) ||
      ask.ttlSeconds.any fun ttl => expiry φ w.storedAt ttl ≤ ask.now then
    common .stale (some "expired")
  else common .fresh none

/-- The fields of the envelope that a `set` writes. -/
def Write.fields (w : Write φ T) : Envelope φ T :=
  ⟨w.version, w.storedAt, w.expiresAt, w.provenance, w.value⟩

lemma judge_fields (w : Write φ T) (ask : Ask T) : w.fields.judge ask = w.answer ask := by
  rw [Envelope.judge, Write.answer]
  have hexpired : (match ask.ttlSeconds, w.fields.expiresAt with
      | none, expiresAt => expiresAt
      | some ttl, none => some (expiry φ w.fields.storedAt ttl)
      | some ttl, some expiresAt =>
        some (min expiresAt (expiry φ w.fields.storedAt ttl))).any (· ≤ ask.now) =
      (w.expiresAt.any (· ≤ ask.now) ||
        ask.ttlSeconds.any fun ttl => expiry φ w.storedAt ttl ≤ ask.now) := by
    cases hexpires : w.fields.expiresAt with
    | none =>
      rw [show w.expiresAt = none from hexpires]
      cases ask.ttlSeconds with
      | none => rfl
      | some ttl => rfl
    | some expires =>
      rw [show w.expiresAt = some expires from hexpires]
      cases ask.ttlSeconds with
      | none => simp
      | some ttl => simp [Write.fields]
  dsimp only
  rw [hexpired]
  rfl

def envelopeKeys : List Text :=
  ["_cache_envelope", "schema", "version", "stored_at", "expires_at", "provenance", "value"]

lemma envelope_distinct (w : Write φ T) : w.envelope.distinctKeys = true := by
  rw [Write.envelope, JsonValue.distinctKeys_obj]
  refine ⟨?_, ?_⟩
  · exact (by decide : envelopeKeys.Nodup)
  · simp only [List.forall_mem_cons, List.not_mem_nil, false_imp_iff, implies_true, and_true]
    refine ⟨rfl, rfl, rfl, rfl, ?_, w.distinct.2, w.distinct.1⟩
    cases w.expiresAt with
    | none => rfl
    | some t => rfl

lemma envelope_finite (w : Write φ T) : w.envelope.finite = true := by
  rw [Write.envelope, JsonValue.finite_obj]
  simp only [List.forall_mem_cons, List.not_mem_nil, false_imp_iff, implies_true, and_true]
  refine ⟨rfl, rfl, rfl, Times.isFinite_float _, ?_, w.finite.2, w.finite.1⟩
  cases w.expiresAt with
  | none => rfl
  | some t => exact Times.isFinite_float t

lemma envelopeOf_envelope (w : Write φ T) : ∃ fields, w.envelope = .obj fields ∧
    isMarked fields = true ∧ isSchema T fields = true ∧ envelopeOf fields = some w.fields := by
  refine ⟨_, rfl, rfl, decide_eq_true rfl, ?_⟩
  have hstored : number (.float (Times.float w.storedAt) : JsonValue φ) = some w.storedAt :=
    congrArg some (Times.ofFloat_float w.storedAt)
  have hwritten : ∀ expires : Option T, expiresOf
      (some ((expires.map fun t => (.float (Times.float t) : JsonValue φ)).getD .null)) =
        some expires := by
    intro expires
    cases expires with
    | none => rfl
    | some t => exact congrArg (some ∘ some) (Times.ofFloat_float t)
  calc envelopeOf _
      = (number (.float (Times.float w.storedAt) : JsonValue φ)).bind fun storedAt =>
          (expiresOf (some ((w.expiresAt.map fun t => (.float (Times.float t) : JsonValue φ)).getD
            .null))).bind fun expiresAt =>
          some ⟨w.version, storedAt, expiresAt, w.provenance, w.value⟩ := rfl
    _ = some w.fields := by
      rw [hstored, hwritten]
      rfl

lemma examine_payload [JsonValue.LawfulFloatFormat φ] (w : Write φ T) (ask : Ask T) :
    examine w.payload ask = w.answer ask := by
  have hloads : JsonValue.loads w.payload = some w.envelope :=
    JsonValue.loads_dumps .default w.envelope (envelope_distinct w) (envelope_finite w)
  obtain ⟨fields, hfields, hmarked, hschema, henvelope⟩ := envelopeOf_envelope w
  rw [examine, hloads, hfields]
  dsimp only
  rw [hmarked, hschema, henvelope]
  exact judge_fields w ask

/-! ### Runs -/

/-- What the transaction stores under the key. -/
def CacheOp.stores (key : Text) : CacheOp φ T → Option (Write φ T)
  | .read _ _ _ => none
  | .set k w _ => if k = key then some w else none

omit [LinearOrder T] [Times φ T] in
@[simp] lemma stores_set_self (key : Text) (w : Write φ T) (time : T) :
    (CacheOp.set key w time).stores key = some w := if_pos rfl

omit [LinearOrder T] [Times φ T] in
lemma stores_set_of_ne {key k : Text} (h : k ≠ key) (w : Write φ T) (time : T) :
    (CacheOp.set k w time).stores key = none := if_neg h

/-- The last `set` of a key. -/
def lastSet (key : Text) (ops : List (CacheOp φ T)) : Option (Write φ T) :=
  (ops.filterMap (CacheOp.stores key)).getLast?

/-- The table behind these transactions; it was empty at first. -/
def after (maxEntries : ℕ) (ops : List (CacheOp φ T)) : List (CacheRow T) :=
  Runs.run (step maxEntries) [] ops

omit [LinearOrder T] [Times φ T] in
lemma lastSet_concat_of_none {key : Text} {op : CacheOp φ T} (h : op.stores key = none)
    (ops : List (CacheOp φ T)) : lastSet key (ops ++ [op]) = lastSet key ops := by
  rw [lastSet, List.filterMap_append, List.filterMap_cons_none h, List.filterMap_nil,
    List.append_nil, lastSet]

omit [LinearOrder T] [Times φ T] in
lemma lastSet_concat_of_some {key : Text} {op : CacheOp φ T} {w : Write φ T}
    (h : op.stores key = some w) (ops : List (CacheOp φ T)) :
    lastSet key (ops ++ [op]) = some w := by
  rw [lastSet, List.filterMap_append, List.filterMap_cons_some h, List.filterMap_nil,
    List.getLast?_concat]

/-- Each row is what the last `set` of its key wrote. -/
structure Written (maxEntries : ℕ) (ops : List (CacheOp φ T)) (rows : List (CacheRow T)) :
    Prop where
  keyed : Keyed CacheRow.key rows
  size : rows.length ≤ maxEntries
  last : ∀ row ∈ rows, ∃ w, lastSet row.key ops = some w ∧ row.value = w.payload

variable {maxEntries : ℕ} {ops : List (CacheOp φ T)} {rows : List (CacheRow T)}

lemma Written.read (h : Written maxEntries ops rows) (key : Text) (ask : Ask T) (time : T) :
    Written maxEntries (ops ++ [.read key ask time]) (Data.read (φ := φ) rows key ask time).2 := by
  have hlast (k : Text) : lastSet k (ops ++ [.read key ask time]) = lastSet k ops :=
    lastSet_concat_of_none rfl ops
  rw [Data.read]
  split
  · exact ⟨h.keyed, h.size, fun row hrow => hlast row.key ▸ h.last row hrow⟩
  · refine ⟨h.keyed.updateWhere fun _ _ _ => rfl, ?_, fun row hrow => ?_⟩
    · rw [updateWhere, List.length_map]
      exact h.size
    · rw [hlast]
      rcases mem_updateWhere_cases hrow with ⟨hold, -⟩ | ⟨old, hold, -, rfl⟩
      · exact h.last row hold
      · exact h.last old hold

omit [LinearOrder T] in
lemma keyed_upsert (h : Keyed CacheRow.key rows) (row : CacheRow T) :
    Keyed CacheRow.key (upsert rows row) := by
  rw [upsert]
  split_ifs with hmem
  · exact h.updateWhere fun r _ hr => hr.symm
  · exact h.append_one fun r hr heq => hmem (heq ▸ List.mem_map_of_mem hr)

omit [LinearOrder T] in
lemma mem_upsert {row row' : CacheRow T} (h : row' ∈ upsert rows row) :
    row' = row ∨ row' ∈ rows ∧ row'.key ≠ row.key := by
  rw [upsert] at h
  split_ifs at h with hmem
  · rcases mem_updateWhere_cases h with ⟨hrow, hne⟩ | ⟨-, -, -, rfl⟩
    · exact Or.inr ⟨hrow, hne⟩
    · exact Or.inl rfl
  · rcases List.mem_append.1 h with hrow | hrow
    · exact Or.inr ⟨hrow, fun heq => hmem (heq ▸ List.mem_map_of_mem hrow)⟩
    · exact Or.inl (List.mem_singleton.1 hrow)

lemma Written.set (h : Written maxEntries ops rows) (key : Text) (w : Write φ T) (time : T) :
    Written maxEntries (ops ++ [.set key w time]) (Data.set maxEntries rows key w time) := by
  have hkeyed := keyed_upsert h.keyed ⟨key, w.payload, time⟩
  refine ⟨hkeyed.sublist (Oldest.evict_sublist.map _), Oldest.length_evict_le hkeyed,
    fun row hrow => ?_⟩
  rcases mem_upsert (Oldest.evict_sublist.subset hrow) with rfl | ⟨hold, hne⟩
  · exact ⟨w, lastSet_concat_of_some (stores_set_self ..) ops, rfl⟩
  · rw [lastSet_concat_of_none (stores_set_of_ne (Ne.symm hne) w time) ops]
    exact h.last row hold

lemma written_after (maxEntries : ℕ) (ops : List (CacheOp φ T)) :
    Written maxEntries ops (after maxEntries ops) := by
  induction ops using List.reverseRecOn with
  | nil => exact ⟨keyed_nil, Nat.zero_le _, nofun⟩
  | append_singleton ops op ih =>
    have hafter : after maxEntries (ops ++ [op]) = step maxEntries (after maxEntries ops) op :=
      Runs.run_append ..
    rw [hafter]
    cases op with
    | read key ask time => exact ih.read key ask time
    | set key w time => exact ih.set key w time

/-- Whatever was read and stored before, the table is not too long, a read that finds a row tells
what the last `set` of its key says, and what a `set` evicts was not used after anything that
stays. -/
theorem persistent_cache_run [JsonValue.LawfulFloatFormat φ] (maxEntries : ℕ)
    (ops : List (CacheOp φ T)) :
    (after maxEntries ops).length ≤ maxEntries ∧
    (∀ key ask time, (read (φ := φ) (after maxEntries ops) key ask time).1 = .miss ∧
        key ∉ (after maxEntries ops).map CacheRow.key ∨
      ∃ w, lastSet key ops = some w ∧
        (read (φ := φ) (after maxEntries ops) key ask time).1 = w.answer ask) ∧
    ∀ key (w : Write φ T) time, ∀ row ∈ after maxEntries ops, row.key ≠ key →
      row ∉ set maxEntries (after maxEntries ops) key w time →
      ∀ row' ∈ set maxEntries (after maxEntries ops) key w time, row.accessed ≤ row'.accessed := by
  have hwritten := written_after maxEntries ops
  refine ⟨hwritten.size, fun key ask time => ?_, fun key w time row hrow hne hout row' hrow' => ?_⟩
  · rw [read]
    cases hselect : selectOne (·.key = key) (after maxEntries ops) with
    | none =>
      refine Or.inl ⟨rfl, fun hkey => ?_⟩
      obtain ⟨row, hrow, heq⟩ := List.mem_map.1 hkey
      exact selectOne_eq_none.1 hselect row hrow heq
    | some row =>
      have hkey : row.key = key := selectOne_holds (p := fun r : CacheRow T => r.key = key) hselect
      obtain ⟨w, hlast, hvalue⟩ := hwritten.last row (selectOne_mem hselect)
      refine Or.inr ⟨w, hkey ▸ hlast, ?_⟩
      dsimp only
      rw [hvalue]
      exact examine_payload w ask
  · refine Oldest.evict_oldest (keyed_upsert hwritten.keyed _) ?_ hout hrow'
    rw [upsert]
    split_ifs
    · exact mem_updateWhere_of_not hrow hne
    · exact List.mem_append_left _ hrow

/-- Floats without a fraction. -/
structure Whole where
  n : ℤ

instance : FloatFormat Whole where
  nan := ⟨0⟩
  infinity := ⟨0⟩
  negInfinity := ⟨0⟩
  isFinite _ := true
  text x := JsonValue.intText x.n ++ [46, 48]
  ofToken t :=
    match JsonValue.loads (φ := NonFinite) t.dropLast.dropLast with
    | some (.int n) => ⟨n⟩
    | _ => ⟨0⟩

instance : JsonValue.LawfulFloatFormat Whole where
  token x _ := by
    obtain ⟨sign, digits, hnumber, htext, -⟩ := JsonValue.intText_isNumber (φ := NonFinite) x.n
    refine ⟨sign, digits, [46, 48], [], ⟨hnumber.sign, hnumber.digits, Or.inr ⟨[48], ?_, rfl⟩,
      Or.inl rfl⟩, nofun, ?_⟩
    · exact ⟨nofun, by decide⟩
    · simp [FloatFormat.text, htext]
  ofToken_text x _ := by
    have hloads : JsonValue.loads (φ := NonFinite) (JsonValue.intText x.n) = some (.int x.n) := by
      simpa using JsonValue.loads_of_reads (JsonValue.reads_int x.n) JsonValue.blank_nil
        JsonValue.blank_nil
    have hdrop : (JsonValue.intText x.n ++ [46, 48]).dropLast.dropLast = JsonValue.intText x.n := by
      simp [List.dropLast_append_of_ne_nil]
    simp only [FloatFormat.text, FloatFormat.ofToken, hdrop, hloads]

instance : Times Whole ℤ where
  float t := ⟨t⟩
  ofFloat x := x.n
  ofInt n := n
  add := (· + ·)
  isFinite_float _ := rfl
  ofFloat_float _ := rfl

def storedAtOne : Write Whole ℤ := ⟨.str "rent", some 10, "1", [], 1, ⟨rfl, rfl⟩, ⟨rfl, rfl⟩⟩

def twoSets : List (CacheOp Whole ℤ) := [.set "a" storedAtOne 1, .set "b" storedAtOne 2]

theorem persistent_cache_run_two : ∃ w, lastSet "b" twoSets = some w ∧
    (read (φ := Whole) (after 1 twoSets) "b" ⟨none, none, 3⟩ 3).1 = w.answer ⟨none, none, 3⟩ :=
  ((persistent_cache_run 1 twoSets).2.1 "b" ⟨none, none, 3⟩ 3).resolve_left fun h =>
    h.2 (by decide +kernel)

end RentCompass.Data
