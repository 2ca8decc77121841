import RentCompass.Json.RoundTrip

/-!
# Canonical JSON

The text a value is sealed, hashed and compared by: keys sorted, no blanks, UTF-8 within a size.
-/

namespace Text

/-- The bytes UTF-8 encodes a character in. -/
def utf8Size (c : Nat) : Nat :=
  if c < 0x80 then 1 else if c < 0x800 then 2 else if c < 0x10000 then 3 else 4

/-- `len(text.encode("utf-8"))`. -/
def utf8Length (t : Text) : Nat := (t.map utf8Size).sum

end Text

namespace JsonValue

variable {φ : Type} [FloatFormat φ]

/-- The digits beyond which Python converts no `int` to a text or back. -/
def maxIntDigits : Nat := 4300

/-- The integers can be written. -/
def shortInts (v : JsonValue φ) : Bool :=
  v.all fun
    | .int n => (decimal n.natAbs).length ≤ maxIntDigits
    | _ => true

inductive CanonicalError where
  | notFiniteJson
  | lossyJson
  | tooLarge
  deriving DecidableEq

/-- `_canonical_json`. -/
def canonical (v : JsonValue φ) (maxBytes : Nat) : Except CanonicalError Text :=
  if ¬ (v.finite ∧ v.shortInts) then .error .notFiniteJson
  else
    match (loads (v.dumps .canonical) : Option (JsonValue φ)) with
    | none => .error .notFiniteJson
    | some detached =>
      if ¬ (v.dumps .canonical).Storable then .error .notFiniteJson
      else if v.dumps .canonical ≠ detached.dumps .canonical then .error .lossyJson
      else if maxBytes < (v.dumps .canonical).utf8Length then .error .tooLarge
      else .ok (v.dumps .canonical)

/-- What canonical JSON says of the value it was made from. -/
lemma canonical_ok {v : JsonValue φ} {maxBytes : Nat} {t : Text}
    (h : v.canonical maxBytes = .ok t) :
    v.finite ∧ t = v.dumps .canonical ∧ t.utf8Length ≤ maxBytes := by
  unfold canonical at h
  by_cases hfin : v.finite ∧ v.shortInts
  · rw [if_neg (not_not.2 hfin)] at h
    split at h
    · exact absurd h (by simp)
    · split_ifs at h with _ _ hsize
      have ht : v.dumps .canonical = t := by simpa using h
      subst ht
      exact ⟨hfin.1, rfl, not_lt.1 hsize⟩
  · rw [if_pos hfin] at h
    exact absurd h (by simp)

variable [LawfulFloatFormat φ]

/-- Canonical JSON is read back as the value, its keys in order. -/
theorem loads_canonical {v : JsonValue φ} (hdict : v.distinctKeys) {maxBytes : Nat} {t : Text}
    (h : v.canonical maxBytes = .ok t) : loads t = some v.sorted := by
  obtain ⟨hfin, rfl, -⟩ := canonical_ok h
  rw [loads_dumps .canonical v hdict hfin]
  rfl

/-- Values with the same canonical JSON are the same, up to the order of their keys. -/
theorem canonical_inj {v w : JsonValue φ} (hv : v.distinctKeys) (hw : w.distinctKeys)
    {m n : Nat} {t : Text} (h : v.canonical m = .ok t) (h' : w.canonical n = .ok t) :
    v.sorted = w.sorted :=
  Option.some.inj ((loads_canonical hv h).symm.trans (loads_canonical hw h'))

end JsonValue
