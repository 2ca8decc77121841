import RentCompass.Json.Escaped
import RentCompass.Web.Markup

/-!
# The scan of a response body

A response is scanned once more as it is sent: the strings of its decoded body down to the twelfth
level, and the text of the body itself.
-/

namespace RentCompass.Web.Markup

open JsonValue (loads LawfulFloatFormat)

/-- A JSON value: its objects have no key twice, its floats are finite, and its texts are made of
code points. -/
structure Document (φ : Type) [FloatFormat φ] where
  value : JsonValue φ
  distinct : value.distinctKeys
  finite : value.finite
  codePoints : value.codePoints

variable {φ : Type} [FloatFormat φ]

/-- The strings and keys that `_walk_strings` comes to, so many levels deep. -/
def walkStrings : Nat → JsonValue φ → List Text
  | 0, _ => []
  | _ + 1, .str s => [s]
  | n + 1, .obj fields => fields.flatMap fun p => p.1 :: walkStrings n p.2
  | n + 1, .arr items => items.flatMap (walkStrings n)
  | _ + 1, _ => []

variable (φ) in
/-- `scan_serialized` -/
def scanSerialized (u : Unicode) (body : Text) : Bool :=
  match (loads body : Option (JsonValue φ)) with
  | some v => (walkStrings 13 v).any (containsMarkup u) || containsMarkup u body
  | none => containsMarkup u body

namespace Document

variable (u : Unicode) (ensureAscii : Bool) (p : Document φ)

/-- `json.dumps(p, ensure_ascii=..)` -/
def body : Text := if ensureAscii then p.value.dumpsAscii .default else p.value.dumps .default

/-- What the body is decoded to. -/
def decoded : JsonValue φ := if ensureAscii then p.value.joined else p.value

/-- A string or a key has markup, at whatever level. -/
def HasMarkup : Prop := ∃ n, ∃ s ∈ walkStrings n p.value, containsMarkup u s

/-- The text of the body has markup and no string or key has: it lies across two of them. -/
def MatchedAcross : Prop := containsMarkup u (p.body ensureAscii) ∧ ¬ p.HasMarkup u

/-- A string has markup in which surrogates were made one character, and none had before. -/
def MatchedJoined : Prop :=
  (∃ s ∈ walkStrings 13 (p.decoded ensureAscii), containsMarkup u s) ∧ ¬ p.HasMarkup u

/-- A string or a key has markup, but none that the walk comes to, nor has the text of the body. -/
def Missed : Prop :=
  p.HasMarkup u ∧ (∀ s ∈ walkStrings 13 (p.decoded ensureAscii), containsMarkup u s = false) ∧
    containsMarkup u (p.body ensureAscii) = false

variable {u ensureAscii p}

lemma loads_body [LawfulFloatFormat φ] :
    loads (p.body ensureAscii) = some (p.decoded ensureAscii) := by
  cases ensureAscii with
  | true => exact JsonValue.loads_dumpsAscii p.value p.finite p.codePoints
  | false =>
    exact JsonValue.loads_dumps .default p.value p.distinct p.finite

lemma scanSerialized_body [LawfulFloatFormat φ] :
    scanSerialized φ u (p.body ensureAscii) = true ↔
      (∃ s ∈ walkStrings 13 (p.decoded ensureAscii), containsMarkup u s) ∨
        containsMarkup u (p.body ensureAscii) := by
  rw [scanSerialized, loads_body]
  simp

end Document

omit [FloatFormat φ] in
lemma walkStrings_mono {n m : Nat} (hnm : n ≤ m) {v : JsonValue φ} {s : Text}
    (h : s ∈ walkStrings n v) : s ∈ walkStrings m v := by
  induction n generalizing m v with
  | zero => cases h
  | succ n ih =>
    obtain ⟨m, rfl⟩ := Nat.exists_eq_succ_of_ne_zero (by omega : m ≠ 0)
    have hle : n ≤ m := by omega
    cases v with
    | str t => exact h
    | arr items =>
      simp only [walkStrings, List.mem_flatMap] at h ⊢
      obtain ⟨w, hw, hs⟩ := h
      exact ⟨w, hw, ih hle hs⟩
    | obj fields =>
      simp only [walkStrings, List.mem_flatMap, List.mem_cons] at h ⊢
      obtain ⟨p, hp, hs⟩ := h
      exact ⟨p, hp, hs.imp id (ih hle)⟩
    | null => cases h
    | bool b => cases h
    | int n => cases h
    | float x => cases h

namespace Document

variable {u : Unicode} {ensureAscii : Bool} {p : Document φ}

/-- Nothing is matched only as joined, where the body is decoded to the value itself. -/
lemma not_matchedJoined (h : p.decoded ensureAscii = p.value) : ¬ p.MatchedJoined u ensureAscii := by
  rintro ⟨⟨s, hs, hmarkup⟩, hnone⟩
  rw [h] at hs
  exact hnone ⟨13, s, hs, hmarkup⟩

/-- And what is missed lies below the twelfth level. -/
lemma Missed.deep (hdecoded : p.decoded ensureAscii = p.value) (h : p.Missed u ensureAscii) :
    ∃ n > 13, ∃ s ∈ walkStrings n p.value, s ∉ walkStrings 13 p.value ∧ containsMarkup u s := by
  obtain ⟨⟨n, s, hs, hmarkup⟩, hnone, -⟩ := h
  rw [hdecoded] at hnone
  have hnot : s ∉ walkStrings 13 p.value := by
    intro hmem
    rw [hnone s hmem] at hmarkup
    cases hmarkup
  refine ⟨n, ?_, s, hs, hnot, hmarkup⟩
  by_contra hle
  exact hnot (walkStrings_mono (not_lt.1 hle) hs)

end Document

/-! ### Two harmless strings -/

/-- `["<|", "|>"]` -/
def splitBars : Document NonFinite where
  value := .arr [.str (Text.ofString "<|"), .str (Text.ofString "|>")]
  distinct := by decide +kernel
  finite := by decide +kernel
  codePoints := by decide +kernel

/-- `{"reply": "<invoke>"}` -/
def leakedCall : Document NonFinite where
  value := .obj [(Text.ofString "reply", .str (Text.ofString "<invoke>"))]
  distinct := by decide +kernel
  finite := by decide +kernel
  codePoints := by decide +kernel

end RentCompass.Web.Markup
