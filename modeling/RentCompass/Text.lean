import Mathlib.Tactic.Lemma
import Mathlib.Data.List.DropRight

/-!
# Text as code points

A Python `str` is a list of code points, which may contain lone surrogates; UTF-8 text may not.
The operations are the `str` methods of the same names.
-/

/-- A `str`: its code points. -/
abbrev Text := List Nat

instance : LawfulBEq Text := inferInstance

instance : LawfulBEq (Text × Text) := inferInstance

namespace Text

/-- The text of a literal. -/
def ofString (s : String) : Text := s.toList.map Char.toNat

instance : Coe String Text := ⟨ofString⟩

@[simp] lemma ofString_inj {s t : String} : ofString s = ofString t ↔ s = t := by
  constructor
  · intro h
    have hinj : Function.Injective Char.toNat := fun c d hcd => Char.toNat_inj.1 hcd
    exact String.toList_injective (hinj.list_map h)
  · rintro rfl
    rfl

/-- The decimal rendering of a number. -/
def ofNat (n : Nat) : Text := ofString (toString n)

/-- `str.isspace` of one character. -/
def isSpace (c : Nat) : Bool :=
  (9 ≤ c && c ≤ 13) || (28 ≤ c && c ≤ 32) || c == 0x85 || c == 0xA0 || c == 0x1680 ||
    (0x2000 ≤ c && c ≤ 0x200A) || c == 0x2028 || c == 0x2029 || c == 0x202F || c == 0x205F ||
    c == 0x3000

/-- `str.lstrip`. -/
def lstrip (t : Text) : Text := t.dropWhile isSpace

/-- `str.rstrip`. -/
def rstrip (t : Text) : Text := t.rdropWhile isSpace

/-- `str.strip`. -/
def strip (t : Text) : Text := t.lstrip.rstrip

lemma lstrip_rstrip_lstrip (t : Text) : lstrip (rstrip (lstrip t)) = rstrip (lstrip t) := by
  obtain ⟨rest, hrest⟩ : rstrip (lstrip t) <+: lstrip t :=
    ( List.rdropWhile_prefix isSpace (lstrip t))
  cases hstripped : rstrip (lstrip t) with
  | nil => rfl
  | cons c u =>
    have hhead : (lstrip t).head? = some c := by rw [← hrest, hstripped]; rfl
    have hspace : isSpace c = false := by
      have := List.head?_dropWhile_not isSpace t
      rw [lstrip] at hhead
      rw [hhead] at this
      simpa using this
    rw [lstrip, List.dropWhile_cons_of_neg (by simp [hspace])]

@[simp] lemma strip_strip (t : Text) : strip (strip t) = strip t := by
  rw [strip, strip, lstrip_rstrip_lstrip]
  exact List.rdropWhile_idempotent isSpace _

/-- `str.split` without a separator: the maximal runs of non-space characters. -/
def split (t : Text) : List Text := (t.splitOnP isSpace).filter (· ≠ [])

/-- `" ".join`. -/
def joinSpace (ts : List Text) : Text := [32].intercalate ts

/-- A code point that UTF-8 cannot encode. -/
def isSurrogate (c : Nat) : Bool := 0xD800 ≤ c && c ≤ 0xDFFF

/-- Encode with `surrogatepass`, decode with `replace`: the three bytes of a surrogate are each
an error, and each becomes U+FFFD. -/
def replaceSurrogates (t : Text) : Text :=
  t.flatMap fun c => if isSurrogate c then [0xFFFD, 0xFFFD, 0xFFFD] else [c]

/-- UTF-8 can encode the text. -/
def Storable (t : Text) : Prop := ∀ c ∈ t, isSurrogate c = false

instance (t : Text) : Decidable t.Storable := inferInstanceAs (Decidable (∀ c ∈ t, _))

lemma replaceSurrogates_storable (t : Text) : (replaceSurrogates t).Storable := by
  intro c hc
  simp only [replaceSurrogates, List.mem_flatMap] at hc
  obtain ⟨d, _, hd⟩ := hc
  cases h : isSurrogate d
  · simp only [h, Bool.false_eq_true, if_false, List.mem_singleton] at hd
    exact hd ▸ h
  · simp only [h, if_true, List.mem_cons, List.not_mem_nil, or_false, or_self] at hd
    subst hd
    decide

lemma replaceSurrogates_of_storable {t : Text} (h : t.Storable) : replaceSurrogates t = t := by
  induction t with
  | nil => rfl
  | cons c t ih =>
    have hc : isSurrogate c = false := h c (by simp)
    have ht := ih fun d hd => h d (by simp [hd])
    simpa [replaceSurrogates, hc] using ht

lemma replaceSurrogates_ne_nil {t : Text} (h : t ≠ []) : replaceSurrogates t ≠ [] := by
  cases t with
  | nil => exact absurd rfl h
  | cons c t => cases hc : isSurrogate c <;> simp [replaceSurrogates, hc]

end Text
