import Mathlib.Data.List.Infix
import RentCompass.Regex
import RentCompass.Tools.Execution

/-!
# Tool-call markup in replies

A model may write its own control tokens, or its own message envelope, as text. Such a reply is
replaced as a whole before anything stores it.
-/

namespace RentCompass.Web.Markup

open JsonValue (loads)

/-- `unicodedata.normalize('NFKC', ·)`, `str.isalnum` of one character, and `str.lower`. -/
structure Unicode where
  nfkc : Text → Text
  isAlnum : Nat → Bool
  lower : Text → Text
  /-- A `<` comes of `<`, of its small and its full-width form, or of its negation. -/
  nfkc_less : ∀ t, (∀ c ∈ t, c ∉ [0x3C, 0x226E, 0xFE64, 0xFF1C]) → 0x3C ∉ nfkc t

/-! ### Markers -/

/-- Zero-width and invisible joiners. -/
def _INVISIBLE : List Nat := [0x200B, 0x200C, 0x200D, 0x2060, 0xFEFF, 0x180E, 0xAD]

/-- `_detection_copy` -/
def detectionCopy (u : Unicode) (t : Text) : Text := (u.nfkc t).filter (· ∉ _INVISIBLE)

namespace Marker

/-- A small letter, under `re.I`. -/
def isLetter (l c : Nat) : Bool :=
  c == l || c + 32 == l || (l == 105 && (c == 0x130 || c == 0x131)) || (l == 115 && c == 0x17F) ||
    (l == 107 && c == 0x212A)

/-- `[a-z]`, under `re.I`. -/
def isLatin (c : Nat) : Bool :=
  (97 ≤ c && c ≤ 122) || (65 ≤ c && c ≤ 90) || c == 0x130 || c == 0x131 || c == 0x17F || c == 0x212A

def is (c : Nat) : Regex Nat := .char (· == c)

/-- A word in small letters, under `re.I`. -/
def word (w : String) : Regex Nat := .concat ((Text.ofString w).map fun l => .char (isLetter l))

/-- `\s*` -/
def blanks : Regex Nat := .star Text.isSpace

/-- `[\s_▁-]` -/
def isSep (c : Nat) : Bool := Text.isSpace c || c == 95 || c == 0x2581 || c == 45

/-- `[|\s_▁-]` -/
def isBarOrSep (c : Nat) : Bool := c == 124 || isSep c

def _SEP : Regex Nat := .star isSep

def _CTRL : Regex Nat :=
  .concat [.star isBarOrSep, .opt ((word "dsml").seq (.star isBarOrSep)),
    .opt ((Regex.plus isLatin).seq (is 58))]

/-- `\b` -/
def boundary (u : Unicode) : Regex Nat :=
  let isWord := fun c => u.isAlnum c || c == 95
  .beside fun before after => before.any isWord != after.any isWord

/-- `<\s*/?\s*`, the control tag, and the rest of a marker. -/
def tag (rest : List (Regex Nat)) : Regex Nat :=
  (is 60).seq (.concat ([blanks, .opt (is 47), blanks, _CTRL] ++ rest))

def toolCalls : Regex Nat :=
  tag [word "tool", _SEP, word "call", .opt (word "s"), _SEP,
    .opt (.oneOf [word "begin", word "end", word "sep"]), _SEP, .star (· == 124), blanks, is 62]

def invoke (u : Unicode) : Regex Nat := tag [word "invoke", boundary u]

def parameter (u : Unicode) : Regex Nat := tag [word "parameter", boundary u]

def functionCalls (u : Unicode) : Regex Nat :=
  tag [word "function", _SEP, word "call", .opt (word "s"), boundary u]

/-- `<\|[^<>]{0,80}\|>` -/
def delimited : Regex Nat :=
  (is 60).seq (.concat [is 124, .upTo 80 (fun c => c != 60 && c != 62), is 124, is 62])

end Marker

def _MARKERS (u : Unicode) : List (Regex Nat) :=
  [Marker.toolCalls, Marker.invoke u, Marker.parameter u, Marker.functionCalls u, Marker.delimited]

/-- `contains_markup` -/
def containsMarkup (u : Unicode) (t : Text) : Bool :=
  t ≠ [] && (_MARKERS u).any fun r => r.search (detectionCopy u t)

/-! ### Sanitising -/

def _FALLBACK_zh : Text := "抱歉，这条回复没能正常生成。可以再说一次你想找的区域和预算吗？我再帮你查一次。"

def _FALLBACK_en : Text := Text.ofString ("Sorry — I couldn't put that answer together properly. " ++
  "Could you tell me the area and budget you're looking for so I can try again?")

/-- `fallback_text` -/
def fallbackText (u : Unicode) (replyLanguage : Option Text) : Text :=
  let language := (replyLanguage.filter (· ≠ [])).getD "en"
  if Text.ofString "zh" <+: u.lower language then _FALLBACK_zh else _FALLBACK_en

def _ENVELOPE_KEYS : List Text :=
  ["content", "tool_calls", "role", "reasoning_content", "refusal"].map Text.ofString

variable (φ : Type) [FloatFormat φ]

/-- What a bare model message envelope holds. -/
def envelopeFields (t : Text) : Option (Dict (JsonValue φ)) :=
  let stripped := t.strip
  if stripped.head? = some 123 ∧ stripped.getLast? = some 125 ∧
      Text.ofString "\"content\"" <:+: stripped then
    match loads stripped with
    | some (.obj fields) =>
      if fields ≠ [] ∧ ∀ k ∈ Dict.keys fields, k ∈ _ENVELOPE_KEYS then some fields else none
    | _ => none
  else none

/-- The answer in an envelope; the empty text for none. -/
def envelopeContent (fields : Dict (JsonValue φ)) : Text :=
  if (Dict.get? fields "tool_calls").any Tools.truthy then []
  else
    match Dict.get? fields "content" with
    | some (.str content) => if content.strip = [] then [] else content
    | _ => []

/-- `_unwrap_envelope` -/
def unwrapEnvelope (t : Text) : Text × Bool :=
  match envelopeFields φ t with
  | some fields => (envelopeContent φ fields, true)
  | none => (t, false)

/-- `sanitize_user_text`; none for what is not a `str`. -/
def sanitizeUserText (u : Unicode) (t : Option Text) (replyLanguage : Option Text) : Text × Bool :=
  match t with
  | none => ([], false)
  | some t =>
    let unwrapped := unwrapEnvelope φ t
    if unwrapped.2 then
      if unwrapped.1 = [] || containsMarkup u unwrapped.1 then (fallbackText u replyLanguage, true)
      else (unwrapped.1, false)
    else if containsMarkup u t then (fallbackText u replyLanguage, true)
    else (t, false)

/-! ### What is shown -/

variable {u : Unicode} {t : Text}

/-- Without a bracket there is no marker. -/
lemma containsMarkup_of_no_less (h : ∀ c ∈ t, c ∉ [0x3C, 0x226E, 0xFE64, 0xFF1C]) :
    containsMarkup u t = false := by
  have hprobe : ∀ c ∈ detectionCopy u t, (c == 60) = false := by
    intro c hc
    have hmem := List.mem_of_mem_filter hc
    rw [beq_eq_false_iff_ne]
    rintro rfl
    exact u.nfkc_less t h hmem
  have hnone : ∀ r ∈ _MARKERS u, r.search (detectionCopy u t) = false := by
    intro r hr
    simp only [_MARKERS, List.mem_cons, List.not_mem_nil, or_false] at hr
    rcases hr with rfl | rfl | rfl | rfl | rfl <;> exact Regex.search_char_seq _ hprobe
  rw [containsMarkup, Bool.and_eq_false_iff]
  exact .inr (List.any_eq_false.2 fun r hr => by rw [hnone r hr]; simp)

lemma fallbackText_eq (u : Unicode) (replyLanguage : Option Text) :
    fallbackText u replyLanguage = _FALLBACK_zh ∨ fallbackText u replyLanguage = _FALLBACK_en := by
  rw [fallbackText]
  split
  · exact .inl rfl
  · exact .inr rfl

lemma containsMarkup_fallbackText (replyLanguage : Option Text) :
    containsMarkup u (fallbackText u replyLanguage) = false := by
  apply containsMarkup_of_no_less
  rcases fallbackText_eq u replyLanguage with h | h
  · rw [h]
    decide +kernel
  · rw [h]
    decide +kernel

lemma envelopeFields_fallbackText (replyLanguage : Option Text) :
    envelopeFields φ (fallbackText u replyLanguage) = none := by
  rw [envelopeFields, if_neg]
  rintro ⟨hhead, -⟩
  rcases fallbackText_eq u replyLanguage with h | h
  · rw [h] at hhead
    exact absurd hhead (by decide +kernel)
  · rw [h] at hhead
    exact absurd hhead (by decide +kernel)

variable {φ}

/-- A text that is no envelope and has no markup is shown as it is. -/
lemma sanitizeUserText_of_clean (henvelope : envelopeFields φ t = none)
    (hmarkup : containsMarkup u t = false) (replyLanguage : Option Text) :
    sanitizeUserText φ u (some t) replyLanguage = (t, false) := by
  simp [sanitizeUserText, unwrapEnvelope, henvelope, hmarkup]

/-- A reply that may be shown: no markup, no envelope, and shown again as it is. -/
structure Stable (φ : Type) [FloatFormat φ] (u : Unicode) (t : Text) : Prop where
  clean : containsMarkup u t = false
  noEnvelope : envelopeFields φ t = none
  unchanged : ∀ replyLanguage, sanitizeUserText φ u (some t) replyLanguage = (t, false)

lemma stable_iff : Stable φ u t ↔ containsMarkup u t = false ∧ envelopeFields φ t = none := by
  constructor
  · intro h
    exact ⟨h.clean, h.noEnvelope⟩
  · rintro ⟨hclean, henvelope⟩
    exact ⟨hclean, henvelope, sanitizeUserText_of_clean henvelope hclean⟩

lemma stable_fallbackText (replyLanguage : Option Text) :
    Stable φ u (fallbackText u replyLanguage) :=
  stable_iff.2 ⟨containsMarkup_fallbackText replyLanguage,
    envelopeFields_fallbackText φ replyLanguage⟩

/-- The answer an envelope holds. -/
structure Answers (fields : Dict (JsonValue φ)) (content : Text) : Prop where
  noCalls : (Dict.get? fields "tool_calls").any Tools.truthy = false
  held : Dict.get? fields "content" = some (.str content)
  notBlank : content.strip ≠ []

lemma envelopeContent_eq_iff {fields : Dict (JsonValue φ)} {content : Text} (hne : content ≠ []) :
    envelopeContent φ fields = content ↔ Answers fields content := by
  rw [envelopeContent]
  constructor
  · intro h
    split at h
    · exact absurd h.symm hne
    · next hcalls =>
      split at h
      · next held hheld =>
        split at h
        · exact absurd h.symm hne
        · next hblank =>
          subst h
          exact ⟨Bool.eq_false_iff.2 hcalls, hheld, hblank⟩
      · exact absurd h.symm hne
  · rintro ⟨hcalls, hcontent, hblank⟩
    rw [hcalls, hcontent]
    simp [hblank]

/-- The text is the envelope of an answer without markup, and the answer is an envelope again. -/
def NestedEnvelope (φ : Type) [FloatFormat φ] (u : Unicode) (t : Text) : Prop :=
  ∃ fields, envelopeFields φ t = some fields ∧ ∃ content, Answers fields content ∧
    containsMarkup u content = false ∧ envelopeFields φ content ≠ none

/-- What is shown is stable, unless an envelope stands in an envelope. -/
theorem sanitized_text_stable_iff (φ : Type) [FloatFormat φ] (u : Unicode) (t : Text)
    (replyLanguage : Option Text) :
    Stable φ u (sanitizeUserText φ u (some t) replyLanguage).1 ↔ ¬ NestedEnvelope φ u t := by
  cases henvelope : envelopeFields φ t with
  | none =>
    have hnot : ¬ NestedEnvelope φ u t := by
      rintro ⟨fields, hfields, -⟩
      rw [henvelope] at hfields
      cases hfields
    simp only [hnot, not_false_eq_true, iff_true]
    cases hmarkup : containsMarkup u t with
    | true =>
      simp only [sanitizeUserText, unwrapEnvelope, henvelope, hmarkup, if_true]
      exact stable_fallbackText replyLanguage
    | false =>
      rw [sanitizeUserText_of_clean henvelope hmarkup]
      exact stable_iff.2 ⟨hmarkup, henvelope⟩
  | some fields =>
    simp only [sanitizeUserText, unwrapEnvelope, henvelope, if_true]
    split
    · next hrefused =>
      refine ⟨fun _ => ?_, fun _ => stable_fallbackText replyLanguage⟩
      rintro ⟨fields', hfields', content, hanswers, hclean, -⟩
      rw [henvelope] at hfields'
      cases hfields'
      have hne : content ≠ [] := by
        rintro rfl
        exact hanswers.notBlank rfl
      rw [(envelopeContent_eq_iff hne).2 hanswers] at hrefused
      simp [hne, hclean] at hrefused
    · next hshown =>
      simp only [Bool.or_eq_true, decide_eq_true_eq, not_or, Bool.not_eq_true] at hshown
      obtain ⟨hne, hclean⟩ := hshown
      have hanswers := (envelopeContent_eq_iff hne).1 rfl
      rw [stable_iff]
      constructor
      · rintro ⟨-, hnone⟩ ⟨fields', hfields', content, hanswers', -, hsome⟩
        rw [henvelope] at hfields'
        cases hfields'
        have := hanswers.held.symm.trans hanswers'.held
        cases this
        exact hsome hnone
      · intro hnot
        refine ⟨hclean, ?_⟩
        by_contra hsome
        exact hnot ⟨fields, henvelope, _, hanswers, hclean, hsome⟩

/-! ### An envelope in an envelope -/

/-- Characters as in ASCII. -/
def asciiUnicode : Unicode where
  nfkc t := t
  isAlnum c := (48 ≤ c && c ≤ 57) || (65 ≤ c && c ≤ 90) || (97 ≤ c && c ≤ 122)
  lower t := t.map fun c => if 65 ≤ c ∧ c ≤ 90 then c + 32 else c
  nfkc_less t h h' := by simpa using h _ h'

def envelopeTwice : Text :=
  Text.ofString "\x7b\"content\": \"\x7b\\\"content\\\": \\\"hi\\\"\x7d\"\x7d"

/-- Only the outer envelope is taken off. -/
theorem inner_envelope_is_shown :
    ¬ Stable NonFinite asciiUnicode
      (sanitizeUserText NonFinite asciiUnicode (some envelopeTwice) none).1 := by
  intro h
  exact absurd h.noEnvelope (by decide +kernel)

end RentCompass.Web.Markup
