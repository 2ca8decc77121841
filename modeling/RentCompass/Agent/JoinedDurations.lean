import Mathlib.Data.List.Perm.Basic
import RentCompass.Agent.PhraseRuns
import RentCompass.Fallible

/-!
# Durations of joined texts

Two texts with a sentence break between them that no duration goes across. The expressions find
in the whole what they find in the two texts; the phrases do only where none of them is found in
both.
-/

namespace RentCompass.Commute

variable {V : Type} {C : Casing} {F : Floats V}

/-! ### What the expressions see of a break -/

lemma blind_concat {x z : Nat} {rs : List (Regex Nat)} (h : ∀ r ∈ rs, r.Blind x z) :
    (Regex.concat rs).Blind x z := by
  induction rs with
  | nil => trivial
  | cons r rs ih => exact ⟨h r (by simp), ih fun r' hr' => h r' (by simp [hr'])⟩

lemma blind_oneOf {x z : Nat} {rs : List (Regex Nat)} (h : ∀ r ∈ rs, r.Blind x z) :
    (Regex.oneOf rs).Blind x z := by
  induction rs with
  | nil => trivial
  | cons r rs ih =>
    cases rs with
    | nil => exact h r (by simp)
    | cons r' rs => exact ⟨h r (by simp), ih fun r' hr' => h r' (by simp [hr'])⟩

lemma blind_word (x z : Nat) (s : String) : (word s).Blind x z := by
  refine blind_concat fun r hr => ?_
  obtain ⟨l, -, rfl⟩ := List.mem_map.1 hr
  trivial

lemma blind_oneOfWords (x z : Nat) (ss : List String) : (oneOfWords ss).Blind x z := by
  refine blind_oneOf fun r hr => ?_
  obtain ⟨s, -, rfl⟩ := List.mem_map.1 hr
  exact blind_word x z s

lemma blind_plural (x z : Nat) (s : String) : (plural s).Blind x z :=
  ⟨blind_word x z s, blind_word x z "s", trivial⟩

lemma blind_more (x z : Nat) : _MORE.Blind x z :=
  ⟨⟨blind_oneOfWords x z _, trivial, trivial⟩, trivial⟩

/-- Sentence breaks, as any text between two that has no word: what follows it does not follow a
full stop directly. -/
structure IsBreak (C : Casing) (brk : Text) : Prop where
  ne_nil : brk ≠ []
  no_word : ∀ c ∈ brk, C.isWord c = false
  no_stop : brk.getLast? ≠ some 46

section

variable {x z : Nat}

lemma blind_wordBoundary (hx : C.isWord x = false) (hz : C.isWord z = false) :
    (wordBoundary C).Blind x z := by
  constructor
  · intro b
    simp [hx]
  · intro a
    simp [hz]

lemma blind_noNumberBefore (hz : C.isWord z = false) (hstop : z ≠ 46) :
    (noNumberBefore C).Blind x z := by
  refine ⟨fun b => rfl, fun a => ?_⟩
  have hdigit : C.isDigit z = false := by
    by_contra h
    have := C.isWord_digit z (by simpa using h)
    rw [hz] at this
    contradiction
  simp [hdigit, hstop]

lemma blind_units (ss : List String) {rs : List (Regex Nat)} (h : ∀ r ∈ rs, r.Blind x z) :
    (Regex.oneOf (ss.map plural ++ rs)).Blind x z := by
  refine blind_oneOf fun r hr => ?_
  rcases List.mem_append.1 hr with hr | hr
  · obtain ⟨s, -, rfl⟩ := List.mem_map.1 hr
    exact blind_plural x z s
  · exact h r hr

lemma blind_hours (hx : C.isWord x = false) (hz : C.isWord z = false) (hstop : z ≠ 46) :
    (HOURS_AND_MINUTES C).Blind x z := by
  have hunits : (Regex.oneOf [plural "hour", plural "hr", word "h"]).Blind x z :=
    blind_units ["hour", "hr"] (by simpa using blind_word x z "h")
  have hminutes : (Regex.oneOf [plural "minute", plural "min"]).Blind x z :=
    blind_units ["minute", "min"] (by simp)
  simp [HOURS_AND_MINUTES, Pattern.concat, Pattern.opt, Pattern.Blind, Regex.opt, Regex.plus,
    Regex.Blind, twoDigits, blind_noNumberBefore hz hstop, blind_wordBoundary hx hz, blind_more,
    blind_word, hunits, hminutes]

lemma blind_wordHours (hx : C.isWord x = false) (hz : C.isWord z = false) :
    (_WORD_HOURS C).Blind x z := by
  simp [_WORD_HOURS, Pattern.concat, Pattern.opt, Pattern.Blind, Regex.opt, Regex.plus,
    Regex.Blind, blind_wordBoundary hx hz, blind_word, blind_oneOfWords, blind_plural]

lemma blind_minutes (hx : C.isWord x = false) (hz : C.isWord z = false) (hstop : z ≠ 46) :
    (MINUTES C).Blind x z := by
  have hunits : (Regex.oneOf [plural "minute", .seq (plural "min") (wordBoundary C),
      .seq (.char (· == 0x5206)) (.char (· == 0x949F))]).Blind x z :=
    blind_units ["minute"] (by simp [Regex.Blind, blind_plural, blind_wordBoundary hx hz])
  simp [MINUTES, Pattern.concat, Pattern.Blind, Regex.opt, Regex.plus, Regex.Blind,
    blind_noNumberBefore hz hstop, blind_more, hunits]

end

/-! ### Blanked texts -/

@[simp] lemma length_mask (p : Pattern Nat Nat) (text : Text) :
    (mask p text).length = text.length :=
  Pattern.length_sub (fun _ => List.length_replicate) text

/-- The text that the phrases are looked for in, before it is lowered. -/
def masked (C : Casing) (text : Text) : Text :=
  mask (_WORD_HOURS C) (mask (HOURS_AND_MINUTES C) text)

@[simp] lemma length_masked (C : Casing) (text : Text) : (masked C text).length = text.length := by
  simp [masked]

/-- The phrases found in a text. -/
def phrasesOf (C : Casing) (text : Text) : List (Text × Nat) :=
  foundPhrases DURATION_WORDS (C.lower (masked C text))

/-- No match of an expression and no phrase touches the break, each looked for where
`figure_spans` looks for it. -/
structure NoneAcross (C : Casing) (F : Floats V) (a brk b : Text) : Prop where
  hours : Pattern.Apart a.length brk.length ((HOURS_AND_MINUTES C).locate (a ++ (brk ++ b)))
  wordHours : Pattern.Apart a.length brk.length
    ((_WORD_HOURS C).locate (mask (HOURS_AND_MINUTES C) (a ++ (brk ++ b))))
  minutes : Pattern.Apart a.length brk.length
    ((MINUTES C).locate (masked C (a ++ (brk ++ b))))
  phrases : ∀ s ∈ phraseSpans F DURATION_WORDS (C.lower (masked C (a ++ (brk ++ b)))),
    s.stop ≤ (C.lower (masked C a)).length ∨
      (C.lower (masked C a)).length + brk.length ≤ s.start

/-! ### One expression -/

section

variable {p : Pattern Nat Nat} {x z : Nat} (hp : p.Blind x z) {brk : Text}
  (hhead : brk.head? = some x) (hlast : brk.getLast? = some z) (a b : Text)
  (h : Pattern.Apart a.length brk.length (p.locate (a ++ (brk ++ b))))
include hp hhead hlast h

lemma mask_joined : mask p (a ++ (brk ++ b)) = mask p a ++ (brk ++ mask p b) :=
  Pattern.sub_joined hp hhead hlast a b h fun _ => rfl

/-- The spans of joined texts. -/
lemma spans_joined (value : Pattern.Groups Nat Nat → V) :
    (p.locate (a ++ (brk ++ b))).map (spanOf value) =
      (p.locate a).map (spanOf value) ++
        ((p.locate b).map (spanOf value)).map (Span.shift (a.length + brk.length)) := by
  have hcore (ms : List (Nat × Pattern.Found Nat Nat)) : ms.map (spanOf value) =
      (ms.map fun m => (m.1, m.2.core)).map (spanOf value) := by
    rw [List.map_map]
    rfl
  rw [hcore, Pattern.locate_joined hp hhead hlast a b h, List.map_append, ← hcore, List.map_map,
    List.map_map]
  congr 1
  refine List.map_congr_left fun m _ => ?_
  simp only [Function.comp_apply, spanOf, Span.shift, Pattern.Found.core_text,
    Pattern.Found.core_groups, Span.mk.injEq, true_and, and_true]
  omega

/-- The spans of joined texts, where some matches may have no value. -/
lemma mapM_spans_joined (value : Pattern.Groups Nat Nat → Option V) :
    (p.locate (a ++ (brk ++ b))).mapM (spanOf? value) =
      ((p.locate a).mapM (spanOf? value)).bind fun s =>
        ((p.locate b).mapM (spanOf? value)).map fun s' =>
          s ++ s'.map (Span.shift (a.length + brk.length)) := by
  have hcore (ms : List (Nat × Pattern.Found Nat Nat)) : ms.mapM (spanOf? value) =
      (ms.map fun m => (m.1, m.2.core)).mapM (spanOf? value) := by
    rw [List.mapM_map]
    rfl
  have hshift (d : Nat) (ms : List (Nat × Pattern.Found Nat Nat)) :
      (ms.map fun m => (m.1 + d, m.2.core)).mapM (spanOf? value) =
        (ms.mapM (spanOf? value)).map (List.map (Span.shift d)) := by
    induction ms with
    | nil => rfl
    | cons m ms ih =>
      have hmove : spanOf? value (m.1 + d, m.2.core) = (spanOf? value m).map (Span.shift d) := by
        simp only [spanOf?, Pattern.Found.core_groups, Option.map_map]
        congr 1
        funext v
        simp only [Function.comp_apply, spanOf, Span.shift, Pattern.Found.core_text,
          Span.mk.injEq, true_and, and_true]
        omega
      rw [List.map_cons, List.mapM_cons, List.mapM_cons, hmove, ih]
      cases spanOf? value m with
      | none => rfl
      | some s => cases ms.mapM (spanOf? value) <;> rfl
  rw [hcore, Pattern.locate_joined hp hhead hlast a b h, List.mapM_append, ← hcore, hshift]
  cases (p.locate a).mapM (spanOf? value) with
  | none => rfl
  | some s => cases (p.locate b).mapM (spanOf? value) <;> rfl

end

/-! ### All expressions -/

section

variable {a brk b : Text} (hbrk : IsBreak C brk) (h : NoneAcross C F a brk b)
include hbrk h

/-- What each expression finds in joined texts, and what is left for the phrases. -/
lemma stages_joined :
    hoursSpans C F (a ++ (brk ++ b)) =
        hoursSpans C F a ++ (hoursSpans C F b).map (Span.shift (a.length + brk.length)) ∧
      wordHoursSpans C F (mask (HOURS_AND_MINUTES C) (a ++ (brk ++ b))) =
        ((wordHoursSpans C F (mask (HOURS_AND_MINUTES C) a)).bind fun s =>
          (wordHoursSpans C F (mask (HOURS_AND_MINUTES C) b)).map fun s' =>
            s ++ s'.map (Span.shift (a.length + brk.length))) ∧
      minutesSpans C F (masked C (a ++ (brk ++ b))) =
        minutesSpans C F (masked C a) ++
          (minutesSpans C F (masked C b)).map (Span.shift (a.length + brk.length)) ∧
      masked C (a ++ (brk ++ b)) = masked C a ++ (brk ++ masked C b) := by
  obtain ⟨x, hhead⟩ : ∃ x, brk.head? = some x :=
    ⟨brk.head hbrk.ne_nil, List.head?_eq_some_head hbrk.ne_nil⟩
  obtain ⟨z, hlast⟩ : ∃ z, brk.getLast? = some z :=
    ⟨brk.getLast hbrk.ne_nil, List.getLast?_eq_some_getLast hbrk.ne_nil⟩
  have hx : C.isWord x = false := hbrk.no_word x (List.mem_of_head? hhead)
  have hz : C.isWord z = false := hbrk.no_word z (List.mem_of_getLast? hlast)
  have hstop : z ≠ 46 := fun hz => hbrk.no_stop (hz ▸ hlast)
  have hmask := mask_joined (blind_hours hx hz hstop) hhead hlast a b h.hours
  have hword := h.wordHours
  rw [hmask, ← length_mask (HOURS_AND_MINUTES C) a] at hword
  have hmasked : masked C (a ++ (brk ++ b)) = masked C a ++ (brk ++ masked C b) := by
    rw [masked, hmask]
    exact mask_joined (blind_wordHours hx hz) hhead hlast _ _ hword
  have hminutes := h.minutes
  rw [hmasked, ← length_masked C a] at hminutes
  refine ⟨spans_joined (blind_hours hx hz hstop) hhead hlast a b h.hours _, ?_, ?_, hmasked⟩
  · have hspans := mapM_spans_joined (blind_wordHours hx hz) hhead hlast _ _ hword
      (_word_hours C F)
    rw [length_mask] at hspans
    rw [hmask]
    exact hspans
  · have hspans := spans_joined (blind_minutes hx hz hstop) hhead hlast _ _ hminutes
      fun groups => F.float ((group groups 1).getD [])
    rw [length_masked] at hspans
    rw [hmasked]
    exact hspans

end

/-! ### Lowered texts -/

/-- A text that has no small sigma. -/
def NoSigma (t : Text) : Prop := ∀ c ∈ t, c ≠ 0x3C2 ∧ c ≠ 0x3C3

lemma noSigma_duration_words : ∀ e ∈ DURATION_WORDS, NoSigma e.1 := by
  unfold NoSigma
  decide +kernel

lemma firstAt_oneSigma {phrase : Text} (h : NoSigma phrase) (t : Text) :
    phrase.firstAt (t.map oneSigma) = phrase.firstAt t := by
  have hstarts (t : Text) : phrase.isPrefixOf (t.map oneSigma) = phrase.isPrefixOf t := by
    induction phrase generalizing t with
    | nil => simp
    | cons c phrase ih =>
      cases t with
      | nil => rfl
      | cons d t =>
        have hc : (c == oneSigma d) = (c == d) := by
          have := h c (by simp)
          unfold oneSigma
          split <;> grind
        rw [List.map_cons, List.isPrefixOf_cons_cons, List.isPrefixOf_cons_cons, hc,
          ih fun c hc => h c (by simp [hc])]
  induction t with
  | nil => rfl
  | cons d t ih =>
    have hhere := hstarts (d :: t)
    rw [List.map_cons] at hhere
    rw [List.map_cons, List.firstAt, List.firstAt, hhere, ih]

lemma blank_oneSigma (t : Text) (start n : Nat) :
    blank (t.map oneSigma) start n = (blank t start n).map oneSigma := by
  simp only [blank, List.map_append, List.map_take, List.map_drop, List.map_replicate]
  rfl

/-- The run does not tell the sigmas apart. -/
lemma run_oneSigma {entries : List (Text × Nat)} (h : ∀ e ∈ entries, NoSigma e.1) (t : Text) :
    phraseSpans F entries (t.map oneSigma) = phraseSpans F entries t ∧
      foundPhrases entries (t.map oneSigma) = foundPhrases entries t ∧
      otherPhrases entries (t.map oneSigma) = otherPhrases entries t := by
  induction entries generalizing t with
  | nil => exact ⟨rfl, rfl, rfl⟩
  | cons entry entries ih =>
    obtain ⟨phrase, value⟩ := entry
    have hfirst := firstAt_oneSigma (h (phrase, value) (by simp)) t
    have hrest := ih fun e he => h e (by simp [he])
    cases ht : phrase.firstAt t with
    | none =>
      rw [ht] at hfirst
      simp only [phraseSpans, foundPhrases, otherPhrases, hfirst, ht, hrest t, and_self]
    | some start =>
      rw [ht] at hfirst
      simp only [phraseSpans, foundPhrases, otherPhrases, hfirst, ht, blank_oneSigma,
        hrest (blank t start phrase.length), and_self]

lemma run_lower (C : Casing) (F : Floats V) (t : Text) :
    phraseSpans F DURATION_WORDS (C.lower t) = phraseSpans F DURATION_WORDS (lowered C.toLetters t) ∧
      foundPhrases DURATION_WORDS (C.lower t) = foundPhrases DURATION_WORDS (lowered C.toLetters t) ∧
      otherPhrases DURATION_WORDS (C.lower t) =
        otherPhrases DURATION_WORDS (lowered C.toLetters t) := by
  obtain ⟨hspans, hfound, hothers⟩ := run_oneSigma (F := F) noSigma_duration_words (C.lower t)
  rw [C.lower_eq] at hspans hfound hothers
  exact ⟨hspans.symm, hfound.symm, hothers.symm⟩

/-- Lowering makes the text longer by its `İ`. -/
lemma length_lowered (C : Casing) (t : Text) :
    (lowered C.toLetters t).length = t.length + t.count 0x130 := by
  induction t with
  | nil => rfl
  | cons c t ih =>
    rw [lowered, List.flatMap_cons, List.length_append, List.length_map, C.length_lowerChar,
      List.length_cons, List.count_cons]
    rw [lowered] at ih
    rw [ih]
    by_cases hc : c = 0x130
    · simp [hc]
      omega
    · simp [hc]
      omega

lemma length_lower (C : Casing) (t : Text) : (C.lower t).length = t.length + t.count 0x130 := by
  rw [← length_lowered, lowered, ← C.lower_eq, List.length_map]

section

variable {a brk b : Text} (hbrk : IsBreak C brk) (h : NoneAcross C F a brk b)
include hbrk h

/-- The phrases of joined texts. -/
lemma phrases_joined :
    (phraseSpans F DURATION_WORDS (C.lower (masked C (a ++ (brk ++ b))))).Perm
      (phraseSpans F DURATION_WORDS (C.lower (masked C a)) ++
        (phraseSpans F (otherPhrases DURATION_WORDS (C.lower (masked C a)))
          (lowered C.toLetters (masked C b))).map
            (Span.shift (a.length + brk.length + (masked C a).count 0x130))) := by
  have hgap : (lowered C.toLetters brk).length = brk.length := by
    rw [length_lowered, List.count_eq_zero.2, Nat.add_zero]
    intro hmem
    have := hbrk.no_word _ hmem
    rw [C.isWord_dotted] at this
    contradiction
  have hlower : lowered C.toLetters (masked C (a ++ (brk ++ b))) =
      lowered C.toLetters (masked C a) ++
        (lowered C.toLetters brk ++ lowered C.toLetters (masked C b)) := by
    rw [(stages_joined hbrk h).2.2.2]
    simp only [lowered, List.flatMap_append]
  have hne : ∀ e ∈ DURATION_WORDS, e.1 ≠ [] := by decide +kernel
  have hrun := phraseSpans_joined (F := F) hne (lowered C.toLetters (masked C a))
    (lowered C.toLetters brk) (lowered C.toLetters (masked C b)) fun s hs => by
      rw [← hlower, ← (run_lower C F _).1] at hs
      have := h.phrases s hs
      rwa [length_lower, ← length_lowered, ← hgap] at this
  rw [(run_lower C F _).1, (run_lower C F (masked C a)).1, (run_lower C F (masked C a)).2.2, hlower]
  have hlen : a.length + brk.length + (masked C a).count 0x130 =
      (lowered C.toLetters (masked C a)).length + (lowered C.toLetters brk).length := by
    rw [hgap, length_lowered, length_masked]
    omega
  rw [hlen]
  exact hrun

end

/-! ### The order of the spans -/

section

variable [LinearOrder V]

instance : Std.Total (Span.le (V := V)) where
  total s s' := by
    have hminutes := le_total s.minutes s'.minutes
    unfold Span.le
    rcases Nat.lt_trichotomy s.start s'.start with hstart | hstart | hstart
    · exact .inl (.inl hstart)
    · rcases Nat.lt_trichotomy s.stop s'.stop with hstop | hstop | hstop
      · exact .inl (.inr ⟨hstart, .inl hstop⟩)
      · rcases hminutes with hle | hle
        · exact .inl (.inr ⟨hstart, .inr ⟨hstop, hle⟩⟩)
        · exact .inr (.inr ⟨hstart.symm, .inr ⟨hstop.symm, hle⟩⟩)
      · exact .inr (.inr ⟨hstart.symm, .inl hstop⟩)
    · exact .inr (.inl hstart)

instance : IsTrans (Span V) Span.le where
  trans s s' s'' h h' := by
    rcases h with h | ⟨hstart, h⟩
    · refine .inl ?_
      rcases h' with h' | ⟨hstart', -⟩ <;> omega
    · rcases h' with h' | ⟨hstart', h'⟩
      · exact .inl (by omega)
      · refine .inr ⟨by omega, ?_⟩
        rcases h with h | ⟨hstop, h⟩
        · refine .inl ?_
          rcases h' with h' | ⟨hstop', -⟩ <;> omega
        · rcases h' with h' | ⟨hstop', h'⟩
          · exact .inl (by omega)
          · exact .inr ⟨by omega, h.trans h'⟩

lemma span_eq_of_le {s s' : Span V} (h : s.le s') (h' : s'.le s) : s = s' := by
  obtain ⟨start, stop, minutes⟩ := s
  obtain ⟨start', stop', minutes'⟩ := s'
  rcases h with h | ⟨rfl : start = start', h⟩
  · rcases h' with h' | ⟨h', -⟩ <;> (simp only at h h'; omega)
  · rcases h' with h' | ⟨-, h'⟩
    · exact absurd h' (Nat.lt_irrefl _)
    · rcases h with h | ⟨rfl : stop = stop', h⟩
      · rcases h' with h' | ⟨h', -⟩ <;> (simp only at h h'; omega)
      · rcases h' with h' | ⟨-, h'⟩
        · exact absurd h' (Nat.lt_irrefl _)
        · exact congrArg (Span.mk start stop) (le_antisymm h h')

lemma Span.shift_le {s s' : Span V} (d : Nat) (h : s.le s') : (s.shift d).le (s'.shift d) := by
  rcases h with h | ⟨hstart, h⟩
  · exact .inl (Nat.add_lt_add_right h d)
  · refine .inr ⟨congrArg (· + d) hstart, ?_⟩
    rcases h with h | ⟨hstop, h⟩
    · exact .inl (Nat.add_lt_add_right h d)
    · exact .inr ⟨congrArg (· + d) hstop, h⟩

/-- Two sorted lists, the second moved, are the sorting of all where the first comes before. -/
lemma insertionSort_eq_append_iff {l l₁ l₂ : List (Span V)} {d : Nat} :
    l.insertionSort Span.le =
        l₁.insertionSort Span.le ++ (l₂.insertionSort Span.le).map (Span.shift d) ↔
      l.Perm (l₁ ++ l₂.map (Span.shift d)) ∧ ∀ s ∈ l₁, ∀ s' ∈ l₂, s.le (s'.shift d) := by
  have hl := List.perm_insertionSort Span.le l
  have hl₁ := List.perm_insertionSort Span.le l₁
  have hl₂ := List.perm_insertionSort Span.le l₂
  have hparts := hl₁.append (hl₂.map (Span.shift d))
  have hsorted := List.pairwise_insertionSort Span.le l
  constructor
  · intro h
    refine ⟨hl.symm.trans (h ▸ hparts), fun s hs s' hs' => ?_⟩
    rw [h, List.pairwise_append] at hsorted
    exact hsorted.2.2 s (hl₁.mem_iff.2 hs) _ (List.mem_map_of_mem (hl₂.mem_iff.2 hs'))
  · rintro ⟨hperm, hle⟩
    refine List.Perm.eq_of_pairwise (fun s s' _ _ => span_eq_of_le) hsorted ?_
      (hl.trans (hperm.trans hparts.symm))
    refine List.pairwise_append.2 ⟨List.pairwise_insertionSort Span.le l₁, ?_, ?_⟩
    · exact List.pairwise_map.2 ((List.pairwise_insertionSort Span.le l₂).imp (Span.shift_le d))
    · intro s hs s' hs'
      obtain ⟨s₂, hs₂, rfl⟩ := List.mem_map.1 hs'
      exact hle s (hl₁.mem_iff.1 hs) s₂ (hl₂.mem_iff.1 hs₂)

end

/-! ### When nothing is missed -/

/-- Each number word of the hours in words is in the table once it is lowered. -/
def InTable (C : Casing) (text : Text) : Prop :=
  ∀ m ∈ (_WORD_HOURS C).locate (mask (HOURS_AND_MINUTES C) text),
    (_HOUR_WORDS.lookup (C.lower ((group m.2.groups 1).getD []))).isSome

lemma isSome_wordHoursSpans (C : Casing) (F : Floats V) (text : Text) :
    (wordHoursSpans C F (mask (HOURS_AND_MINUTES C) text)).isSome ↔ InTable C text := by
  rw [wordHoursSpans, InTable]
  induction (_WORD_HOURS C).locate (mask (HOURS_AND_MINUTES C) text) with
  | nil => simp
  | cons m ms ih =>
    have hvalue : (spanOf? (_word_hours C F) m).isSome =
        (_HOUR_WORDS.lookup (C.lower ((group m.2.groups 1).getD []))).isSome := by
      simp [spanOf?, _word_hours]
    rw [List.forall_mem_cons, ← ih, ← hvalue, List.mapM_cons]
    cases spanOf? (_word_hours C F) m with
    | none => simp
    | some s => cases ms.mapM (spanOf? (_word_hours C F)) <;> simp

section

variable [LinearOrder V]

/-- The spans of joined texts are those of the one, and behind them those of the other, moved. -/
def SpansFollow (C : Casing) (F : Floats V) (a brk b : Text) : Prop :=
  ∃ spans spans', figure_spans C F a = some spans ∧ figure_spans C F b = some spans' ∧
    figure_spans C F (a ++ (brk ++ b)) =
      some (spans ++ spans'.map (Span.shift (a.length + brk.length)))

/-- No phrase is found in both texts. The other fields are about `İ`, which `str.lower` makes
longer: no number word has one, and none before the break moves a phrase behind it or moves one
past the figures of the second text. -/
structure NoneMissed (C : Casing) (F : Floats V) (a brk b : Text) : Prop where
  distinct : ∀ e ∈ phrasesOf C a, e ∉ phrasesOf C b
  table : InTable C a ∧ InTable C b
  unmoved : 0x130 ∉ masked C a ∨ phrasesOf C b = []
  ordered : ∀ s ∈ phraseSpans F DURATION_WORDS (C.lower (masked C a)),
    ∀ s' ∈ hoursSpans C F b ++
        (wordHoursSpans C F (mask (HOURS_AND_MINUTES C) b)).getD [] ++
        minutesSpans C F (masked C b),
      s.le (s'.shift (a.length + brk.length))

/-- The spans of a text before they are sorted. -/
def unsorted (C : Casing) (F : Floats V) (text : Text) (words : List (Span V)) : List (Span V) :=
  hoursSpans C F text ++ words ++ minutesSpans C F (masked C text) ++
    phraseSpans F DURATION_WORDS (C.lower (masked C text))

lemma figure_spans_eq {text : Text} {words : List (Span V)}
    (h : wordHoursSpans C F (mask (HOURS_AND_MINUTES C) text) = some words) :
    figure_spans C F text = some ((unsorted C F text words).insertionSort Span.le) := by
  rw [figure_spans, h]
  rfl

lemma figure_spans_eq_none {text : Text}
    (h : wordHoursSpans C F (mask (HOURS_AND_MINUTES C) text) = none) :
    figure_spans C F text = none := by
  rw [figure_spans, h]
  rfl

end

/-! ### The phrases of the second text -/

lemma phraseSpans_eq_nil_iff {entries : List (Text × Nat)} {words : Text} :
    phraseSpans F entries words = [] ↔ foundPhrases entries words = [] := by
  rw [← List.map_eq_nil_iff (f := fun s : Span V => (s.stop - s.start, s.minutes)),
    phraseSpans_measure, List.map_eq_nil_iff]

/-- Moved spans keep their length and minutes. -/
lemma measure_shift (d : Nat) (spans : List (Span V)) :
    (spans.map (Span.shift d)).map (fun s => (s.stop - s.start, s.minutes)) =
      spans.map fun s => (s.stop - s.start, s.minutes) := by
  rw [List.map_map]
  refine List.map_congr_left fun s _ => ?_
  simp only [Function.comp_apply, Span.shift, Nat.add_sub_add_right]

/-- Spans that are moved in two ways are the same only where there are none or the ways are. -/
lemma perm_shift_iff {spans : List (Span V)} {d k : Nat} :
    (spans.map (Span.shift (d + k))).Perm (spans.map (Span.shift d)) ↔ k = 0 ∨ spans = [] := by
  constructor
  · intro h
    by_contra hne
    rw [not_or] at hne
    -- Each span has one that starts further on, so some start behind any bound.
    have hnext : ∀ s ∈ spans, ∃ s' ∈ spans, s.start < s'.start := by
      intro s hs
      have hmem := h.mem_iff.1 (List.mem_map_of_mem (f := Span.shift (d + k)) hs)
      obtain ⟨s', hs', heq⟩ := List.mem_map.1 hmem
      have hstart : s'.start + d = s.start + (d + k) := congrArg Span.start heq
      exact ⟨s', hs', by omega⟩
    have hbound : ∃ n, ∀ s ∈ spans, s.start ≤ n := by
      clear h hne hnext
      induction spans with
      | nil => exact ⟨0, by simp⟩
      | cons s spans ih =>
        obtain ⟨n, hn⟩ := ih
        refine ⟨s.start + n, fun s' hs' => ?_⟩
        rcases List.mem_cons.1 hs' with rfl | hs'
        · omega
        · have := hn s' hs'
          omega
    have hall (n : Nat) : ∃ s ∈ spans, n ≤ s.start := by
      induction n with
      | zero =>
        obtain ⟨s, hs⟩ := List.exists_mem_of_ne_nil _ hne.2
        exact ⟨s, hs, Nat.zero_le _⟩
      | succ n ih =>
        obtain ⟨s, hs, hle⟩ := ih
        obtain ⟨s', hs', hlt⟩ := hnext s hs
        exact ⟨s', hs', by omega⟩
    obtain ⟨n, hn⟩ := hbound
    obtain ⟨s, hs, hle⟩ := hall (n + 1)
    have := hn s hs
    omega
  · rintro (rfl | rfl)
    · exact List.Perm.refl _
    · exact List.Perm.refl _

/-- What the run over joined texts finds in the second text is what is found there by itself. -/
lemma perm_phrases_iff {words more : Text} {d k : Nat} :
    ((phraseSpans F (otherPhrases DURATION_WORDS words) more).map (Span.shift (d + k))).Perm
        ((phraseSpans F DURATION_WORDS more).map (Span.shift d)) ↔
      (∀ e ∈ foundPhrases DURATION_WORDS words, e ∉ foundPhrases DURATION_WORDS more) ∧
        (k = 0 ∨ foundPhrases DURATION_WORDS more = []) := by
  constructor
  · intro h
    have hdistinct : ∀ e ∈ foundPhrases DURATION_WORDS words,
        e ∉ foundPhrases DURATION_WORDS more := by
      intro e he he'
      have hmeasure := h.map fun s : Span V => (s.stop - s.start, s.minutes)
      rw [measure_shift, measure_shift, phraseSpans_measure, phraseSpans_measure] at hmeasure
      have hfactor (l : List (Text × Nat)) : l.map (fun e => (e.1.length, F.ofNat e.2)) =
          (l.map measure).map fun n => (n.1, F.ofNat n.2) := by
        rw [List.map_map]
        rfl
      rw [hfactor, hfactor, List.map_perm_map_iff] at hmeasure
      · exact not_perm_of_found_twice he he' hmeasure
      · intro n n' hn
        have hn := Prod.mk.inj hn
        exact Prod.ext hn.1 (F.ofNat_inj _ _ hn.2)
    rw [(run_otherPhrases hdistinct).2 F, perm_shift_iff, phraseSpans_eq_nil_iff] at h
    exact ⟨hdistinct, h⟩
  · rintro ⟨hdistinct, h⟩
    rwa [(run_otherPhrases hdistinct).2 F, perm_shift_iff, phraseSpans_eq_nil_iff]

section

variable [LinearOrder V]

/-- What both sides have in front may be left out. -/
lemma perm_parts_iff {hours hours' words words' minutes minutes' phrases phrases' joined found :
      List (Span V)} (h : joined.Perm (phrases ++ found)) :
    ((hours ++ hours') ++ (words ++ words') ++ (minutes ++ minutes') ++ joined).Perm
        ((hours ++ words ++ minutes ++ phrases) ++ (hours' ++ words' ++ minutes' ++ phrases')) ↔
      found.Perm phrases' := by
  simp only [List.perm_iff_count, List.count_append] at h ⊢
  constructor
  · intro heq s
    have := heq s
    have := h s
    omega
  · intro heq s
    have := heq s
    have := h s
    omega

/-- The figures of the first text come before those of the second. -/
lemma before_iff {a brk b : Text} (hbrk : IsBreak C brk) {words words' : List (Span V)}
    (hwords : wordHoursSpans C F (mask (HOURS_AND_MINUTES C) a) = some words)
    (hunmoved : 0x130 ∉ masked C a ∨ phrasesOf C b = []) :
    (∀ s ∈ unsorted C F a words, ∀ s' ∈ unsorted C F b words',
        s.le (s'.shift (a.length + brk.length))) ↔
      ∀ s ∈ phraseSpans F DURATION_WORDS (C.lower (masked C a)),
        ∀ s' ∈ hoursSpans C F b ++ words' ++ minutesSpans C F (masked C b),
          s.le (s'.shift (a.length + brk.length)) := by
  have hpos := List.length_pos_of_ne_nil hbrk.ne_nil
  have hlt {s : Span V} (hs : s.start ≤ a.length) (s' : Span V) :
      s.le (s'.shift (a.length + brk.length)) := by
    refine .inl ?_
    simp only [Span.shift]
    omega
  have hlocated {p : Pattern Nat Nat} {text : Text} (hlen : text.length = a.length)
      {m : Nat × Pattern.Found Nat Nat} (hm : m ∈ p.locate text) : m.1 ≤ a.length := by
    have := Pattern.mem_locate_le hm
    omega
  constructor
  · intro h s hs s' hs'
    exact h s (List.mem_append_right _ hs) s' (List.mem_append_left _ hs')
  · intro h s hs s' hs'
    simp only [unsorted, List.mem_append, or_assoc] at hs
    rcases hs with hs | hs | hs | hs
    · obtain ⟨m, hm, rfl⟩ := List.mem_map.1 hs
      exact hlt (hlocated rfl hm) s'
    · obtain ⟨m, hm, hvalue⟩ := (List.forall₂_of_mapM_some hwords).exists_left hs
      obtain ⟨minutes, -, rfl⟩ := Option.map_eq_some_iff.1 hvalue
      exact hlt (hlocated (length_mask _ _) hm) s'
    · obtain ⟨m, hm, rfl⟩ := List.mem_map.1 hs
      exact hlt (hlocated (length_masked _ _) hm) s'
    · rcases List.mem_append.1 hs' with hs' | hs'
      · exact h s hs s' hs'
      · have hne : ∀ e ∈ DURATION_WORDS, e.1 ≠ [] := by decide +kernel
        have hle := mem_phraseSpans_le hne hs
        have hdotted : 0x130 ∉ masked C a := by
          refine hunmoved.resolve_right fun hnil => ?_
          rw [phrasesOf, ← phraseSpans_eq_nil_iff (F := F)] at hnil
          rw [hnil] at hs'
          exact absurd hs' List.not_mem_nil
        rw [length_lower, length_masked, List.count_eq_zero.2 hdotted] at hle
        exact hlt (by omega) s'

/-- **When no duration is missed.** Across a break that no duration goes over, the durations of the
joined texts are those of the two if and only if no phrase is found in both, and no `İ` changes
where the phrases are or what a number word is. -/
theorem spansFollow_iff (a brk b : Text) (hbrk : IsBreak C brk) (h : NoneAcross C F a brk b) :
    SpansFollow C F a brk b ↔ NoneMissed C F a brk b := by
  obtain ⟨hhours, hwords, hminutes, -⟩ := stages_joined hbrk h
  have hphrases := phrases_joined hbrk h
  cases ha : wordHoursSpans C F (mask (HOURS_AND_MINUTES C) a) with
  | none =>
    constructor
    · rintro ⟨spans, -, hspans, -⟩
      rw [figure_spans_eq_none ha] at hspans
      contradiction
    · intro hmissed
      have := (isSome_wordHoursSpans C F a).2 hmissed.table.1
      rw [ha] at this
      contradiction
  | some words =>
    cases hb : wordHoursSpans C F (mask (HOURS_AND_MINUTES C) b) with
    | none =>
      constructor
      · rintro ⟨-, spans, -, hspans, -⟩
        rw [figure_spans_eq_none hb] at hspans
        contradiction
      · intro hmissed
        have := (isSome_wordHoursSpans C F b).2 hmissed.table.2
        rw [hb] at this
        contradiction
    | some words' =>
      rw [ha, hb, Option.bind_some, Option.map_some] at hwords
      have htable : InTable C a ∧ InTable C b := by
        rw [← isSome_wordHoursSpans C F a, ← isSome_wordHoursSpans C F b, ha, hb]
        exact ⟨rfl, rfl⟩
      have hsorted : SpansFollow C F a brk b ↔
          (unsorted C F (a ++ (brk ++ b))
              (words ++ words'.map (Span.shift (a.length + brk.length)))).insertionSort Span.le =
            (unsorted C F a words).insertionSort Span.le ++
              ((unsorted C F b words').insertionSort Span.le).map
                (Span.shift (a.length + brk.length)) := by
        constructor
        · rintro ⟨spans, spans', hspans, hspans', hjoined⟩
          rw [figure_spans_eq ha] at hspans
          rw [figure_spans_eq hb] at hspans'
          rw [figure_spans_eq hwords] at hjoined
          cases hspans
          cases hspans'
          exact Option.some.inj hjoined
        · intro heq
          exact ⟨_, _, figure_spans_eq ha, figure_spans_eq hb,
            (figure_spans_eq hwords).trans (congrArg some heq)⟩
      have hperm : (unsorted C F (a ++ (brk ++ b))
            (words ++ words'.map (Span.shift (a.length + brk.length)))).Perm
          (unsorted C F a words ++
            (unsorted C F b words').map (Span.shift (a.length + brk.length))) ↔
          (∀ e ∈ phrasesOf C a, e ∉ phrasesOf C b) ∧
            ((masked C a).count 0x130 = 0 ∨ phrasesOf C b = []) := by
        rw [unsorted, unsorted, unsorted, hhours, hminutes, List.map_append, List.map_append,
          List.map_append, perm_parts_iff hphrases, (run_lower C F (masked C b)).1,
          perm_phrases_iff, phrasesOf, phrasesOf, ← (run_lower C F (masked C b)).2.1]
      rw [hsorted, insertionSort_eq_append_iff, hperm, List.count_eq_zero]
      constructor
      · rintro ⟨⟨hdistinct, hunmoved⟩, hall⟩
        refine ⟨hdistinct, htable, hunmoved, ?_⟩
        rw [hb]
        exact (before_iff hbrk ha hunmoved).1 hall
      · intro hmissed
        have hordered := hmissed.ordered
        rw [hb] at hordered
        exact ⟨⟨hmissed.distinct, hmissed.unmoved⟩,
          (before_iff hbrk ha hmissed.unmoved).2 hordered⟩

end

/-! ### Repeated wording -/

lemma asciiCasing_lower (t : Text) :
    (t.flatMap fun c => if c = 0x130 then [105, 0x307] else if 65 ≤ c ∧ c ≤ 90 then [c + 32]
      else [c]).map oneSigma =
      t.flatMap fun c => (if c = 0x130 then [105, 0x307] else if 65 ≤ c ∧ c ≤ 90 then [c + 32]
        else [c]).map oneSigma :=
  List.map_flatMap

lemma asciiCasing_boundary (c : Nat) (hc : isBoundary c) :
    (if c = 0x130 then [105, 0x307] else if 65 ≤ c ∧ c ≤ 90 then [c + 32] else [c]) = [c] ∧
      (isLetter c || (65 ≤ c && c ≤ 90) || (48 ≤ c && c ≤ 57) || c == 95 || c == 0x130) = false := by
  have hne := isBoundary_ne hc
  refine ⟨by rw [if_neg (by omega), if_neg (by omega)], ?_⟩
  simp only [isLetter, Bool.or_eq_false_iff, Bool.and_eq_false_imp, decide_eq_true_eq,
    decide_eq_false_iff_not, beq_eq_false_iff_ne]
  omega

lemma asciiCasing_sigma :
    (isLetter 0x3C2 || (65 ≤ 0x3C2 && 0x3C2 ≤ 90) || (48 ≤ 0x3C2 && 0x3C2 ≤ 57) || 0x3C2 == 95 ||
      0x3C2 == 0x130) =
      (isLetter 0x3C3 || (65 ≤ 0x3C3 && 0x3C3 ≤ 90) || (48 ≤ 0x3C3 && 0x3C3 ≤ 57) ||
        0x3C3 == 95 || 0x3C3 == 0x130) := rfl

lemma asciiCasing_digit (c : Nat) (hc : (48 ≤ c && c ≤ 57) = true) :
    (isLetter c || (65 ≤ c && c ≤ 90) || (48 ≤ c && c ≤ 57) || c == 95 || c == 0x130) = true := by
  simp only [hc, Bool.or_true, Bool.true_or]

lemma asciiCasing_dotted :
    (isLetter 0x130 || (65 ≤ 0x130 && 0x130 ≤ 90) || (48 ≤ 0x130 && 0x130 ≤ 57) || 0x130 == 95 ||
      0x130 == 0x130) = true := rfl

lemma length_asciiCasing (c : Nat) :
    (if c = 0x130 then [105, 0x307] else if 65 ≤ c ∧ c ≤ 90 then [c + 32] else [c]).length =
      if c = 0x130 then 2 else 1 := by
  split
  · rfl
  · split <;> rfl

/-- Letters and digits of ASCII, and `İ`. -/
def asciiCasing : Casing where
  lower t := t.flatMap fun c =>
    if c = 0x130 then [105, 0x307] else if 65 ≤ c ∧ c ≤ 90 then [c + 32] else [c]
  lowerChar c := if c = 0x130 then [105, 0x307] else if 65 ≤ c ∧ c ≤ 90 then [c + 32] else [c]
  isWord c := isLetter c || (65 ≤ c && c ≤ 90) || (48 ≤ c && c ≤ 57) || c == 95 || c == 0x130
  lower_eq := asciiCasing_lower
  isWord_sigma := asciiCasing_sigma
  boundary := asciiCasing_boundary
  isDigit c := 48 ≤ c && c ≤ 57
  isWord_digit := asciiCasing_digit
  isWord_dotted := asciiCasing_dotted
  length_lowerChar := length_asciiCasing

/-- Numbers of minutes that have no fraction. -/
def wholeMinutes : Floats Nat where
  float t := t.foldl (fun n c => n * 10 + (c - 48)) 0
  sixty x y := x * 60 + y
  ofNat n := n
  ofNat_inj _ _ h := h

theorem spansFollow_half_an_hour_and_minutes :
    SpansFollow asciiCasing wholeMinutes "Bow takes half an hour" ". " "Camden takes 20 minutes" := by
  refine (spansFollow_iff _ _ _ ?_ ?_).2 ?_
  · exact ⟨by decide +kernel, by decide +kernel, by decide +kernel⟩
  · constructor
    · unfold Pattern.Apart
      decide +kernel
    · unfold Pattern.Apart
      decide +kernel
    · unfold Pattern.Apart
      decide +kernel
    · decide +kernel
  · constructor
    · decide +kernel
    · unfold InTable
      decide +kernel
    · decide +kernel
    · decide +kernel

/-- The second `half an hour` is read as `an hour`. -/
theorem spansFollow_half_an_hour_twice :
    (IsBreak asciiCasing ". " ∧
        NoneAcross asciiCasing wholeMinutes "half an hour" ". " "half an hour") ∧
      ¬SpansFollow asciiCasing wholeMinutes "half an hour" ". " "half an hour" := by
  refine ⟨⟨⟨by decide +kernel, by decide +kernel, by decide +kernel⟩, ?_⟩, ?_⟩
  · constructor
    · unfold Pattern.Apart
      decide +kernel
    · unfold Pattern.Apart
      decide +kernel
    · unfold Pattern.Apart
      decide +kernel
    · decide +kernel
  · rintro ⟨spans, spans', hspans, hspans', hjoined⟩
    have hone : figure_spans asciiCasing wholeMinutes "half an hour" =
        some [{ start := 0, stop := 12, minutes := 30 }] := by
      decide +kernel
    have htwo : figure_spans asciiCasing wholeMinutes
        (Text.ofString "half an hour" ++ (Text.ofString ". " ++ Text.ofString "half an hour")) =
          some [{ start := 0, stop := 12, minutes := 30 },
            { start := 19, stop := 26, minutes := 60 }] := by
      decide +kernel
    rw [hone] at hspans hspans'
    cases hspans
    cases hspans'
    rw [htwo] at hjoined
    revert hjoined
    decide +kernel

end RentCompass.Commute
