import RentCompass.Agent.Durations

/-!
# Runs over the phrases

Each phrase is blanked where it first stands, so in joined texts a phrase of the first text is not
looked for in the second. What the run over joined texts finds are the phrases of the first text,
and in the second those that a run without the found ones finds.
-/

namespace RentCompass.Commute

variable {V : Type}

/-- The span moved. -/
def Span.shift (d : Nat) (s : Span V) : Span V :=
  { start := s.start + d, stop := s.stop + d, minutes := s.minutes }

/-- The phrases that stand in what the earlier ones leave. -/
def foundPhrases : List (Text × Nat) → Text → List (Text × Nat)
  | [], _ => []
  | entry :: rest, words =>
    match entry.1.firstAt words with
    | some start => entry :: foundPhrases rest (blank words start entry.1.length)
    | none => foundPhrases rest words

/-- The others. -/
def otherPhrases : List (Text × Nat) → Text → List (Text × Nat)
  | [], _ => []
  | entry :: rest, words =>
    match entry.1.firstAt words with
    | some start => otherPhrases rest (blank words start entry.1.length)
    | none => entry :: otherPhrases rest words

/-- What the phrases leave. -/
def leftover : List (Text × Nat) → Text → Text
  | [], words => words
  | entry :: rest, words =>
    match entry.1.firstAt words with
    | some start => leftover rest (blank words start entry.1.length)
    | none => leftover rest words

/-! ### Joined texts -/

lemma length_blank {words : Text} {start n : Nat} (h : start + n ≤ words.length) :
    (blank words start n).length = words.length := by
  simp only [blank, List.length_append, List.length_take, List.length_replicate, List.length_drop]
  omega

lemma blank_append_left {words : Text} {start n : Nat} (h : start + n ≤ words.length)
    (more : Text) : blank (words ++ more) start n = blank words start n ++ more := by
  rw [blank, blank, List.take_append_of_le_length (by omega), List.drop_append_of_le_length h,
    List.append_assoc (_ ++ _)]

lemma blank_append_right (words more : Text) (start n : Nat) :
    blank (words ++ more) (words.length + start) n = words ++ blank more start n := by
  rw [blank, blank, List.take_length_add_append, Nat.add_assoc, List.drop_length_add_append]
  simp only [List.append_assoc]

lemma occursAt_append_right {phrase : Text} (words more : Text) (s : Nat) :
    phrase.OccursAt (words ++ more) (words.length + s) ↔ phrase.OccursAt more s := by
  rw [List.OccursAt, List.drop_length_add_append]
  rfl

section

variable {phrase : Text} (hne : phrase ≠ [])
include hne

lemma firstAt_le {words : Text} {start : Nat} (h : phrase.firstAt words = some start) :
    start + phrase.length ≤ words.length :=
  ((List.firstAt_eq_some_iff hne).1 h).1.le hne

/-- A phrase of the first text is found there. -/
lemma firstAt_append_left {words : Text} {start : Nat} (h : phrase.firstAt words = some start)
    (more : Text) : phrase.firstAt (words ++ more) = some start := by
  have hle := firstAt_le hne h
  obtain ⟨hstart, hno⟩ := (List.firstAt_eq_some_iff hne).1 h
  refine (List.firstAt_eq_some_iff hne).2 ⟨(List.occursAt_append hle more).2 hstart, ?_⟩
  intro s hs hocc
  exact hno s hs ((List.occursAt_append (by omega) more).1 hocc)

/-- Any other phrase is found in the second text if at all, where it is not found across. -/
lemma firstAt_append_right {words gap more : Text} (h : phrase.firstAt words = none)
    (hapart : ∀ start ∈ phrase.firstAt (words ++ (gap ++ more)),
      start + phrase.length ≤ words.length ∨ words.length + gap.length ≤ start) :
    phrase.firstAt (words ++ (gap ++ more)) =
      (phrase.firstAt more).map fun start => words.length + gap.length + start := by
  have hwords := (List.firstAt_eq_none_iff hne).1 h
  have hmore (s : Nat) : phrase.OccursAt (words ++ (gap ++ more)) (words.length + gap.length + s) ↔
      phrase.OccursAt more s := by
    rw [← List.append_assoc, ← List.length_append]
    exact occursAt_append_right (words ++ gap) more s
  cases hwhole : phrase.firstAt (words ++ (gap ++ more)) with
  | none =>
    have hall := (List.firstAt_eq_none_iff hne).1 hwhole
    have hnone := (List.firstAt_eq_none_iff hne).2 fun s hs => hall _ ((hmore s).2 hs)
    rw [hnone]
    rfl
  | some start =>
    obtain ⟨hstart, hno⟩ := (List.firstAt_eq_some_iff hne).1 hwhole
    rcases hapart start hwhole with hleft | hright
    · exact absurd ((List.occursAt_append hleft (gap ++ more)).1 hstart) (hwords start)
    · obtain ⟨s, rfl⟩ := Nat.exists_eq_add_of_le hright
      have hfirst := (List.firstAt_eq_some_iff hne).2 ⟨(hmore s).1 hstart, fun s' hs' hocc =>
        hno _ (by omega) ((hmore s').2 hocc)⟩
      rw [hfirst]
      rfl

end

variable {F : Floats V}

/-- Each phrase lies in the text. -/
lemma mem_phraseSpans_le {entries : List (Text × Nat)} (hne : ∀ e ∈ entries, e.1 ≠ [])
    {words : Text} {s : Span V} (hs : s ∈ phraseSpans F entries words) :
    s.stop ≤ words.length ∧ s.start ≤ s.stop := by
  induction entries generalizing words with
  | nil => exact absurd hs List.not_mem_nil
  | cons entry entries ih =>
    obtain ⟨phrase, value⟩ := entry
    have hrest : ∀ e ∈ entries, e.1 ≠ [] := fun e he => hne e (by simp [he])
    cases hfirst : phrase.firstAt words with
    | none =>
      simp only [phraseSpans, hfirst] at hs
      exact ih hrest hs
    | some start =>
      have hle := firstAt_le (hne (phrase, value) (by simp)) hfirst
      simp only [phraseSpans, hfirst] at hs
      rcases List.mem_cons.1 hs with rfl | hs
      · exact ⟨hle, Nat.le_add_right _ _⟩
      · rw [← length_blank hle]
        exact ih hrest hs

/-- The run over joined texts. -/
theorem phraseSpans_joined {entries : List (Text × Nat)} (hne : ∀ e ∈ entries, e.1 ≠ [])
    (words gap more : Text)
    (hapart : ∀ s ∈ phraseSpans F entries (words ++ (gap ++ more)),
      s.stop ≤ words.length ∨ words.length + gap.length ≤ s.start) :
    (phraseSpans F entries (words ++ (gap ++ more))).Perm
      (phraseSpans F entries words ++ (phraseSpans F (otherPhrases entries words) more).map
        (Span.shift (words.length + gap.length))) := by
  induction entries generalizing words more with
  | nil => exact List.Perm.refl _
  | cons entry entries ih =>
    obtain ⟨phrase, value⟩ := entry
    have hphrase : phrase ≠ [] := hne (phrase, value) (by simp)
    have hrest : ∀ e ∈ entries, e.1 ≠ [] := fun e he => hne e (by simp [he])
    cases hwords : phrase.firstAt words with
    | some start =>
      have hle := firstAt_le hphrase hwords
      have hwhole := firstAt_append_left hphrase hwords (gap ++ more)
      have hlen := length_blank hle
      simp only [phraseSpans, otherPhrases, hwhole, hwords, blank_append_left hle] at hapart ⊢
      refine List.Perm.cons _ ?_
      rw [← hlen]
      refine ih hrest (blank words start phrase.length) more fun s hs => ?_
      rw [hlen]
      exact hapart s (List.mem_cons_of_mem _ hs)
    | none =>
      have hstart : ∀ start ∈ phrase.firstAt (words ++ (gap ++ more)),
          start + phrase.length ≤ words.length ∨ words.length + gap.length ≤ start := by
        intro start hstart
        simp only [phraseSpans, Option.mem_def.1 hstart] at hapart
        exact hapart _ List.mem_cons_self
      have hwhole := firstAt_append_right hphrase hwords hstart
      cases hmore : phrase.firstAt more with
      | none =>
        rw [hmore, Option.map_none] at hwhole
        simp only [phraseSpans, otherPhrases, hwhole, hwords, hmore] at hapart ⊢
        exact ih hrest words more hapart
      | some start =>
        rw [hmore, Option.map_some] at hwhole
        have hblank : blank (words ++ (gap ++ more)) (words.length + gap.length + start)
            phrase.length = words ++ (gap ++ blank more start phrase.length) := by
          rw [← List.append_assoc, ← List.length_append, blank_append_right, List.append_assoc]
        have hspan : (⟨words.length + gap.length + start,
              words.length + gap.length + start + phrase.length, F.ofNat value⟩ : Span V) =
            Span.shift (words.length + gap.length)
              ⟨start, start + phrase.length, F.ofNat value⟩ := by
          simp only [Span.shift, Span.mk.injEq, and_true]
          omega
        simp only [phraseSpans, otherPhrases, hwhole, hwords, hmore, hblank, List.map_cons]
          at hapart ⊢
        rw [hspan]
        have hrun := ih hrest words (blank more start phrase.length) fun s hs =>
          hapart s (List.mem_cons_of_mem _ hs)
        exact (hrun.cons _).trans List.perm_middle.symm

/-! ### Found phrases -/

lemma phraseSpans_measure (entries : List (Text × Nat)) (words : Text) :
    (phraseSpans F entries words).map (fun s => (s.stop - s.start, s.minutes)) =
      (foundPhrases entries words).map fun e => (e.1.length, F.ofNat e.2) := by
  induction entries generalizing words with
  | nil => rfl
  | cons entry entries ih =>
    obtain ⟨phrase, value⟩ := entry
    cases hfirst : phrase.firstAt words with
    | none => simpa only [phraseSpans, foundPhrases, hfirst] using ih words
    | some start =>
      simp only [phraseSpans, foundPhrases, hfirst, List.map_cons, ih, Nat.add_sub_cancel_left]

lemma foundPhrases_sublist (entries : List (Text × Nat)) (words : Text) :
    (foundPhrases entries words).Sublist entries := by
  induction entries generalizing words with
  | nil => exact List.Sublist.refl _
  | cons entry entries ih =>
    simp only [foundPhrases]
    cases entry.1.firstAt words with
    | none => exact (ih words).cons entry
    | some start => exact (ih _).cons_cons entry

lemma otherPhrases_sublist (entries : List (Text × Nat)) (words : Text) :
    (otherPhrases entries words).Sublist entries := by
  induction entries generalizing words with
  | nil => exact List.Sublist.refl _
  | cons entry entries ih =>
    simp only [otherPhrases]
    cases entry.1.firstAt words with
    | none => exact (ih words).cons_cons entry
    | some start => exact (ih _).cons entry

/-- Each phrase is found or not. -/
lemma not_mem_otherPhrases {entries : List (Text × Nat)} (hnodup : entries.Nodup) {words : Text}
    {e : Text × Nat} (he : e ∈ foundPhrases entries words) : e ∉ otherPhrases entries words := by
  induction entries generalizing words with
  | nil => exact absurd he List.not_mem_nil
  | cons entry entries ih =>
    obtain ⟨hentry, hnodup⟩ := List.nodup_cons.1 hnodup
    simp only [foundPhrases, otherPhrases] at he ⊢
    cases hfirst : entry.1.firstAt words with
    | none =>
      simp only [hfirst] at he
      intro hmem
      rcases List.mem_cons.1 hmem with rfl | hmem
      · exact hentry ((foundPhrases_sublist _ _).subset he)
      · exact ih hnodup he hmem
    | some start =>
      simp only [hfirst] at he
      rcases List.mem_cons.1 he with rfl | he
      · exact fun h => hentry ((otherPhrases_sublist _ _).subset h)
      · exact ih hnodup he

/-- Phrases that are not found may be left out. -/
lemma run_otherPhrases {entries : List (Text × Nat)} {words more : Text}
    (h : ∀ e ∈ foundPhrases entries words, e ∉ foundPhrases entries more) :
    leftover (otherPhrases entries words) more = leftover entries more ∧
      ∀ F : Floats V,
        phraseSpans F (otherPhrases entries words) more = phraseSpans F entries more := by
  induction entries generalizing words more with
  | nil => exact ⟨rfl, fun _ => rfl⟩
  | cons entry entries ih =>
    obtain ⟨phrase, value⟩ := entry
    cases hwords : phrase.firstAt words with
    | some start =>
      cases hmore : phrase.firstAt more with
      | some start' =>
        exfalso
        simp only [foundPhrases, hwords, hmore] at h
        exact h _ List.mem_cons_self List.mem_cons_self
      | none =>
        simp only [foundPhrases, hwords, hmore] at h
        simp only [phraseSpans, leftover, otherPhrases, hwords, hmore]
        exact ih fun e he => h e (List.mem_cons_of_mem _ he)
    | none =>
      cases hmore : phrase.firstAt more with
      | none =>
        simp only [foundPhrases, hwords, hmore] at h
        simp only [phraseSpans, leftover, otherPhrases, hwords, hmore]
        exact ih h
      | some start =>
        simp only [foundPhrases, hwords, hmore] at h
        simp only [phraseSpans, leftover, otherPhrases, hwords, hmore]
        have hrest := ih fun e he hmem => h e he (List.mem_cons_of_mem _ hmem)
        exact ⟨hrest.1, fun F => congrArg (_ :: ·) (hrest.2 F)⟩

/-! ### The turn of one phrase -/

section

variable {before after : List (Text × Nat)} {e : Text × Nat} {words : Text}

lemma foundPhrases_append (before after : List (Text × Nat)) (words : Text) :
    foundPhrases (before ++ after) words =
      foundPhrases before words ++ foundPhrases after (leftover before words) := by
  induction before generalizing words with
  | nil => rfl
  | cons entry before ih =>
    cases hfirst : entry.1.firstAt words with
    | none => simpa only [List.cons_append, foundPhrases, leftover, hfirst] using ih words
    | some start => simp only [List.cons_append, foundPhrases, leftover, hfirst, ih]

lemma otherPhrases_append (before after : List (Text × Nat)) (words : Text) :
    otherPhrases (before ++ after) words =
      otherPhrases before words ++ otherPhrases after (leftover before words) := by
  induction before generalizing words with
  | nil => rfl
  | cons entry before ih =>
    cases hfirst : entry.1.firstAt words with
    | none => simp only [List.cons_append, otherPhrases, leftover, hfirst, ih]
    | some start => simpa only [List.cons_append, otherPhrases, leftover, hfirst] using ih _

lemma leftover_append (before after : List (Text × Nat)) (words : Text) :
    leftover (before ++ after) words = leftover after (leftover before words) := by
  induction before generalizing words with
  | nil => rfl
  | cons entry before ih =>
    cases hfirst : entry.1.firstAt words with
    | none => simpa only [List.cons_append, leftover, hfirst] using ih words
    | some start => simpa only [List.cons_append, leftover, hfirst] using ih _

/-- A phrase is found where it stands at its turn. -/
lemma mem_foundPhrases_iff (hbefore : e ∉ before) (hafter : e ∉ after) :
    e ∈ foundPhrases (before ++ e :: after) words ↔
      (e.1.firstAt (leftover before words)).isSome := by
  have hout (words : Text) : e ∉ foundPhrases after words :=
    fun h => hafter ((foundPhrases_sublist _ _).subset h)
  rw [foundPhrases_append, List.mem_append, foundPhrases,
    or_iff_right fun h => hbefore ((foundPhrases_sublist _ _).subset h)]
  cases e.1.firstAt (leftover before words) with
  | none => simpa using hout (leftover before words)
  | some start => simp

lemma otherPhrases_of_mem (hbefore : e ∉ before) (hafter : e ∉ after)
    (h : e ∈ otherPhrases (before ++ e :: after) words) :
    otherPhrases (before ++ e :: after) words =
      otherPhrases before words ++ e :: otherPhrases after (leftover before words) := by
  rw [otherPhrases_append] at h ⊢
  rw [List.mem_append, or_iff_right fun h => hbefore ((otherPhrases_sublist _ _).subset h)] at h
  cases hfirst : e.1.firstAt (leftover before words) with
  | none => simp only [otherPhrases, hfirst]
  | some start =>
    simp only [otherPhrases, hfirst] at h
    exact absurd ((otherPhrases_sublist _ _).subset h) hafter

/-- A phrase that a run over the others finds stands there at its turn. -/
lemma isSome_of_mem_foundPhrases {more : Text} (hbefore : e ∉ before) (hafter : e ∉ after)
    (h : e ∈ foundPhrases (otherPhrases (before ++ e :: after) words) more) :
    (e.1.firstAt (leftover (otherPhrases before words) more)).isSome := by
  rw [otherPhrases_of_mem hbefore hafter ((foundPhrases_sublist _ _).subset h)] at h
  refine (mem_foundPhrases_iff ?_ ?_).1 h
  · exact fun h => hbefore ((otherPhrases_sublist _ _).subset h)
  · exact fun h => hafter ((otherPhrases_sublist _ _).subset h)

end

/-! ### The two half hours -/

/-- The phrases before the half hours. -/
def earlierPhrases : List (Text × Nat) := DURATION_WORDS.take 4

/-- The phrases behind them. -/
def laterPhrases : List (Text × Nat) := DURATION_WORDS.drop 6

def halfAnHour : Text × Nat := (Text.ofString "half an hour", 30)

def hyphenated : Text × Nat := (Text.ofString "half-an-hour", 30)

lemma duration_words_eq :
    DURATION_WORDS = earlierPhrases ++ halfAnHour :: hyphenated :: laterPhrases := by
  decide +kernel

lemma duration_words_nodup : DURATION_WORDS.Nodup := by decide +kernel

/-- Length and minutes of a phrase. -/
def measure (e : Text × Nat) : Nat × Nat := (e.1.length, e.2)

/-- Only the half hours have the same length and minutes. -/
lemma eq_or_halves : ∀ e ∈ DURATION_WORDS, ∀ e' ∈ DURATION_WORDS, measure e' = measure e →
    e' = e ∨ (e = halfAnHour ∧ e' = hyphenated) ∨ (e = hyphenated ∧ e' = halfAnHour) := by
  decide +kernel

/-- The half hours do not overlap. -/
lemma apart_of_occursAt {words : Text} {i j : Nat} (hi : halfAnHour.1.OccursAt words i)
    (hj : hyphenated.1.OccursAt words j) : i + 12 ≤ j ∨ j + 12 ≤ i := by
  have hright : ∀ d < 12, ∃ k < 12 - d, hyphenated.1[k]? ≠ halfAnHour.1[d + k]? := by
    decide +kernel
  have hleft : ∀ d < 12, ∃ k < 12 - d, halfAnHour.1[k]? ≠ hyphenated.1[d + k]? := by
    decide +kernel
  have hlen : halfAnHour.1.length = 12 ∧ hyphenated.1.length = 12 := by decide +kernel
  rw [List.occursAt_iff] at hi hj
  rcases Nat.le_total i j with hle | hle
  · obtain ⟨d, rfl⟩ := Nat.exists_eq_add_of_le hle
    by_contra hover
    obtain ⟨k, hk, hne⟩ := hright d (by omega)
    refine hne ?_
    rw [← hj k (by omega), ← hi (d + k) (by omega), Nat.add_assoc]
  · obtain ⟨d, rfl⟩ := Nat.exists_eq_add_of_le hle
    by_contra hover
    obtain ⟨k, hk, hne⟩ := hleft d (by omega)
    refine hne ?_
    rw [← hi k (by omega), ← hj (d + k) (by omega), Nat.add_assoc]

lemma getElem?_blank {words : Text} {start n i : Nat} (h : start + n ≤ words.length)
    (hi : i < start ∨ start + n ≤ i) : (blank words start n)[i]? = words[i]? := by
  have htake : (words.take start).length = start := by
    rw [List.length_take, Nat.min_eq_left (by omega)]
  have hblanked : (words.take start ++ List.replicate n 32).length = start + n := by
    rw [List.length_append, htake, List.length_replicate]
  rw [blank]
  rcases hi with hi | hi
  · rw [List.getElem?_append_left (by omega), List.getElem?_append_left (by omega),
      List.getElem?_take_of_lt hi]
  · rw [List.getElem?_append_right (by omega), hblanked, List.getElem?_drop]
    congr 1
    omega

/-- What stands apart from a blank stands still. -/
lemma occursAt_blank {phrase words : Text} {start n s : Nat} (h : phrase.OccursAt words s)
    (hstart : start + n ≤ words.length)
    (hapart : start + n ≤ s ∨ s + phrase.length ≤ start) :
    phrase.OccursAt (blank words start n) s := by
  rw [List.occursAt_iff] at h ⊢
  intro k hk
  rw [getElem?_blank hstart (by omega), h k hk]

lemma mem_pair {w : Text} {e e' : Text × Nat} (hne : e ≠ e')
    (he : e ∈ foundPhrases DURATION_WORDS w) (he' : e' ∈ foundPhrases DURATION_WORDS w)
    (h : measure e' = measure e) :
    2 ≤ ((foundPhrases DURATION_WORDS w).map measure).count (measure e) := by
  obtain ⟨l, hl, hsub⟩ : [e, e'].Subperm (foundPhrases DURATION_WORDS w) :=
    List.subperm_of_subset (by simpa using hne) (by simp [he, he'])
  have hcount := (hsub.map measure).count_le (measure e)
  rw [(hl.map measure).count_eq] at hcount
  have htwo : ([e, e'].map measure).count (measure e) = 2 := by simp [h]
  omega

/-- A twin of a phrase that is found in both texts is found in its place. -/
lemma exists_twin {words more : Text} {e : Text × Nat}
    (hwords : e ∈ foundPhrases DURATION_WORDS words)
    (hmore : e ∈ foundPhrases DURATION_WORDS more)
    (hperm : ((foundPhrases (otherPhrases DURATION_WORDS words) more).map measure).Perm
      ((foundPhrases DURATION_WORDS more).map measure)) :
    ∃ e', ((e = halfAnHour ∧ e' = hyphenated) ∨ (e = hyphenated ∧ e' = halfAnHour)) ∧
      e' ∈ foundPhrases (otherPhrases DURATION_WORDS words) more ∧
      e' ∉ foundPhrases DURATION_WORDS more := by
  have hother := not_mem_otherPhrases duration_words_nodup hwords
  have hkey : measure e ∈ (foundPhrases DURATION_WORDS more).map measure :=
    List.mem_map_of_mem hmore
  obtain ⟨e', he', hmeasure⟩ := List.mem_map.1 (hperm.mem_iff.2 hkey)
  have hne : e' ≠ e := by
    rintro rfl
    exact hother ((foundPhrases_sublist _ _).subset he')
  have hin : e' ∈ DURATION_WORDS :=
    (otherPhrases_sublist _ _).subset ((foundPhrases_sublist _ _).subset he')
  have htwin := (eq_or_halves e ((foundPhrases_sublist _ _).subset hmore) e' hin
    hmeasure).resolve_left hne
  refine ⟨e', htwin, he', fun hfound => ?_⟩
  have htwo := mem_pair hne.symm hmore hfound hmeasure
  rw [← hperm.count_eq] at htwo
  -- Without `e` only one of the phrases has these lengths and minutes.
  have hsub : (foundPhrases (otherPhrases DURATION_WORDS words) more).Sublist
      (DURATION_WORDS.erase e) := by
    have hothers := (otherPhrases_sublist DURATION_WORDS words).erase e
    rw [List.erase_of_not_mem hother] at hothers
    exact (foundPhrases_sublist _ _).trans hothers
  have hone := (hsub.map measure).count_le (measure e)
  rcases htwin with ⟨rfl, -⟩ | ⟨rfl, -⟩
  · have : ((DURATION_WORDS.erase halfAnHour).map measure).count (measure halfAnHour) = 1 := by
      decide +kernel
    omega
  · have : ((DURATION_WORDS.erase hyphenated).map measure).count (measure hyphenated) = 1 := by
      decide +kernel
    omega

/-- A phrase that is found in both texts is missed in the second: what is found there instead has
other lengths or minutes. -/
theorem not_perm_of_found_twice {words more : Text} {e : Text × Nat}
    (hwords : e ∈ foundPhrases DURATION_WORDS words)
    (hmore : e ∈ foundPhrases DURATION_WORDS more) :
    ¬((foundPhrases (otherPhrases DURATION_WORDS words) more).map measure).Perm
      ((foundPhrases DURATION_WORDS more).map measure) := by
  intro hperm
  -- The phrases before the half hours are not found twice.
  have hearlier : ∀ e ∈ foundPhrases earlierPhrases words, e ∉ foundPhrases earlierPhrases more := by
    intro e he he'
    have hall (t : Text) {e : Text × Nat} (h : e ∈ foundPhrases earlierPhrases t) :
        e ∈ foundPhrases DURATION_WORDS t := by
      rw [duration_words_eq, foundPhrases_append]
      exact List.mem_append_left _ h
    obtain ⟨e', htwin, -⟩ := exists_twin (hall words he) (hall more he') hperm
    have hin := (foundPhrases_sublist _ _).subset he
    have hout : halfAnHour ∉ earlierPhrases ∧ hyphenated ∉ earlierPhrases := by decide +kernel
    rcases htwin with ⟨rfl, -⟩ | ⟨rfl, -⟩
    · exact hout.1 hin
    · exact hout.2 hin
  have hsame : leftover (otherPhrases earlierPhrases words) more = leftover earlierPhrases more :=
    (run_otherPhrases (V := Nat) hearlier).1
  have hhalf : halfAnHour ∉ earlierPhrases ∧ halfAnHour ∉ hyphenated :: laterPhrases := by
    decide +kernel
  have hhyphenated : hyphenated ∉ earlierPhrases ++ [halfAnHour] ∧ hyphenated ∉ laterPhrases := by
    decide +kernel
  have hsplit : DURATION_WORDS = (earlierPhrases ++ [halfAnHour]) ++ hyphenated :: laterPhrases := by
    rw [duration_words_eq, List.append_assoc]
    rfl
  obtain ⟨e', htwin, hfound, hmissed⟩ := exists_twin hwords hmore hperm
  rcases htwin with ⟨rfl, rfl⟩ | ⟨rfl, rfl⟩
  · -- Without `half an hour` nothing is blanked over `half-an-hour`, but with it neither.
    rw [duration_words_eq, mem_foundPhrases_iff hhalf.1 hhalf.2] at hwords hmore
    obtain ⟨start, hstart⟩ := Option.isSome_iff_exists.1 hwords
    obtain ⟨i, hi⟩ := Option.isSome_iff_exists.1 hmore
    rw [hsplit] at hfound hmissed
    have hthere := isSome_of_mem_foundPhrases hhyphenated.1 hhyphenated.2 hfound
    have hnone : otherPhrases [halfAnHour] (leftover earlierPhrases words) = [] := by
      simp only [otherPhrases, hstart]
    rw [otherPhrases_append, hnone, List.append_nil, hsame] at hthere
    obtain ⟨j, hj⟩ := Option.isSome_iff_exists.1 hthere
    rw [mem_foundPhrases_iff hhyphenated.1 hhyphenated.2, leftover_append] at hmissed
    simp only [leftover, hi] at hmissed
    have hne : halfAnHour.1 ≠ [] ∧ hyphenated.1 ≠ [] := by decide +kernel
    have hoccurs := ((List.firstAt_eq_some_iff hne.1).1 hi).1
    have hoccurs' := ((List.firstAt_eq_some_iff hne.2).1 hj).1
    have hkept := occursAt_blank hoccurs' (firstAt_le hne.1 hi) (apart_of_occursAt hoccurs hoccurs')
    rw [Option.not_isSome_iff_eq_none, List.firstAt_eq_none_iff hne.2] at hmissed
    exact hmissed j hkept
  · -- `half an hour` has its turn before.
    rw [duration_words_eq] at hfound hmissed
    rw [mem_foundPhrases_iff hhalf.1 hhalf.2, ← hsame] at hmissed
    exact hmissed (isSome_of_mem_foundPhrases hhalf.1 hhalf.2 hfound)

end RentCompass.Commute
