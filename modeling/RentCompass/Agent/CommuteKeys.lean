import RentCompass.Matching
import RentCompass.Text
import RentCompass.Words

/-!
# Keys of texts

`_key` lowers a text, drops possessives and apostrophes and keeps the words of Latin letters,
digits and Chinese characters. A boundary character of the token index ends a word in each of
these steps, so the words of a text are those of its parts between such characters.
-/

namespace RentCompass.Commute

/-! ### Characters -/

/-- `_TOKEN_BOUNDARY` -/
def isBoundary (c : Nat) : Bool :=
  Text.isSpace c || (0x21 ≤ c && c ≤ 0x26) || (0x28 ≤ c && c ≤ 0x2F) || (0x3A ≤ c && c ≤ 0x40) ||
    (0x5B ≤ c && c ≤ 0x5E) || c == 0x60 || (0x7B ≤ c && c ≤ 0x7E) ||
    decide (c ∈ Text.ofString "，。；：！？、（）「」『』【】《》“”‘—–…·")

/-- `[a-z]` -/
def isLetter (c : Nat) : Bool := 97 ≤ c && c ≤ 122

/-- `'` and `’` -/
def isApostrophe (c : Nat) : Bool := c == 0x27 || c == 0x2019

/-- `[a-z0-9一-鿿]` -/
def isKey (c : Nat) : Bool := isLetter c || (48 ≤ c && c ≤ 57) || (0x4E00 ≤ c && c ≤ 0x9FFF)

/-- One sigma for the two small ones. -/
def oneSigma (c : Nat) : Nat := if c = 0x3C2 then 0x3C3 else c

/-- `str.lower` and `\w`. Each character is lowered by itself, but for the sigma, whose small form
depends on what stands around it. -/
structure Letters where
  lower : Text → Text
  lowerChar : Nat → Text
  isWord : Nat → Bool
  lower_eq : ∀ t, (lower t).map oneSigma = t.flatMap fun c => (lowerChar c).map oneSigma
  isWord_sigma : isWord 0x3C2 = isWord 0x3C3
  boundary : ∀ c, isBoundary c → lowerChar c = [c] ∧ isWord c = false

/-! ### Keys -/

/-- `(?<=[a-z])['’]s\b` -/
def possessive (L : Letters) : Pattern Unit Nat :=
  .plain (.concat [
    .beside fun before _ => before.any isLetter,
    .char isApostrophe, .char (· == 115),
    .beside fun before after => before.any L.isWord != after.any L.isWord])

/-- `[^a-z0-9一-鿿]+` -/
def nonKeys : Pattern Unit Nat := .plain (.plus fun c => !isKey c)

/-- `_key_of` -/
def _key_of (L : Letters) (text : Text) : Text :=
  let lowered := (possessive L).sub (fun _ => []) (L.lower text)
  Text.joinSpace (Text.split (nonKeys.sub (fun _ => [32])
    ((lowered.filter (· != 0x2019)).filter (· != 0x27))))

/-- `_key` -/
def _key (L : Letters) (text : Text) : Text := _key_of L text

/-! ### Possessives -/

/-- The text without possessives, where `before` stands before it. -/
def dropPossessives (L : Letters) : Option Nat → Text → Text
  | _, [] => []
  | _, [c] => [c]
  | before, q :: c :: t =>
    if before.any isLetter && isApostrophe q && c == 115 && (L.isWord c != t.head?.any L.isWord) then
      dropPossessives L (some c) t
    else q :: dropPossessives L (some q) (c :: t)

lemma ends_possessive (L : Letters) (before : Option Nat) (q c : Nat) (t : Text) :
    (possessive L).ends (before, q :: c :: t) =
      if before.any isLetter && isApostrophe q && c == 115 &&
          (L.isWord c != t.head?.any L.isWord) then [([], (some c, t))] else [] := by
  by_cases hbefore : before.any isLetter = true
  · by_cases hq : isApostrophe q = true
    · by_cases hc : (c == 115) = true
      · simp only [Pattern.ends, possessive, Regex.concat, Regex.ends, hbefore, hq, hc,
          List.foldr_cons, List.foldr_nil, if_true, List.flatMap_cons, List.flatMap_nil,
          List.append_nil, Option.any_some, Bool.and_self, Bool.true_and]
        split <;> rfl
      · simp [Pattern.ends, possessive, Regex.concat, Regex.ends, hbefore, hq, hc]
    · simp [Pattern.ends, possessive, Regex.concat, Regex.ends, hbefore, hq]
  · simp [Pattern.ends, possessive, Regex.concat, Regex.ends, hbefore]

lemma matchAt_possessive (L : Letters) (before : Option Nat) (q c : Nat) (t : Text) :
    (possessive L).matchAt (before, q :: c :: t) =
      if before.any isLetter && isApostrophe q && c == 115 &&
          (L.isWord c != t.head?.any L.isWord) then
        some { before := before, groups := [], text := [q, c], after := t.head? }
      else none := by
  rw [Pattern.matchAt, ends_possessive]
  split
  · have htake : (q :: c :: t).take ((q :: c :: t).length - t.length) = [q, c] := by
      have hlen : (q :: c :: t).length - t.length = 2 := by
        simp only [List.length_cons]
        omega
      rw [hlen]
      rfl
    simp only [List.head?_cons, Option.map_some, htake]
    rfl
  · rfl

lemma matchAt_possessive_short (L : Letters) (before : Option Nat) (q : Nat) :
    (possessive L).matchAt (before, [q]) = none := by
  have hends : (possessive L).ends (before, [q]) = [] := by
    by_cases hbefore : before.any isLetter = true
    · by_cases hq : isApostrophe q = true
      · simp [Pattern.ends, possessive, Regex.concat, Regex.ends, hbefore, hq]
      · simp [Pattern.ends, possessive, Regex.concat, Regex.ends, hbefore, hq]
    · simp [Pattern.ends, possessive, Regex.concat, Regex.ends, hbefore]
  rw [Pattern.matchAt, hends]
  rfl

/-- The substitution drops the possessives. -/
lemma sub_possessive (L : Letters) (before : Option Nat) (t : Text) :
    (possessive L).subIn (fun _ => []) [] before t = dropPossessives L before t := by
  fun_induction dropPossessives L before t with
  | case1 => rfl
  | case2 before c =>
    rw [Pattern.subIn_plain (by simpa using matchAt_possessive_short L before c)]
    rfl
  | case3 before q c t h ih =>
    have hm := matchAt_possessive L before q c t
    rw [if_pos h, ← List.append_nil (q :: c :: t)] at hm
    let m : Pattern.Found Unit Nat :=
      { before := before, groups := [], text := [q, c], after := t.head? }
    have hne : m.text ≠ [] := List.cons_ne_nil q [c]
    have hfound := Pattern.subIn_found (f := fun _ => []) hne hm
    exact hfound.trans ih
  | case4 before q c t h ih =>
    have hm := matchAt_possessive L before q c t
    rw [if_neg h] at hm
    rw [Pattern.subIn_plain (by simpa using hm), ih]

/-- No boundary character is an apostrophe, a digit, a Latin letter, an underscore, a sigma, `İ` or
Chinese. -/
lemma isBoundary_ne {x : Nat} (hx : isBoundary x) :
    x ≠ 0x27 ∧ x ≠ 0x2019 ∧ ¬(48 ≤ x ∧ x ≤ 57) ∧ ¬(65 ≤ x ∧ x ≤ 90) ∧ ¬(97 ≤ x ∧ x ≤ 122) ∧
      x ≠ 95 ∧ x ≠ 0x130 ∧ x ≠ 0x3C2 ∧ ¬(0x4E00 ≤ x ∧ x ≤ 0x9FFF) := by
  have hlisted : ∀ x ∈ Text.ofString "，。；：！？、（）「」『』【】《》“”‘—–…·",
      x ≠ 0x27 ∧ x ≠ 0x2019 ∧ ¬(48 ≤ x ∧ x ≤ 57) ∧ ¬(65 ≤ x ∧ x ≤ 90) ∧ ¬(97 ≤ x ∧ x ≤ 122) ∧
        x ≠ 95 ∧ x ≠ 0x130 ∧ x ≠ 0x3C2 ∧ ¬(0x4E00 ≤ x ∧ x ≤ 0x9FFF) := by
    decide +kernel
  simp only [isBoundary, Bool.or_eq_true, Bool.and_eq_true, decide_eq_true_eq, beq_iff_eq] at hx
  rcases hx with hx | hx
  · simp only [Text.isSpace, Bool.or_eq_true, Bool.and_eq_true, decide_eq_true_eq,
      beq_iff_eq] at hx
    omega
  · exact hlisted x hx

lemma isBoundary_out {x : Nat} (hx : isBoundary x) :
    isLetter x = false ∧ isApostrophe x = false ∧ (x == 115) = false ∧ isKey x = false ∧
      oneSigma x = x := by
  have hne := isBoundary_ne hx
  simp only [isKey, isLetter, isApostrophe, oneSigma, Bool.or_eq_false_iff,
    Bool.and_eq_false_imp, decide_eq_true_eq, decide_eq_false_iff_not, beq_eq_false_iff_ne]
  split <;> omega

lemma dropPossessives_of_not_letter (L : Letters) {x : Nat} (hx : isLetter x = false) (t : Text) :
    dropPossessives L (some x) t = dropPossessives L none t := by
  match t with
  | [] => rfl
  | [c] => rfl
  | q :: c :: t => simp [dropPossessives, hx]

/-- A boundary character takes no part in a possessive. -/
lemma dropPossessives_append (L : Letters) {x : Nat} (hx : isBoundary x) (before : Option Nat)
    (t u : Text) :
    dropPossessives L before (t ++ x :: u) =
      dropPossessives L before t ++ x :: dropPossessives L none u := by
  obtain ⟨hletter, hapostrophe, hs, -⟩ := isBoundary_out hx
  have hhere (before : Option Nat) :
      dropPossessives L before (x :: u) = x :: dropPossessives L none u := by
    cases u with
    | nil => rfl
    | cons c u =>
      rw [dropPossessives, hapostrophe, ← dropPossessives_of_not_letter L hletter]
      simp
  fun_induction dropPossessives L before t with
  | case1 before => exact hhere before
  | case2 before c =>
    simp only [List.cons_append, List.nil_append, dropPossessives, hs, Bool.and_false,
      Bool.false_and, Bool.false_eq_true, if_false, hhere]
  | case3 before q c t h ih =>
    have hhead : (t ++ x :: u).head?.any L.isWord = t.head?.any L.isWord := by
      cases t with
      | nil => simp [(L.boundary x hx).2]
      | cons d t => rfl
    rw [List.cons_append, List.cons_append, dropPossessives, hhead, if_pos h, ih]
  | case4 before q c t h ih =>
    have hhead : (t ++ x :: u).head?.any L.isWord = t.head?.any L.isWord := by
      cases t with
      | nil => simp [(L.boundary x hx).2]
      | cons d t => rfl
    rw [List.cons_append, List.cons_append, dropPossessives, hhead, if_neg h, ← List.cons_append,
      ih, List.cons_append]

lemma isLetter_oneSigma (c : Nat) : isLetter (oneSigma c) = isLetter c := by
  unfold oneSigma
  split
  · next h => rw [h]; rfl
  · rfl

lemma isApostrophe_oneSigma (c : Nat) : isApostrophe (oneSigma c) = isApostrophe c := by
  unfold oneSigma
  split
  · next h => rw [h]; rfl
  · rfl

lemma isKey_oneSigma (c : Nat) : isKey (oneSigma c) = isKey c := by
  unfold oneSigma
  split
  · next h => rw [h]; rfl
  · rfl

lemma oneSigma_of_isKey {c : Nat} (h : isKey c) : oneSigma c = c := by
  unfold oneSigma
  split
  · next hc => exact absurd (hc ▸ h) (by decide)
  · rfl

lemma eq_s_oneSigma (c : Nat) : (oneSigma c == 115) = (c == 115) := by
  unfold oneSigma
  split
  · next h => rw [h]; rfl
  · rfl

lemma isWord_oneSigma (L : Letters) (c : Nat) : L.isWord (oneSigma c) = L.isWord c := by
  unfold oneSigma
  split
  · next h => rw [h, L.isWord_sigma]
  · rfl

/-- Possessives do not tell the two sigmas apart. -/
lemma dropPossessives_oneSigma (L : Letters) (before : Option Nat) (t : Text) :
    dropPossessives L (before.map oneSigma) (t.map oneSigma) =
      (dropPossessives L before t).map oneSigma := by
  have hbefore (before : Option Nat) : (before.map oneSigma).any isLetter = before.any isLetter := by
    cases before with
    | none => rfl
    | some c => exact isLetter_oneSigma c
  have hhead (t : Text) : (t.map oneSigma).head?.any L.isWord = t.head?.any L.isWord := by
    cases t with
    | nil => rfl
    | cons c t => exact isWord_oneSigma L c
  fun_induction dropPossessives L before t with
  | case1 => rfl
  | case2 => rfl
  | case3 before q c t h ih =>
    rw [List.map_cons, List.map_cons, dropPossessives, hbefore, hhead, isApostrophe_oneSigma,
      eq_s_oneSigma, isWord_oneSigma, if_pos h]
    exact ih
  | case4 before q c t h ih =>
    rw [List.map_cons, List.map_cons, dropPossessives, hbefore, hhead, isApostrophe_oneSigma,
      eq_s_oneSigma, isWord_oneSigma, if_neg h, List.map_cons, ← ih]
    rfl

/-! ### Words -/

lemma split_eq_words (t : Text) : t.split = t.words (!Text.isSpace ·) := by
  have hclass : (fun c => !!Text.isSpace c) = Text.isSpace := funext fun c => Bool.not_not _
  rw [Text.split, List.words, hclass]
  refine List.filter_congr fun w _ => ?_
  cases w <;> rfl

/-- The words of a text that has no possessives. -/
def keyWords (t : Text) : List Text :=
  ((t.filter (· != 0x2019)).filter (· != 0x27)).words isKey

lemma not_isSpace_of_isKey {a : Nat} (ha : isKey a) : (!Text.isSpace a) = true := by
  simp only [isKey, isLetter, Bool.or_eq_true, Bool.and_eq_true, decide_eq_true_eq] at ha
  simp only [Text.isSpace, Bool.not_eq_true', Bool.or_eq_false_iff, Bool.and_eq_false_imp,
    decide_eq_true_eq, decide_eq_false_iff_not, beq_eq_false_iff_ne]
  omega

/-- What is no key is a gap between words, so each gap becomes one space. -/
lemma words_sub_nonKeys (t : Text) :
    (nonKeys.sub (fun _ => [32]) t).words (!Text.isSpace ·) = t.words isKey := by
  have hwithin : nonKeys.Within fun c => !isKey c := ⟨fun _ h => h, fun _ h => h⟩
  suffices ∀ (before : Option Nat) (t r : Text), (∀ a ∈ r, isKey a) →
      (r ++ nonKeys.subIn (fun _ => [32]) [] before t).words (!Text.isSpace ·) =
        (r ++ t).words isKey from this none t [] (by simp)
  intro before t
  induction before, t using Pattern.scan_induction hwithin (by simp : ∀ x ∈ ([] : Text).head?, _) with
  | nil before =>
    intro r hr
    rw [Pattern.subIn_nil, List.append_nil]
    by_cases hne : r = []
    · rw [hne, List.words_nil, List.words_nil]
    · rw [List.words_run hr hne, List.words_run (fun a ha => not_isSpace_of_isKey (hr a ha)) hne]
  | plain before x t hnone ih =>
    intro r hr
    have hx : isKey x := by
      by_contra h
      have := Pattern.isSome_matchAt_plus (γ := Unit) (q := fun c => !isKey c) (x := x)
        (by simpa using h) before (t ++ [])
      rw [nonKeys, List.cons_append] at hnone
      rw [hnone] at this
      contradiction
    rw [Pattern.subIn_plain hnone, ← List.singleton_append, ← List.append_assoc, ih (r ++ [x])]
    · simp
    · intro a ha
      rcases List.mem_append.1 ha with ha | ha
      · exact hr a ha
      · rw [List.mem_singleton.1 ha]
        exact hx
  | found before m t hm hne ih =>
    intro r hr
    obtain ⟨rest, -, -, hgap, -⟩ := Pattern.exists_of_matchAt hwithin hm
    rw [Pattern.subIn_found hne hm, List.singleton_append, List.words_append_cons r (by rfl),
      List.words_append_gap r (fun a ha => by simpa using hgap a ha) hne]
    have hrest := ih [] (by simp)
    rw [List.nil_append, List.nil_append] at hrest
    rw [hrest]
    congr 1
    by_cases hnil : r = []
    · rw [hnil, List.words_nil, List.words_nil]
    · rw [List.words_run hr hnil, List.words_run (fun a ha => not_isSpace_of_isKey (hr a ha)) hnil]

lemma words_oneSigma (t : Text) : (t.map oneSigma).words isKey = t.words isKey := by
  unfold List.words
  congr 1
  induction t with
  | nil => rfl
  | cons c t ih =>
    rw [List.map_cons, List.splitOnP_cons_eq_if_modifyHead,
      List.splitOnP_cons_eq_if_modifyHead, isKey_oneSigma, ih]
    split
    · rfl
    · next h => rw [oneSigma_of_isKey (by simpa using h)]

lemma filter_oneSigma {x : Nat} (hx : x ≠ 0x3C2 ∧ x ≠ 0x3C3) (t : Text) :
    (t.map oneSigma).filter (· != x) = (t.filter (· != x)).map oneSigma := by
  have hc (c : Nat) : (oneSigma c != x) = (c != x) := by
    unfold oneSigma
    split <;> grind
  rw [List.filter_map]
  congr 1
  exact List.filter_congr fun c _ => hc c

lemma keyWords_oneSigma (t : Text) : keyWords (t.map oneSigma) = keyWords t := by
  rw [keyWords, filter_oneSigma (by decide), filter_oneSigma (by decide), words_oneSigma, keyWords]

lemma keyWords_append {x : Nat} (hx : isBoundary x) (t u : Text) :
    keyWords (t ++ x :: u) = keyWords t ++ keyWords u := by
  obtain ⟨-, hapostrophe, -, hkey, -⟩ := isBoundary_out hx
  have hne : (x != 0x2019) = true ∧ (x != 0x27) = true := by
    simpa [isApostrophe, and_comm] using hapostrophe
  rw [keyWords, List.filter_append, List.filter_cons, if_pos hne.1, List.filter_append,
    List.filter_cons, if_pos hne.2, List.words_append_cons _ hkey]
  rfl

/-! ### The words of a key -/

/-- The words of the key of a text. -/
def keyTokens (L : Letters) (t : Text) : List Text := (_key L t).split

/-- A text lowered character by character, with one sigma. -/
def lowered (L : Letters) (t : Text) : Text := t.flatMap fun c => (L.lowerChar c).map oneSigma

/-- A key is its words, joined. -/
lemma joinSpace_keyTokens (L : Letters) (t : Text) : Text.joinSpace (keyTokens L t) = _key L t := by
  have hsplit (u : Text) : (Text.joinSpace u.split).split = u.split := by
    rw [split_eq_words, Text.joinSpace, split_eq_words]
    exact List.words_intercalate (by rfl) fun w hw =>
      ⟨List.ne_nil_of_mem_words hw, List.of_mem_words hw⟩
  rw [keyTokens, _key, _key_of, hsplit]

lemma keyTokens_eq (L : Letters) (t : Text) :
    keyTokens L t = keyWords (dropPossessives L none (lowered L t)) := by
  have hsigma := dropPossessives_oneSigma L none (L.lower t)
  rw [L.lower_eq, Option.map_none] at hsigma
  rw [lowered, hsigma, keyWords_oneSigma, keyTokens, split_eq_words, _key, _key_of, Text.joinSpace,
    split_eq_words, words_sub_nonKeys, Pattern.sub, sub_possessive, keyWords]
  refine List.words_intercalate (by rfl) fun w hw => ⟨List.ne_nil_of_mem_words hw, fun a ha => ?_⟩
  exact not_isSpace_of_isKey (List.of_mem_words hw a ha)

lemma _key_eq_nil_iff (L : Letters) (t : Text) : _key L t = [] ↔ keyTokens L t = [] := by
  constructor
  · intro h
    rw [keyTokens, h, split_eq_words]
    exact List.words_nil
  · intro h
    rw [← joinSpace_keyTokens, h]
    rfl

@[simp] lemma keyTokens_nil (L : Letters) : keyTokens L [] = [] := by
  rw [keyTokens_eq]
  simp [lowered, dropPossessives, keyWords]

/-- The words of a text are those of its parts on either side of a boundary character. -/
theorem keyTokens_append (L : Letters) {x : Nat} (hx : isBoundary x) (t u : Text) :
    keyTokens L (t ++ x :: u) = keyTokens L t ++ keyTokens L u := by
  have hlower : lowered L (t ++ x :: u) = lowered L t ++ x :: lowered L u := by
    rw [lowered, List.flatMap_append, List.flatMap_cons, (L.boundary x hx).1]
    simp [lowered, (isBoundary_out hx).2.2.2.2]
  rw [keyTokens_eq, hlower, dropPossessives_append L hx, keyWords_append hx, keyTokens_eq,
    keyTokens_eq]

end RentCompass.Commute
