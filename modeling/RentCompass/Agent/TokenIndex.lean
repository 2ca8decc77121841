import RentCompass.Agent.CommuteKeys

/-!
# The token index of a text

`_token_index` keys a text chunk by chunk, where boundary characters part the chunks, and keeps
how many words come before each. An end in the text cuts at most one chunk, and the words of the
chunks before it and of its own part are those of the key of the text up to the end.
-/

namespace RentCompass.Commute

/-- `text[start:end]` -/
def slice (text : Text) (start stop : Nat) : Text := (text.take stop).drop start

/-- What `_token_index` returns: where each chunk starts and ends, how many words come before the
first, the second and so on, and the words of all. -/
structure TokenIndex where
  starts : List Nat
  ends : List Nat
  before : List Nat
  tokens : List Text

/-- One match of `_TOKEN_BOUNDARY`. -/
def TokenIndex.step (L : Letters) (text : Text) (state : Nat × TokenIndex) (start : Nat) :
    Nat × TokenIndex :=
  let (position, index) := state
  if position < start then
    let tokens := index.tokens ++ (_key L (slice text position start)).split
    (start + 1,
      { starts := index.starts ++ [position]
        ends := index.ends ++ [start]
        before := index.before ++ [tokens.length]
        tokens })
  else (start + 1, index)

/-- Whether `_TOKEN_BOUNDARY` matches at an offset of `text + " "`. -/
def boundaryAt (text : Text) (i : Nat) : Bool := (text ++ [32])[i]?.any isBoundary

/-- `_token_index` -/
def _token_index (L : Letters) (text : Text) : TokenIndex :=
  (((List.range (text.length + 1)).filter (boundaryAt text)).foldl (TokenIndex.step L text)
    (0, { starts := [], ends := [], before := [0], tokens := [] })).2

/-- How many words of the index are of the text before `stop`, and the words of the chunk that
`stop` cuts. There is none where an offset is out of a list. -/
def TokenIndex.cut (L : Letters) (text : Text) (index : TokenIndex) (stop : Nat) :
    Option (Nat × List Text) :=
  match bisectRight index.starts ((stop : Int) - 1) with
  | 0 => some (0, [])
  | chunk + 1 => do
    if (← index.ends[chunk]?) ≤ stop then
      return (← index.before[chunk + 1]?, [])
    else
      let start ← index.starts[chunk]?
      return (← index.before[chunk]?, (_key L (slice text start stop)).split)

/-! ### Keys up to a position -/

/-- A chunk may start at a position: the text does, or a boundary character stands before it. -/
def StartsChunk (text : Text) (p : Nat) : Prop := p = 0 ∨ boundaryAt text (p - 1)

lemma eq_take_boundary {text : Text} {i : Nat} (h : boundaryAt text i) (hi : i < text.length) :
    ∃ c, isBoundary c ∧ text.take (i + 1) = text.take i ++ [c] := by
  refine ⟨text[i], ?_, List.take_succ_eq_append_getElem hi⟩
  rwa [boundaryAt, List.getElem?_append_left hi, List.getElem?_eq_getElem hi] at h

/-- A boundary character adds no word. -/
lemma keyTokens_boundary (L : Letters) {text : Text} {i : Nat} (h : boundaryAt text i) :
    keyTokens L (text.take (i + 1)) = keyTokens L (text.take i) := by
  by_cases hi : i < text.length
  · obtain ⟨c, hc, htake⟩ := eq_take_boundary h hi
    rw [htake, keyTokens_append L hc, keyTokens_nil, List.append_nil]
  · rw [List.take_of_length_le (by omega), List.take_of_length_le (by omega)]

/-- The words from where a chunk may start come after the others. -/
lemma keyTokens_slice (L : Letters) {text : Text} {p stop : Nat} (hp : StartsChunk text p)
    (hle : p ≤ stop) (hstop : stop ≤ text.length) :
    keyTokens L (text.take stop) =
      keyTokens L (text.take p) ++ keyTokens L (slice text p stop) := by
  rcases Nat.eq_zero_or_pos p with rfl | hpos
  · simp [slice]
  · obtain hp | hp := hp
    · omega
    · obtain ⟨i, rfl⟩ : ∃ i, p = i + 1 := ⟨p - 1, by omega⟩
      rw [Nat.add_sub_cancel] at hp
      obtain ⟨c, hc, htake⟩ := eq_take_boundary hp (by omega)
      have hsplit : text.take stop = text.take i ++ c :: slice text (i + 1) stop := by
        rw [← List.take_append_drop (i + 1) (text.take stop), List.take_take,
          Nat.min_eq_left hle, htake, List.append_assoc]
        rfl
      rw [hsplit, keyTokens_append L hc, keyTokens_boundary L hp]

/-! ### What the index holds -/

/-- The index of a text up to a position where a chunk may start. -/
structure Indexed (L : Letters) (text : Text) (p : Nat) (index : TokenIndex) : Prop where
  start : StartsChunk text p
  ends_length : index.ends.length = index.starts.length
  before_length : index.before.length = index.starts.length + 1
  starts_lt : ∀ s ∈ index.starts, s < p
  ends_lt : ∀ e ∈ index.ends, e < p
  before_last : index.before[index.starts.length]? = some index.tokens.length
  tokens_eq : index.tokens = keyTokens L (text.take p)
  /-- The cut at a position before has the words of the key up to there. -/
  cut_eq : ∀ stop ≤ p, stop ≤ text.length → ∃ complete tail,
    index.cut L text stop = some (complete, tail) ∧ complete ≤ index.tokens.length ∧
      index.tokens.take complete ++ tail = keyTokens L (text.take stop)

variable {L : Letters} {text : Text} {p : Nat} {index : TokenIndex}

lemma indexed_nil : Indexed L text 0 { starts := [], ends := [], before := [0], tokens := [] } where
  start := .inl rfl
  ends_length := rfl
  before_length := rfl
  starts_lt := by simp
  ends_lt := by simp
  before_last := rfl
  tokens_eq := by simp
  cut_eq := by
    intro stop hstop _
    obtain rfl := Nat.le_zero.1 hstop
    exact ⟨0, [], rfl, Nat.le_refl _, by simp⟩

/-- Behind all chunks the cut has all words. -/
lemma TokenIndex.cut_behind {stop : Nat} (hends : index.ends.length = index.starts.length)
    (hlast : index.before[index.starts.length]? = some index.tokens.length)
    (hstarts : ∀ s ∈ index.starts, s < stop) (hle : ∀ e ∈ index.ends, e ≤ stop)
    (hne : index.starts ≠ []) : index.cut L text stop = some (index.tokens.length, []) := by
  obtain ⟨chunk, hchunk⟩ := Nat.exists_eq_succ_of_ne_zero (List.length_pos_of_ne_nil hne).ne'
  have hbisect : bisectRight index.starts ((stop : Int) - 1) = chunk + 1 := by
    rw [bisectRight_of_all fun a ha => by have := hstarts a ha; omega, hchunk]
  have hlt : chunk < index.ends.length := by omega
  have hend : index.ends[chunk] ≤ stop := hle _ (List.getElem_mem hlt)
  rw [TokenIndex.cut, hbisect]
  simp only [List.getElem?_eq_getElem hlt, Option.bind_eq_bind, Option.bind_some, if_pos hend]
  rw [← Nat.succ_eq_add_one, ← hchunk, hlast]
  rfl

/-- A chunk from `stop` on takes no part in the cut. -/
lemma TokenIndex.cut_append {stop q e b : Nat} {tokens : List Text}
    (hends : index.ends.length = index.starts.length)
    (hbefore : index.before.length = index.starts.length + 1) (hstop : stop ≤ q) :
    TokenIndex.cut L text
        { starts := index.starts ++ [q], ends := index.ends ++ [e],
          before := index.before ++ [b], tokens := tokens } stop = index.cut L text stop := by
  unfold TokenIndex.cut
  rw [bisectRight_append (by omega)]
  have hle := bisectRight_le index.starts ((stop : Int) - 1)
  cases hbisect : bisectRight index.starts ((stop : Int) - 1) with
  | zero => rfl
  | succ chunk =>
    rw [hbisect] at hle
    simp only [List.getElem?_append_left (show chunk < index.ends.length by omega),
      List.getElem?_append_left (show chunk < index.starts.length by omega),
      List.getElem?_append_left (show chunk < index.before.length by omega),
      List.getElem?_append_left (show chunk + 1 < index.before.length by omega)]

/-- The chunk that `stop` cuts gives its own words up to there. -/
lemma TokenIndex.cut_inside {stop q e b : Nat} {tokens : List Text}
    (hends : index.ends.length = index.starts.length)
    (hbefore : index.before.length = index.starts.length + 1)
    (hlast : index.before[index.starts.length]? = some index.tokens.length)
    (hstarts : ∀ s ∈ index.starts, s < q) (hq : q < stop) (he : stop < e) :
    TokenIndex.cut L text
        { starts := index.starts ++ [q], ends := index.ends ++ [e],
          before := index.before ++ [b], tokens := tokens } stop =
      some (index.tokens.length, keyTokens L (slice text q stop)) := by
  have hbisect : bisectRight (index.starts ++ [q]) ((stop : Int) - 1) = index.starts.length + 1 := by
    rw [bisectRight_of_all, List.length_append, List.length_singleton]
    intro a ha
    rcases List.mem_append.1 ha with ha | ha
    · have := hstarts a ha
      omega
    · rw [List.mem_singleton.1 ha]
      omega
  have hend : (index.ends ++ [e])[index.starts.length]? = some e := by
    rw [← hends]
    simp
  have hstart : (index.starts ++ [q])[index.starts.length]? = some q := by simp
  have hbefore' : (index.before ++ [b])[index.starts.length]? = some index.tokens.length := by
    rw [List.getElem?_append_left (by omega), hlast]
  rw [TokenIndex.cut]
  simp only [hbisect, hend, hstart, hbefore', Option.bind_eq_bind, Option.bind_some,
    if_neg (Nat.not_le.2 he)]
  rfl

/-- A boundary character right where a chunk may start. -/
lemma Indexed.skip (h : Indexed L text p index) (hp : boundaryAt text p) :
    Indexed L text (p + 1) index where
  start := .inr hp
  ends_length := h.ends_length
  before_length := h.before_length
  starts_lt s hs := Nat.lt_succ_of_lt (h.starts_lt s hs)
  ends_lt e he := Nat.lt_succ_of_lt (h.ends_lt e he)
  before_last := h.before_last
  tokens_eq := by rw [h.tokens_eq, keyTokens_boundary L hp]
  cut_eq := by
    intro stop hstop hlen
    by_cases hle : stop ≤ p
    · exact h.cut_eq stop hle hlen
    obtain rfl : stop = p + 1 := by omega
    rw [keyTokens_boundary L hp]
    by_cases hne : index.starts = []
    · -- There is no chunk, so the cut is the same as at the position before.
      have hcut (stop : Nat) : index.cut L text stop = some (0, []) := by
        rw [TokenIndex.cut, hne]
        rfl
      obtain ⟨complete, tail, hcut', -, htokens⟩ := h.cut_eq p (Nat.le_refl p) (by omega)
      rw [hcut] at hcut'
      cases hcut'
      exact ⟨0, [], hcut _, Nat.zero_le _, htokens⟩
    · refine ⟨index.tokens.length, [], ?_, Nat.le_refl _, ?_⟩
      · apply TokenIndex.cut_behind h.ends_length h.before_last _ _ hne
        · exact fun s hs => Nat.lt_succ_of_lt (h.starts_lt s hs)
        · exact fun e he => Nat.le_of_lt (Nat.lt_succ_of_lt (h.ends_lt e he))
      · rw [List.take_length, List.append_nil, h.tokens_eq]

/-- A chunk that a boundary character ends. -/
lemma Indexed.chunk (h : Indexed L text p index) {i : Nat} (hi : boundaryAt text i) (hp : p < i)
    (hlen : i ≤ text.length) :
    Indexed L text (i + 1)
      { starts := index.starts ++ [p]
        ends := index.ends ++ [i]
        before := index.before ++ [(index.tokens ++ keyTokens L (slice text p i)).length]
        tokens := index.tokens ++ keyTokens L (slice text p i) } := by
  have htokens : index.tokens ++ keyTokens L (slice text p i) = keyTokens L (text.take i) := by
    rw [h.tokens_eq, keyTokens_slice L h.start hp.le hlen]
  have hstarts : ∀ s ∈ index.starts ++ [p], s < i := by
    intro s hs
    rcases List.mem_append.1 hs with hs | hs
    · exact (h.starts_lt s hs).trans hp
    · exact List.mem_singleton.1 hs ▸ hp
  have hends : ∀ e ∈ index.ends ++ [i], e ≤ i := by
    intro e he
    rcases List.mem_append.1 he with he | he
    · exact ((h.ends_lt e he).trans hp).le
    · exact (List.mem_singleton.1 he).le
  have hbefore_last : (index.before ++ [(index.tokens ++ keyTokens L (slice text p i)).length])[
      (index.starts ++ [p]).length]? =
        some (index.tokens ++ keyTokens L (slice text p i)).length := by
    have hlen : (index.starts ++ [p]).length = index.before.length := by
      rw [List.length_append, List.length_singleton, h.before_length]
    rw [hlen]
    simp
  constructor
  case start => exact .inr hi
  case ends_length => simp [h.ends_length]
  case before_length => simp [h.before_length]
  case starts_lt => exact fun s hs => Nat.lt_succ_of_lt (hstarts s hs)
  case ends_lt => exact fun e he => Nat.lt_succ_of_le (hends e he)
  case before_last => exact hbefore_last
  case tokens_eq => rw [htokens, keyTokens_boundary L hi]
  case cut_eq =>
    intro stop hstop hlen'
    rcases Nat.lt_or_ge p stop with hpstop | hpstop
    · rcases Nat.lt_or_ge stop i with hin | hout
      · -- The new chunk is cut.
        refine ⟨_, _, TokenIndex.cut_inside h.ends_length h.before_length h.before_last
          h.starts_lt hpstop hin, ?_, ?_⟩
        · simp
        · rw [List.take_left, keyTokens_slice L h.start hpstop.le hlen', h.tokens_eq]
      · -- The new chunk is whole.
        refine ⟨_, _, TokenIndex.cut_behind ?_ hbefore_last ?_ ?_ ?_, Nat.le_refl _, ?_⟩
        · simp [h.ends_length]
        · exact fun s hs => (hstarts s hs).trans_le hout
        · exact fun e he => (hends e he).trans hout
        · simp
        · rw [List.take_length, List.append_nil, htokens]
          obtain rfl | rfl : stop = i ∨ stop = i + 1 := by omega
          · rfl
          · rw [keyTokens_boundary L hi]
    · -- The new chunk comes behind the cut.
      obtain ⟨complete, tail, hcut, hle, heq⟩ := h.cut_eq stop hpstop hlen'
      refine ⟨complete, tail, ?_, ?_, ?_⟩
      · rw [TokenIndex.cut_append h.ends_length h.before_length hpstop, hcut]
      · rw [List.length_append]
        omega
      · rw [List.take_append_of_le_length hle, heq]

lemma Indexed.step (h : Indexed L text p index) {i : Nat} (hi : boundaryAt text i) (hp : p ≤ i)
    (hlen : i ≤ text.length) :
    (TokenIndex.step L text (p, index) i).1 = i + 1 ∧
      Indexed L text (i + 1) (TokenIndex.step L text (p, index) i).2 := by
  simp only [TokenIndex.step]
  rcases Nat.lt_or_eq_of_le hp with hlt | rfl
  · rw [if_pos hlt]
    exact ⟨rfl, h.chunk hi hlt hlen⟩
  · rw [if_neg (Nat.lt_irrefl p)]
    exact ⟨rfl, h.skip hi⟩

/-- The offsets before `n` index the text up to a position before `n`. -/
lemma indexed_run (L : Letters) (text : Text) {n : Nat} (hn : n ≤ text.length + 1) :
    ∃ p index, ((List.range n).filter (boundaryAt text)).foldl (TokenIndex.step L text)
        (0, { starts := [], ends := [], before := [0], tokens := [] }) = (p, index) ∧
      p ≤ n ∧ Indexed L text p index := by
  induction n with
  | zero => exact ⟨0, _, rfl, Nat.le_refl 0, indexed_nil⟩
  | succ n ih =>
    obtain ⟨p, index, hrun, hp, hindex⟩ := ih (by omega)
    rw [List.range_succ, List.filter_append, List.foldl_append, hrun]
    by_cases hboundary : boundaryAt text n
    · obtain ⟨hp', hindex'⟩ := hindex.step hboundary hp (by omega)
      refine ⟨n + 1, (TokenIndex.step L text (p, index) n).2, ?_, Nat.le_refl _, hindex'⟩
      simp [hboundary, ← hp']
    · exact ⟨p, index, by simp [hboundary], by omega, hindex⟩

/-- The index of the whole text cuts at each position as the key of the text up to there does. -/
theorem indexed_token_index (L : Letters) (text : Text) :
    Indexed L text (text.length + 1) (_token_index L text) := by
  obtain ⟨p, index, hrun, hp, hindex⟩ := indexed_run L text (Nat.le_succ text.length)
  have hlast : boundaryAt text text.length := by simp [boundaryAt, isBoundary, Text.isSpace]
  have hstep := hindex.step hlast hp (Nat.le_refl _)
  rw [_token_index, List.range_succ, List.filter_append, List.foldl_append, hrun]
  simpa [hlast] using hstep.2

end RentCompass.Commute
