import RentCompass.Agent.TokenIndex

/-!
# The route named last before a position

`_route_before` looks a route's labels up in the token index, first where a mention reaches into
the chunk that the position cuts and then among the mentions before it. It answers as the key of
the whole text before the position does.
-/

namespace RentCompass.Commute

/-- `_key_occurrences` -/
def _key_occurrences (L : Letters) (text key : Text) : List Nat :=
  let tokens := (_token_index L text).tokens
  let words := key.split
  let n := words.length
  (List.range (tokens.length + 1 - n)).filter fun i =>
    tokens[i]? == words.head? && (tokens.drop i).take n == words

/-- `token` -/
def token (tokens tail : List Text) (complete i : Nat) : Option Text :=
  if i < complete then tokens[i]? else tail[i - complete]?

/-- Where the label with a key is mentioned last, `-1` for nowhere. -/
def mentionBefore (L : Letters) (text : Text) (index : TokenIndex) (complete : Nat)
    (tail : List Text) (key : Text) : Option Int :=
  let words := key.split
  let n := words.length
  let lowest := complete + 1 - n
  let starts := (List.range' lowest (complete + tail.length + 1 - n - lowest)).reverse
  match starts.find? fun s =>
      (List.range n).all fun k => token index.tokens tail complete (s + k) == words[k]? with
  | some s => some s
  | none =>
    let found := _key_occurrences L text key
    match bisectRight found ((complete : Int) - n) with
    | 0 => some (-1)
    | j + 1 => found[j]?.map Int.ofNat

section

variable {ρ : Type} (labels : ρ → List Text)

/-- `_route_before`, over the routes' labels. There is no answer where an offset is out of a
list. -/
def _route_before (L : Letters) (text : Text) (stop : Nat) (routes : List ρ) :
    Option (Option ρ) := do
  let index := _token_index L text
  let (complete, tail) ← index.cut L text stop
  let best ← routes.foldlM (fun best route =>
    (labels route).foldlM (fun best label =>
      let key := _key L label
      if key = [] then some best
      else do
        let place ← mentionBefore L text index complete tail key
        return if place > best.2 then (some route, place) else best) best)
    ((none, -1) : Option ρ × Int)
  return best.1

/-! ### The plain lookup -/

/-- A label of the route stands in the words, as whole words, at a place. -/
def MentionedAt (L : Letters) (words : List Text) (route : ρ) (s : Nat) : Prop :=
  ∃ label ∈ labels route, _key L label ≠ [] ∧ (_key L label).split.OccursAt words s

/-- The route whose label has the rightmost place in the words, the first of those with the same
place, or none where no label has a place. -/
def IsLastMentioned (L : Letters) (words : List Text) (routes : List ρ) : Option ρ → Prop
  | none => ∀ route ∈ routes, ∀ s, ¬MentionedAt labels L words route s
  | some route => ∃ earlier later s, routes = earlier ++ route :: later ∧
      MentionedAt labels L words route s ∧
      (∀ route' ∈ earlier, ∀ s', MentionedAt labels L words route' s' → s' < s) ∧
      ∀ route' ∈ route :: later, ∀ s', MentionedAt labels L words route' s' → s' ≤ s

end

/-! ### One label -/

lemma token_eq {tokens tail : List Text} {complete : Nat} (h : complete ≤ tokens.length)
    (i : Nat) : token tokens tail complete i = (tokens.take complete ++ tail)[i]? := by
  have hlen : (tokens.take complete).length = complete := by
    rw [List.length_take, Nat.min_eq_left h]
  unfold token
  split
  · next hi => rw [List.getElem?_append_left (by omega), List.getElem?_take_of_lt hi]
  · rw [List.getElem?_append_right (by omega), hlen]

lemma all_eq_true_iff {words P : List Text} {s : Nat} {at' : Nat → Option Text}
    (hat : ∀ i, at' i = P[i]?) :
    ((List.range words.length).all fun k => at' (s + k) == words[k]?) = true ↔
      words.OccursAt P s := by
  simp only [List.occursAt_iff, List.all_eq_true, List.mem_range, beq_iff_eq, hat]

variable {L : Letters} {text key : Text}

lemma mem_key_occurrences (hne : key.split ≠ []) {i : Nat} :
    i ∈ _key_occurrences L text key ↔ key.split.OccursAt (_token_index L text).tokens i := by
  have hpos := List.length_pos_of_ne_nil hne
  rw [_key_occurrences, List.mem_filter, List.mem_range, Bool.and_eq_true, beq_iff_eq, beq_iff_eq,
    List.OccursAt, List.prefix_iff_eq_take]
  constructor
  · rintro ⟨-, -, h⟩
    exact h.symm
  · intro h
    have hle := List.OccursAt.le (List.prefix_iff_eq_take.2 h) hne
    refine ⟨by omega, ?_, h.symm⟩
    have hhead := List.head?_take (l := (_token_index L text).tokens.drop i)
      (i := key.split.length)
    rw [if_neg hpos.ne', List.head?_drop] at hhead
    rw [← hhead, ← h]

lemma pairwise_key_occurrences (L : Letters) (text key : Text) :
    (_key_occurrences L text key).Pairwise (· < ·) :=
  List.Pairwise.filter _ List.pairwise_lt_range

/-- A label's last place is the one in the words before the cut and in the tail. -/
lemma mentionBefore_spec {complete : Nat} {tail : List Text} (hne : key.split ≠ [])
    (hcomplete : complete ≤ (_token_index L text).tokens.length) :
    ∃ place, mentionBefore L text (_token_index L text) complete tail key = some place ∧
      LastWhere (key.split.OccursAt ((_token_index L text).tokens.take complete ++ tail))
        place := by
  let words := key.split
  let n := words.length
  let tokens := (_token_index L text).tokens
  let P := tokens.take complete ++ tail
  have hpos : 0 < n := List.length_pos_of_ne_nil hne
  have htake : (tokens.take complete).length = complete := by
    rw [List.length_take, Nat.min_eq_left hcomplete]
  have hlen : P.length = complete + tail.length := by rw [List.length_append, htake]
  have hall (s : Nat) : ((List.range n).all fun k =>
      token tokens tail complete (s + k) == words[k]?) = true ↔ words.OccursAt P s :=
    all_eq_true_iff (token_eq hcomplete)
  have hle {s : Nat} (h : words.OccursAt P s) : s + n ≤ complete + tail.length :=
    hlen ▸ h.le hne
  -- Before the cut the mentions are those of the whole index.
  have hindex {s : Nat} (hs : s + n ≤ complete) :
      words.OccursAt P s ↔ s ∈ _key_occurrences L text key := by
    have hwhole := List.occursAt_append (w := words) (l := tokens.take complete) (s := s)
      (by omega) (tokens.drop complete)
    rw [List.take_append_drop] at hwhole
    rw [List.occursAt_append (by omega), mem_key_occurrences hne]
    exact hwhole.symm
  have hsearch := find?_reverse_range' (fun s =>
    (List.range n).all fun k => token tokens tail complete (s + k) == words[k]?)
    (complete + 1 - n) (complete + tail.length + 1 - n - (complete + 1 - n))
  rw [mentionBefore]
  obtain ⟨s, hs, hhere, hmax⟩ | ⟨hnone, hno⟩ := hsearch
  · rw [hs]
    refine ⟨s, rfl, .inr ⟨s, rfl, (hall s).1 hhere, fun s' hs' => ?_⟩⟩
    have := hle hs'
    exact hmax s' ((hall s').2 hs') (by omega)
  · rw [hnone]
    have hbefore {s : Nat} (h : words.OccursAt P s) : s + n ≤ complete := by
      by_contra hlt
      have := hle h
      have := hno s (by omega) (by omega)
      rw [(hall s).2 h] at this
      contradiction
    obtain ⟨hzero, hout⟩ | ⟨j, a, hj, ha, hax, hmax⟩ :=
      bisectRight_spec (pairwise_key_occurrences L text key) ((complete : Int) - n)
    · have hzero : bisectRight (_key_occurrences L text key)
          ((complete : Int) - key.split.length) = 0 := hzero
      simp only [hzero]
      refine ⟨-1, rfl, .inl ⟨rfl, fun s hs => ?_⟩⟩
      have := hbefore hs
      have := hout s ((hindex this).1 hs)
      omega
    · have hj : bisectRight (_key_occurrences L text key)
          ((complete : Int) - key.split.length) = j + 1 := hj
      simp only [hj]
      refine ⟨a, by simp [ha], .inr ⟨a, rfl, ?_, fun s hs => ?_⟩⟩
      · exact (hindex (by omega)).2 (List.mem_of_getElem? ha)
      · have := hbefore hs
        exact hmax s ((hindex this).1 hs) (by omega)

/-! ### All labels of all routes -/

section

variable {ρ : Type} {labels : ρ → List Text} {index : TokenIndex} {complete : Nat}
  {tail words : List Text}

/-- Each label that has a key is looked up as in the words. -/
def LooksUp (L : Letters) (text : Text) (index : TokenIndex) (complete : Nat)
    (tail words : List Text) : Prop :=
  ∀ key : Text, key.split ≠ [] → ∃ place,
    mentionBefore L text index complete tail key = some place ∧
      LastWhere (key.split.OccursAt words) place

/-- The labels of a route replace the best route where their last place is behind its own. -/
lemma foldlM_labels (h : LooksUp L text index complete tail words) (route : ρ) (ls : List Text)
    (best : Option ρ × Int) (hbest : -1 ≤ best.2) :
    ∃ place, ls.foldlM (fun best label =>
        let key := _key L label
        if key = [] then some best
        else do
          let place ← mentionBefore L text index complete tail key
          return if place > best.2 then (some route, place) else best) best =
        some (if best.2 < place then (some route, place) else best) ∧
      LastWhere (fun s => ∃ label ∈ ls, _key L label ≠ [] ∧
        (_key L label).split.OccursAt words s) place := by
  induction ls generalizing best with
  | nil =>
    refine ⟨-1, ?_, .inl ⟨rfl, by simp⟩⟩
    rw [if_neg (by omega)]
    rfl
  | cons label ls ih =>
    by_cases hkey : _key L label = []
    · obtain ⟨place, hrun, hlast⟩ := ih best hbest
      refine ⟨place, ?_, hlast.congr fun s => by simp [hkey]⟩
      simp only [List.foldlM_cons, hkey, if_true, Option.bind_eq_bind, Option.bind_some]
      exact hrun
    · have hne : (_key L label).split ≠ [] := by
        exact fun hnil => hkey ((_key_eq_nil_iff L label).2 hnil)
      obtain ⟨here, hhere, hlast⟩ := h _ hne
      let best' := if here > best.2 then (some route, here) else best
      obtain ⟨place, hrun, hlast'⟩ := ih best' (by
        dsimp only [best']
        split <;> omega)
      refine ⟨if here < place then place else here, ?_, ?_⟩
      · simp only [List.foldlM_cons, if_neg hkey, hhere, Option.bind_eq_bind, Option.bind_some]
        refine Eq.trans hrun (congrArg some ?_)
        dsimp only [best']
        split_ifs <;> first | rfl | omega
      · refine (hlast.later hlast').congr fun s => ?_
        simp [hkey]

/-- The best route of those seen. -/
def Chosen (labels : ρ → List Text) (L : Letters) (words : List Text) (seen : List ρ)
    (best : Option ρ × Int) : Prop :=
  LastWhere (fun s => ∃ route ∈ seen, MentionedAt labels L words route s) best.2 ∧
    match best.1 with
    | none => best.2 = -1
    | some route => ∃ earlier later, ∃ s : Nat, seen = earlier ++ route :: later ∧ best.2 = s ∧
        MentionedAt labels L words route s ∧
        ∀ route' ∈ earlier, ∀ s' : Nat, MentionedAt labels L words route' s' → s' < s

lemma Chosen.next {seen : List ρ} {best : Option ρ × Int} (h : Chosen labels L words seen best)
    {route : ρ} {place : Int} (hplace : LastWhere (MentionedAt labels L words route) place) :
    Chosen labels L words (seen ++ [route])
      (if best.2 < place then (some route, place) else best) := by
  have hseen (s : Nat) : (∃ r ∈ seen ++ [route], MentionedAt labels L words r s) ↔
      (∃ r ∈ seen, MentionedAt labels L words r s) ∨ MentionedAt labels L words route s := by
    simp only [List.mem_append, List.mem_singleton]
    grind
  have hlast := (h.1.later hplace).congr fun s => (hseen s).symm
  split at hlast
  · next hlt =>
    rw [if_pos hlt]
    refine ⟨hlast, ?_⟩
    have hbest := h.1.neg_one_le
    obtain ⟨s, rfl, hs⟩ := hplace.exists_of_lt (by omega)
    refine ⟨seen, [], s, rfl, rfl, hs, fun route' hroute' s' hs' => ?_⟩
    have := h.1.le ⟨route', hroute', hs'⟩
    omega
  · next hle =>
    rw [if_neg hle]
    refine ⟨hlast, ?_⟩
    obtain ⟨chosen, at'⟩ := best
    cases chosen with
    | none => exact h.2
    | some r =>
      obtain ⟨earlier, later, s, rfl, hs⟩ := h.2
      exact ⟨earlier, later ++ [route], s, by simp, hs⟩

lemma Chosen.isLastMentioned {routes : List ρ} {best : Option ρ × Int}
    (h : Chosen labels L words routes best) : IsLastMentioned labels L words routes best.1 := by
  obtain ⟨chosen, place⟩ := best
  cases chosen with
  | none =>
    intro route hroute s hs
    have hle := h.1.le ⟨route, hroute, hs⟩
    have hplace : place = -1 := h.2
    omega
  | some route =>
    obtain ⟨earlier, later, s, rfl, hplace, hs, hearlier⟩ := h.2
    refine ⟨earlier, later, s, rfl, hs, hearlier, fun route' hroute' s' hs' => ?_⟩
    have hle := h.1.le ⟨route', List.mem_append.2 (.inr hroute'), hs'⟩
    have hplace : place = s := hplace
    omega

lemma foldlM_routes (h : LooksUp L text index complete tail words) (routes seen : List ρ)
    (best : Option ρ × Int) (hbest : Chosen labels L words seen best) :
    ∃ best', routes.foldlM (fun best route =>
        (labels route).foldlM (fun best label =>
          let key := _key L label
          if key = [] then some best
          else do
            let place ← mentionBefore L text index complete tail key
            return if place > best.2 then (some route, place) else best) best) best = some best' ∧
      Chosen labels L words (seen ++ routes) best' := by
  induction routes generalizing seen best with
  | nil => exact ⟨best, rfl, by simpa using hbest⟩
  | cons route routes ih =>
    obtain ⟨place, hrun, hlast⟩ := foldlM_labels h route (labels route) best hbest.1.neg_one_le
    obtain ⟨best', hrun', hbest'⟩ := ih (seen ++ [route]) _ (hbest.next hlast)
    refine ⟨best', ?_, by simpa using hbest'⟩
    rw [List.foldlM_cons, hrun]
    exact hrun'

end

/-- `_route_before` answers as the words of the key of the whole text before the position do. -/
theorem route_before_isLastMentioned {ρ : Type} (L : Letters) (labels : ρ → List Text)
    (text : Text) (stop : Fin (text.length + 1)) (routes : List ρ) :
    ∃ best, _route_before labels L text stop routes = some best ∧
      IsLastMentioned labels L (_key L (text.take stop)).split routes best := by
  have hstop := Nat.le_of_lt_succ stop.isLt
  obtain ⟨complete, tail, hcut, hcomplete, hwords⟩ :=
    (indexed_token_index L text).cut_eq stop (by omega) hstop
  have hlook : LooksUp L text (_token_index L text) complete tail
      (keyTokens L (text.take stop)) := fun key hkey => by
    rw [← hwords]
    exact mentionBefore_spec hkey hcomplete
  have hstart : Chosen labels L (_key L (text.take stop)).split [] ((none, -1) : Option ρ × Int) :=
    ⟨.inl ⟨rfl, by simp⟩, rfl⟩
  obtain ⟨best, hrun, hchosen⟩ := foldlM_routes hlook routes [] _ hstart
  refine ⟨best.1, ?_, hchosen.isLastMentioned⟩
  rw [_route_before, hcut]
  exact congrArg (·.bind fun best => some best.1) hrun

lemma asciiLetters_lower (t : Text) :
    (t.map fun c => if 65 ≤ c ∧ c ≤ 90 then c + 32 else c).map oneSigma =
      t.flatMap fun c => [if 65 ≤ c ∧ c ≤ 90 then c + 32 else c].map oneSigma := by
  simp [List.map_eq_flatMap, List.flatMap_assoc]

lemma asciiLetters_boundary (c : Nat) (hc : isBoundary c) :
    [if 65 ≤ c ∧ c ≤ 90 then c + 32 else c] = [c] ∧
      (isLetter c || (65 ≤ c && c ≤ 90) || (48 ≤ c && c ≤ 57) || c == 95) = false := by
  have hne := isBoundary_ne hc
  refine ⟨by rw [if_neg hne.2.2.2.1], ?_⟩
  simp only [isLetter, Bool.or_eq_false_iff, Bool.and_eq_false_imp, decide_eq_true_eq,
    decide_eq_false_iff_not, beq_eq_false_iff_ne]
  omega

lemma asciiLetters_sigma :
    (isLetter 0x3C2 || (65 ≤ 0x3C2 && 0x3C2 ≤ 90) || (48 ≤ 0x3C2 && 0x3C2 ≤ 57) || 0x3C2 == 95) =
      (isLetter 0x3C3 || (65 ≤ 0x3C3 && 0x3C3 ≤ 90) || (48 ≤ 0x3C3 && 0x3C3 ≤ 57) ||
        0x3C3 == 95) := rfl

/-- The letters of ASCII texts. -/
def asciiLetters : Letters where
  lower t := t.map fun c => if 65 ≤ c ∧ c ≤ 90 then c + 32 else c
  lowerChar c := [if 65 ≤ c ∧ c ≤ 90 then c + 32 else c]
  isWord c := isLetter c || (65 ≤ c && c ≤ 90) || (48 ≤ c && c ≤ 57) || c == 95
  lower_eq := asciiLetters_lower
  isWord_sigma := asciiLetters_sigma
  boundary := asciiLetters_boundary

/-- The position cuts the chunk of the later mention. -/
example : _route_before (fun label => [Text.ofString label]) asciiLetters
    "Bow's 27, then King's Cross 9" 20 ["Stratford", "Bow", "King"] = some (some "King") := by
  decide +kernel

end RentCompass.Commute
