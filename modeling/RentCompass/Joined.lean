import RentCompass.Matching

/-!
# Matches of joined texts

Two texts with a break between them. Where no test sees the break and no match goes across it, the
matches of the whole are those of the first text and those of the second.
-/

namespace Regex

variable {α : Type} {x z : α}

/-- No test tells `x` behind a position from the end of a text, or `z` before it from the start. -/
def Blind (x z : α) : Regex α → Prop
  | beside test => (∀ b, test b (some x) = test b none) ∧ ∀ a, test (some z) a = test none a
  | seq r s => r.Blind x z ∧ s.Blind x z
  | alt r s => r.Blind x z ∧ s.Blind x z
  | _ => True

lemma repeats_append_cons (p : α → Bool) (prev : Option α) (u s : List α) :
    (repeats p prev (u ++ x :: s)).filter (inside s) =
      (repeats p prev u).map (further (x :: s)) := by
  induction u generalizing prev with
  | nil =>
    have hleft : ∀ pos ∈ repeats p (some x) s, inside s pos = false := by
      intro pos hpos
      obtain ⟨v, hv, -⟩ := mem_repeats (q := fun _ => true) (fun _ _ => rfl) hpos
      exact inside_eq_false hv.1
    have hnone : (repeats p (some x) s).filter (inside s) = [] :=
      List.filter_eq_nil_iff.2 (by simpa using hleft)
    have hhere : inside s (prev, x :: s) = true := by simp [inside]
    simp only [List.nil_append, repeats]
    split
    · rw [List.filter_append, hnone]
      simp [hhere, further]
    · simp [hhere, further]
  | cons c u ih =>
    have hhere : inside s (prev, c :: (u ++ x :: s)) = true := by simp [inside]; omega
    simp only [List.cons_append, repeats]
    split
    · rw [List.filter_append, List.map_append, ih]
      simp [hhere, further]
    · simp [hhere, further]

lemma repeatsUpTo_append_cons (p : α → Bool) (n : Nat) (prev : Option α) (u s : List α) :
    (repeatsUpTo p n (prev, u ++ x :: s)).filter (inside s) =
      (repeatsUpTo p n (prev, u)).map (further (x :: s)) := by
  induction n generalizing prev u with
  | zero =>
    have hhere : inside s (prev, u ++ x :: s) = true := by simp [inside]; omega
    simp [repeatsUpTo, hhere, further]
  | succ n ih =>
    cases u with
    | nil =>
      have hleft : ∀ pos ∈ repeatsUpTo p n (some x, s), inside s pos = false := by
        intro pos hpos
        obtain ⟨v, hv, -⟩ := mem_repeatsUpTo (q := fun _ => true) (fun _ _ => rfl) hpos
        exact inside_eq_false hv.1
      have hnone : (repeatsUpTo p n (some x, s)).filter (inside s) = [] :=
        List.filter_eq_nil_iff.2 (by simpa using hleft)
      have hhere : inside s (prev, x :: s) = true := by simp [inside]
      simp only [List.nil_append, repeatsUpTo]
      split
      · rw [List.filter_append, hnone]
        simp [hhere, further]
      · simp [hhere, further]
    | cons c u =>
      have hhere : inside s (prev, c :: (u ++ x :: s)) = true := by simp [inside]; omega
      simp only [List.cons_append, repeatsUpTo]
      split
      · rw [List.filter_append, List.map_append, ih]
        simp [hhere, further]
      · simp [hhere, further]

/-- The matches that stay in a text are those of the text by itself. -/
theorem ends_append_cons {r : Regex α} (hr : r.Blind x z) (prev : Option α) (u s : List α) :
    (r.ends (prev, u ++ x :: s)).filter (inside s) =
      (r.ends (prev, u)).map (further (x :: s)) := by
  have hhere (prev : Option α) (u : List α) : inside s (prev, u ++ x :: s) = true := by
    simp [inside]
    omega
  induction r generalizing prev u with
  | empty => simp [ends, hhere, further]
  | char q =>
    cases u with
    | nil =>
      simp only [List.nil_append, ends]
      split <;> simp [inside]
    | cons c u =>
      simp only [List.cons_append, ends]
      split <;> simp [hhere, further]
  | star q => exact repeats_append_cons q prev u s
  | upTo n q => exact repeatsUpTo_append_cons q n prev u s
  | beside test =>
    cases u with
    | nil =>
      have hhere := hhere prev []
      rw [List.nil_append] at hhere
      simp only [List.nil_append, ends, List.head?_cons, List.head?_nil, hr.1]
      by_cases htest : test prev none = true
      · simp [htest, hhere, further]
      · simp [htest]
    | cons c u =>
      have hhere := hhere prev (c :: u)
      rw [List.cons_append] at hhere
      rw [List.cons_append, ends_beside_cons, ends_beside_cons]
      split <;> simp [hhere, further]
  | seq r s ihr ihs =>
    simp only [ends, filter_flatMap_ends, ihr hr.1, List.flatMap_map, List.map_flatMap]
    apply List.flatMap_congr
    rintro ⟨prev', u'⟩ -
    exact ihs hr.2 prev' u'
  | alt r s ihr ihs =>
    simp only [ends, List.filter_append, List.map_append, ihr hr.1, ihs hr.2]

/-- `z` before a text where there is no character before. -/
def behind (z : α) (pos : Pos α) : Pos α := (pos.1.or (some z), pos.2)

lemma repeats_behind (p : α → Bool) (prev : Option α) (t : List α) :
    repeats p (prev.or (some z)) t = (repeats p prev t).map (behind z) := by
  induction t generalizing prev with
  | nil => rfl
  | cons c t ih =>
    simp only [repeats]
    split
    · rw [List.map_append, ← ih (some c)]
      rfl
    · rfl

lemma repeatsUpTo_behind (p : α → Bool) (n : Nat) (pos : Pos α) :
    repeatsUpTo p n (behind z pos) = (repeatsUpTo p n pos).map (behind z) := by
  induction n generalizing pos with
  | zero => rfl
  | succ n ih =>
    obtain ⟨prev, _ | ⟨c, t⟩⟩ := pos
    · rfl
    · simp only [behind, repeatsUpTo]
      split
      · rw [List.map_append, ← ih (some c, t)]
        rfl
      · rfl

/-- The matches are the same whether the text starts or `z` stands before it. -/
theorem ends_behind {r : Regex α} (hr : r.Blind x z) (pos : Pos α) :
    r.ends (behind z pos) = (r.ends pos).map (behind z) := by
  induction r generalizing pos with
  | empty => rfl
  | char q =>
    obtain ⟨prev, _ | ⟨c, t⟩⟩ := pos
    · rfl
    · simp only [behind, ends]
      split <;> rfl
  | star q => exact repeats_behind q pos.1 pos.2
  | upTo n q => exact repeatsUpTo_behind q n pos
  | beside test =>
    obtain ⟨prev, t⟩ := pos
    cases prev with
    | none =>
      simp only [behind, ends, Option.none_or, hr.2]
      split <;> rfl
    | some c =>
      show (beside test).ends (some c, t) = ((beside test).ends (some c, t)).map (behind z)
      rw [ends]
      split <;> rfl
  | seq r s ihr ihs =>
    simp only [ends, ihr hr.1, List.flatMap_map, List.map_flatMap]
    exact List.flatMap_congr fun pos' _ => ihs hr.2 pos'
  | alt r s ihr ihs =>
    simp only [ends, List.map_append, ihr hr.1, ihs hr.2]

end Regex

namespace Pattern

open Regex (Pos further inside behind)

variable {γ α : Type} {x z : α}

/-- The tests of a pattern see neither character. -/
def Blind (x z : α) : Pattern γ α → Prop
  | plain r => r.Blind x z
  | group _ r => r.Blind x z
  | seq p q => p.Blind x z ∧ q.Blind x z
  | alt p q => p.Blind x z ∧ q.Blind x z

/-- The matches that stay in a text are those of the text by itself. -/
theorem ends_append_cons {p : Pattern γ α} (hp : p.Blind x z) (prev : Option α) (u w : List α) :
    (p.ends (prev, u ++ x :: w)).filter (fun m => inside w m.2) =
      (p.ends (prev, u)).map fun m => (m.1, further (x :: w) m.2) := by
  induction p generalizing prev u with
  | plain r =>
    simp only [ends, List.filter_map, Function.comp_def, Regex.ends_append_cons hp, List.map_map]
  | group g r =>
    simp only [ends, List.filter_map, Function.comp_def, Regex.ends_append_cons hp, List.map_map]
    apply List.map_congr_left
    intro e he
    have hle := Regex.length_le_of_mem_ends he
    have hlen : (u ++ x :: w).length - (further (x :: w) e).2.length = u.length - e.2.length := by
      simp only [further, List.length_append]
      omega
    rw [hlen, List.take_append_of_le_length (Nat.sub_le _ _)]
  | seq p q ihp ihq =>
    rw [ends, Regex.filter_flatMap_eq (k := fun m => inside w m.2)]
    · simp only [ends, List.filter_map, Function.comp_def, ihp hp.1, List.flatMap_map,
        List.map_flatMap, List.map_map]
      apply List.flatMap_congr
      rintro ⟨caps, prev', u'⟩ -
      simp only [further, ihq hp.2, List.map_map, Function.comp_def]
    · intro m _ hout d hd
      obtain ⟨n, hn, rfl⟩ := List.mem_map.1 hd
      have hle := length_le_of_mem_ends hn
      exact Regex.inside_of_le hle hout
  | alt p q ihp ihq =>
    simp only [ends, List.filter_append, List.map_append, ihp hp.1, ihq hp.2]

/-- The matches are the same whether the text starts or `z` stands before it. -/
theorem ends_behind {p : Pattern γ α} (hp : p.Blind x z) (pos : Pos α) :
    p.ends (behind z pos) = (p.ends pos).map fun m => (m.1, behind z m.2) := by
  induction p generalizing pos with
  | plain r =>
    rw [ends, ends, Regex.ends_behind hp, List.map_map, List.map_map]
    rfl
  | group g r =>
    rw [ends, ends, Regex.ends_behind hp, List.map_map, List.map_map]
    rfl
  | seq p q ihp ihq =>
    simp only [ends, ihp hp.1, List.flatMap_map, List.map_flatMap, ihq hp.2, List.map_map]
    rfl
  | alt p q ihp ihq =>
    simp only [ends, List.map_append, ihp hp.1, ihq hp.2]

/-! ### One match -/

/-- A match without what stands beside it. -/
def Found.core (m : Found γ α) : Found γ α := { m with before := none, after := none }

@[simp] lemma Found.core_text (m : Found γ α) : m.core.text = m.text := rfl

@[simp] lemma Found.core_groups (m : Found γ α) : m.core.groups = m.groups := rfl

/-- The match that the ends of a text give, without what stands beside it. -/
def coreOf (t : List α) (ms : List (Groups γ α × Pos α)) : Option (Found γ α) :=
  (ms.head?.map fun m =>
    { before := none, groups := m.1, text := t.take (t.length - m.2.2.length),
      after := none }).filter fun m => !m.text.isEmpty

lemma map_core_matchAt (p : Pattern γ α) (pos : Pos α) :
    (p.matchAt pos).map Found.core = coreOf pos.2 (p.ends pos) := by
  rw [matchAt, coreOf]
  cases (p.ends pos).head? with
  | none => rfl
  | some m =>
    simp only [Option.map_some, Option.filter_some]
    split <;> rfl

lemma map_core_matchAt_behind {p : Pattern γ α} (hp : p.Blind x z) (pos : Pos α) :
    (p.matchAt (behind z pos)).map Found.core = (p.matchAt pos).map Found.core := by
  rw [map_core_matchAt, map_core_matchAt, ends_behind hp, coreOf, coreOf, List.head?_map,
    Option.map_map]
  rfl

/-- Where the whole has no match, or one that stays in the text, the text has the same. -/
lemma map_core_matchAt_append {p : Pattern γ α} (hp : p.Blind x z) {prev : Option α}
    {u w : List α} (h : ∀ m ∈ p.matchAt (prev, u ++ x :: w), m.text.length ≤ u.length) :
    (p.matchAt (prev, u ++ x :: w)).map Found.core = (p.matchAt (prev, u)).map Found.core := by
  have hends := ends_append_cons hp prev u w
  rw [map_core_matchAt, map_core_matchAt]
  cases hT : p.ends (prev, u ++ x :: w) with
  | nil =>
    rw [hT, List.filter_nil, eq_comm, List.map_eq_nil_iff] at hends
    rw [hends]
    rfl
  | cons e es =>
    by_cases hin : inside w e.2 = true
    · -- The first match of the whole is the first of the text.
      rw [hT, List.filter_cons, if_pos hin] at hends
      obtain ⟨e', es', hu, rfl, -⟩ := List.map_eq_cons_iff.1 hends.symm
      have hlen : (u ++ x :: w).length - (further (x :: w) e'.2).2.length =
          u.length - e'.2.2.length := by
        simp only [further, List.length_append]
        omega
      rw [hu, coreOf, coreOf, List.head?_cons, List.head?_cons, Option.map_some, Option.map_some,
        hlen, List.take_append_of_le_length (Nat.sub_le _ _)]
    · -- It goes on behind the text.
      exfalso
      have hlen : u.length < (u ++ x :: w).length - e.2.2.length := by
        simp only [inside, decide_eq_true_eq, Nat.not_lt] at hin
        simp only [List.length_append, List.length_cons]
        omega
      have htake : ((u ++ x :: w).take ((u ++ x :: w).length - e.2.2.length)).length =
          (u ++ x :: w).length - e.2.2.length := by
        rw [List.length_take]
        exact Nat.min_eq_left (Nat.sub_le _ _)
      have hmatch : p.matchAt (prev, u ++ x :: w) = some
          { before := prev, groups := e.1,
            text := (u ++ x :: w).take ((u ++ x :: w).length - e.2.2.length),
            after := e.2.2.head? } := by
        rw [matchAt, hT, List.head?_cons, Option.map_some, Option.filter_some, if_pos]
        rw [Bool.not_eq_true', List.isEmpty_eq_false_iff]
        exact List.ne_nil_of_length_pos (by rw [htake]; omega)
      have := h _ hmatch
      simp only [htake] at this
      omega

/-! ### All matches -/

/-- A piece without what stands beside it. -/
def Piece.core : Piece γ α → Piece γ α
  | .plain c => .plain c
  | .found m => .found m.core

/-- The matches of some pieces with where they start, from an offset on. -/
def located : Nat → List (Piece γ α) → List (Nat × Found γ α)
  | _, [] => []
  | n, .plain _ :: ps => located (n + 1) ps
  | n, .found m :: ps => (n, m) :: located (n + m.text.length) ps

/-- `p.finditer(t)`, each match with its start. -/
def locate (p : Pattern γ α) (t : List α) : List (Nat × Found γ α) := located 0 (p.scan [] 0 none t)

lemma located_add (k n : Nat) (ps : List (Piece γ α)) :
    located (n + k) ps = (located n ps).map fun m => (m.1 + k, m.2) := by
  induction ps generalizing n with
  | nil => rfl
  | cons piece ps ih =>
    cases piece with
    | plain c => rw [located, located, Nat.add_right_comm, ih]
    | found m => rw [located, located, List.map_cons, Nat.add_right_comm, ih]

lemma located_core (n : Nat) (ps : List (Piece γ α)) :
    located n (ps.map Piece.core) = (located n ps).map fun m => (m.1, m.2.core) := by
  induction ps generalizing n with
  | nil => rfl
  | cons piece ps ih =>
    cases piece with
    | plain c => exact ih (n + 1)
    | found m => exact congrArg ((n, m.core) :: ·) (ih (n + m.text.length))

/-- How much text some pieces cover. -/
def covered : List (Piece γ α) → Nat
  | [] => 0
  | .plain _ :: ps => covered ps + 1
  | .found m :: ps => covered ps + m.text.length

lemma located_append (n : Nat) (ps qs : List (Piece γ α)) :
    located n (ps ++ qs) = located n ps ++ located (n + covered ps) qs := by
  induction ps generalizing n with
  | nil => rfl
  | cons piece ps ih =>
    cases piece with
    | plain c =>
      rw [List.cons_append, located, ih, located, covered]
      congr 2
      omega
    | found m =>
      rw [List.cons_append, located, ih, located, covered, List.cons_append]
      congr 3
      omega

@[simp] lemma covered_core (ps : List (Piece γ α)) : covered (ps.map Piece.core) = covered ps := by
  induction ps with
  | nil => rfl
  | cons piece ps ih =>
    cases piece with
    | plain c => exact congrArg (· + 1) ih
    | found m => exact congrArg (· + m.text.length) ih

lemma covered_scan (p : Pattern γ α) (prev : Option α) (t : List α) :
    covered (p.scan [] 0 prev t) = t.length := by
  induction prev, t using scan_induction p.within_true
      (by simp : ∀ x ∈ ([] : List α).head?, _) with
  | nil prev => rfl
  | plain prev c t hnone ih => rw [scan_plain hnone, covered, ih, List.length_cons]
  | found prev m t hm hne ih =>
    rw [scan_found hne hm, covered, ih, List.length_append, Nat.add_comm]

/-- Each match lies in the text. -/
lemma mem_locate_le {p : Pattern γ α} {t : List α} {m : Nat × Found γ α} (h : m ∈ p.locate t) :
    m.1 + m.2.text.length ≤ t.length := by
  have hle (n : Nat) (ps : List (Piece γ α)) (h : m ∈ located n ps) :
      m.1 + m.2.text.length ≤ n + covered ps := by
    induction ps generalizing n with
    | nil => exact absurd h List.not_mem_nil
    | cons piece ps ih =>
      cases piece with
      | plain c =>
        have := ih (n + 1) h
        simp only [covered]
        omega
      | found m' =>
        simp only [covered]
        rcases List.mem_cons.1 h with rfl | h
        · simp only
          omega
        · have := ih (n + m'.text.length) h
          omega
  have := hle 0 _ h
  rw [covered_scan] at this
  omega

/-- No match touches a break of length `k` behind a text of length `n`. -/
def Apart (n k : Nat) (ms : List (Nat × Found γ α)) : Prop :=
  ∀ m ∈ ms, m.1 + m.2.text.length ≤ n ∨ n + k ≤ m.1

lemma mem_located_add {d : Nat} {ps : List (Piece γ α)} {m : Nat × Found γ α}
    (hm : m ∈ located 0 ps) : (m.1 + d, m.2) ∈ located d ps := by
  rw [← Nat.zero_add d, located_add]
  exact List.mem_map.2 ⟨m, hm, by rw [Nat.zero_add]⟩

/-- Over a break that no match touches the scan goes character by character. -/
lemma scan_break (p : Pattern γ α) (prev : Option α) (brk v : List α)
    (h : Apart 0 brk.length (located 0 (p.scan [] 0 prev (brk ++ v)))) :
    p.scan [] 0 prev (brk ++ v) =
      brk.map Piece.plain ++ p.scan [] 0 (brk.getLast?.or prev) v := by
  induction brk generalizing prev with
  | nil => rfl
  | cons c brk ih =>
    cases hm : p.matchAt (prev, c :: (brk ++ v) ++ []) with
    | none =>
      have hscan := scan_plain hm
      rw [List.cons_append] at h ⊢
      rw [hscan] at h ⊢
      rw [ih (some c), getLast?_cons_or]
      · rfl
      · intro m hm
        have := h _ (mem_located_add (d := 1) hm)
        simp only [List.length_cons] at this
        omega
    | some m =>
      obtain ⟨rest, -, hne, -⟩ := exists_of_matchAt p.within_true hm
      rw [List.cons_append, scan, hm] at h
      have := h (0, m) (by simp [located])
      have := List.length_pos_of_ne_nil hne
      simp only [List.length_cons] at *
      omega

/-- Up to the break the scan of the whole is that of the text before it. -/
lemma scan_before {p : Pattern γ α} (hp : p.Blind x z) (prev : Option α) (u w v : List α)
    (h : Apart u.length (x :: w).length (located 0 (p.scan [] 0 prev (u ++ (x :: w ++ v))))) :
    ∃ last, (p.scan [] 0 prev (u ++ (x :: w ++ v))).map Piece.core =
        (p.scan [] 0 prev u).map Piece.core ++ (p.scan [] 0 last (x :: w ++ v)).map Piece.core ∧
      Apart 0 (x :: w).length (located 0 (p.scan [] 0 last (x :: w ++ v))) := by
  induction hn : u.length using Nat.strongRecOn generalizing prev u with
  | _ n ih =>
    cases u with
    | nil =>
      refine ⟨prev, rfl, ?_⟩
      simpa using h
    | cons c u =>
      have hstay : ∀ m ∈ p.matchAt (prev, c :: u ++ x :: (w ++ v)),
          m.text.length ≤ (c :: u).length := by
        intro m hm
        rw [Option.mem_def, ← List.append_nil (c :: u ++ x :: (w ++ v))] at hm
        have hmem : (0, m) ∈ located 0 (p.scan [] 0 prev (c :: u ++ (x :: w ++ v))) := by
          have hm : p.matchAt (prev, c :: (u ++ (x :: w ++ v)) ++ []) = some m := hm
          rw [List.cons_append, scan, hm]
          exact List.mem_cons_self
        have := h _ hmem
        simp only [List.length_cons] at this ⊢
        omega
      have hcore := map_core_matchAt_append hp hstay
      cases hm : p.matchAt (prev, c :: u ++ x :: (w ++ v)) with
      | none =>
        rw [hm, Option.map_none, eq_comm, Option.map_eq_none_iff] at hcore
        rw [← List.append_nil (c :: u)] at hcore
        rw [← List.append_nil (c :: u ++ x :: (w ++ v))] at hm
        have hwhole : p.scan [] 0 prev (c :: u ++ (x :: w ++ v)) =
            .plain c :: p.scan [] 0 (some c) (u ++ (x :: w ++ v)) := scan_plain hm
        have hpart := scan_plain hcore
        have hrest : Apart u.length (x :: w).length
            (located 0 (p.scan [] 0 (some c) (u ++ (x :: w ++ v)))) := by
          intro m hmem
          rw [hwhole] at h
          have := h _ (mem_located_add (d := 1) hmem)
          simp only [List.length_cons] at this ⊢
          omega
        obtain ⟨last, heq, hlast⟩ := ih u.length (by simp [← hn]) (some c) u hrest rfl
        refine ⟨last, ?_, hlast⟩
        rw [hwhole, hpart, List.map_cons, List.map_cons, heq]
        rfl
      | some m =>
        rw [hm, Option.map_some, eq_comm, Option.map_eq_some_iff] at hcore
        obtain ⟨m', hm', hcore⟩ := hcore
        have htext : m'.core.text = m.core.text := congrArg Found.text hcore
        rw [Found.core_text, Found.core_text] at htext
        obtain ⟨rest, hrest, hne, -⟩ := exists_of_matchAt p.within_true hm'
        rw [htext] at hrest hne
        rw [hrest] at hm hm' h hn ⊢
        rw [List.append_assoc, ← List.append_nil (m.text ++ _)] at hm
        have hwhole : p.scan [] 0 prev (m.text ++ (rest ++ (x :: w ++ v))) =
            .found m :: p.scan [] 0 (m.text.getLast?.or prev) (rest ++ (x :: w ++ v)) :=
          scan_found hne hm
        have hpart := scan_found (t := rest) (m := m') (htext ▸ hne)
          (by rw [htext, List.append_nil]; exact hm')
        rw [htext] at hpart
        have happend : m.text ++ rest ++ (x :: w ++ v) = m.text ++ (rest ++ (x :: w ++ v)) :=
          List.append_assoc _ _ _
        rw [happend] at h ⊢
        rw [hwhole] at h ⊢
        have hrest' : Apart rest.length (x :: w).length (located 0
            (p.scan [] 0 (m.text.getLast?.or prev) (rest ++ (x :: w ++ v)))) := by
          intro m₁ hmem
          rw [located, Nat.zero_add] at h
          have := h _ (List.mem_cons_of_mem _ (mem_located_add (d := m.text.length) hmem))
          simp only [List.length_append] at this
          omega
        have hpos := List.length_pos_of_ne_nil hne
        rw [List.length_append] at hn
        obtain ⟨last, heq, hlast⟩ :=
          ih rest.length (by omega) (m.text.getLast?.or prev) rest hrest' rfl
        refine ⟨last, ?_, hlast⟩
        rw [hpart, List.map_cons, List.map_cons, heq]
        simp only [Piece.core, hcore]
        rfl

lemma scan_behind {p : Pattern γ α} (hp : p.Blind x z) (k : Nat) (prev : Option α) (v : List α) :
    (p.scan [] k (prev.or (some z)) v).map Piece.core = (p.scan [] k prev v).map Piece.core := by
  cases v with
  | nil => cases k <;> rfl
  | cons c v =>
    cases k with
    | succ k => rfl
    | zero =>
      have hcore := map_core_matchAt_behind hp (prev, c :: v ++ [])
      rw [Regex.behind] at hcore
      simp only [scan]
      cases hm : p.matchAt (prev, c :: v ++ []) with
      | none =>
        rw [hm, Option.map_none, Option.map_eq_none_iff] at hcore
        simp only [hcore]
      | some m =>
        rw [hm, Option.map_some, Option.map_eq_some_iff] at hcore
        obtain ⟨m', hm', hcore⟩ := hcore
        have htext : m'.core.text = m.core.text := congrArg Found.text hcore
        rw [Found.core_text, Found.core_text] at htext
        simp only [hm', htext, List.map_cons, Piece.core, hcore]

/-- The scan of joined texts is that of the one, the break, and that of the other. -/
theorem scan_joined {p : Pattern γ α} (hp : p.Blind x z) {brk : List α} (hhead : brk.head? = some x)
    (hlast : brk.getLast? = some z) (u v : List α)
    (h : Apart u.length brk.length (p.locate (u ++ (brk ++ v)))) :
    (p.scan [] 0 none (u ++ (brk ++ v))).map Piece.core =
      (p.scan [] 0 none u).map Piece.core ++
        (brk.map Piece.plain ++ (p.scan [] 0 none v).map Piece.core) := by
  obtain ⟨w, rfl⟩ : ∃ w, brk = x :: w := List.head?_eq_some_iff.1 hhead
  obtain ⟨last, heq, hapart⟩ := scan_before hp none u w v h
  have hcores : ((x :: w).map Piece.plain : List (Piece γ α)).map Piece.core =
      (x :: w).map Piece.plain := by
    rw [List.map_map]
    rfl
  rw [heq, scan_break p last (x :: w) v hapart, hlast, List.map_append, hcores,
    ← scan_behind hp 0 none v]
  rfl

section

variable {p : Pattern γ α} (hp : p.Blind x z) {brk : List α} (hhead : brk.head? = some x)
  (hlast : brk.getLast? = some z) (u v : List α)
  (h : Apart u.length brk.length (p.locate (u ++ (brk ++ v))))
include hp hhead hlast h

/-- The matches of joined texts are those of the one and those of the other, moved. -/
theorem locate_joined :
    (p.locate (u ++ (brk ++ v))).map (fun m => (m.1, m.2.core)) =
      (p.locate u).map (fun m => (m.1, m.2.core)) ++
        (p.locate v).map fun m => (m.1 + (u.length + brk.length), m.2.core) := by
  have hplain (n : Nat) (brk : List α) :
      located n (brk.map Piece.plain : List (Piece γ α)) = [] := by
    induction brk generalizing n with
    | nil => rfl
    | cons c brk ih => exact ih (n + 1)
  have hcovered (brk : List α) : covered (brk.map Piece.plain : List (Piece γ α)) = brk.length := by
    induction brk with
    | nil => rfl
    | cons c brk ih => exact congrArg (· + 1) ih
  rw [locate, ← located_core, scan_joined hp hhead hlast u v h, located_append, located_append,
    hplain, covered_core, covered_scan, hcovered, located_core, List.nil_append,
    Nat.add_assoc, located_add, located_core, List.map_map]
  rfl

/-- What a substitution makes of joined texts. -/
theorem sub_joined {f : Found γ α → List α} (hf : ∀ m, f m = f m.core) :
    p.sub f (u ++ (brk ++ v)) = p.sub f u ++ (brk ++ p.sub f v) := by
  have hout : (fun piece => Piece.out f (Piece.core piece)) = Piece.out f := by
    funext piece
    cases piece with
    | plain c => rfl
    | found m => exact (hf m).symm
  have hcore (ps : List (Piece γ α)) : ps.flatMap (Piece.out f) =
      (ps.map Piece.core).flatMap (Piece.out f) := by
    rw [List.flatMap_map, hout]
  have hplain : (brk.map Piece.plain : List (Piece γ α)).flatMap (Piece.out f) = brk := by
    rw [List.flatMap_map]
    exact List.flatMap_singleton' brk
  rw [sub, subIn, hcore, scan_joined hp hhead hlast u v h, List.flatMap_append,
    List.flatMap_append, hplain, ← hcore, ← hcore]
  rfl

end

/-- A substitution that keeps the length of each match keeps that of the text. -/
lemma length_sub {p : Pattern γ α} {f : Found γ α → List α}
    (hf : ∀ m, (f m).length = m.text.length) (t : List α) : (p.sub f t).length = t.length := by
  have hpieces (ps : List (Piece γ α)) : (ps.flatMap (Piece.out f)).length = covered ps := by
    induction ps with
    | nil => rfl
    | cons piece ps ih =>
      rw [List.flatMap_cons, List.length_append, ih]
      cases piece with
      | plain c => exact Nat.add_comm _ _
      | found m => rw [Piece.out, hf, covered, Nat.add_comm]
  rw [sub, subIn, hpieces, covered_scan]

end Pattern
