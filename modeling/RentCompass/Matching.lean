import RentCompass.Regex

/-!
# Matches in a text

Expressions with named groups, and the leftmost matches that `finditer` and `sub` go through.
The laws say how far a match can see: it reads the characters it covers and one on either side.
-/

namespace Regex

variable {α : Type}

/-! ### Where a match may end -/

/-- The second position lies behind the first, across `u`. -/
def Across (u : List α) (pos pos' : Pos α) : Prop :=
  pos.2 = u ++ pos'.2 ∧ pos'.1 = u.getLast?.or pos.1

lemma Across.refl (pos : Pos α) : Across [] pos pos := ⟨rfl, rfl⟩

lemma Across.trans {u v : List α} {pos pos' pos'' : Pos α} (h : Across u pos pos')
    (h' : Across v pos' pos'') : Across (u ++ v) pos pos'' := by
  refine ⟨by rw [h.1, h'.1, List.append_assoc], ?_⟩
  rw [h'.2, h.2, List.getLast?_append, Option.or_assoc]

lemma Across.cons {u t : List α} {prev : Option α} {c : α} {pos : Pos α}
    (h : Across u (some c, t) pos) : Across (c :: u) (prev, c :: t) pos :=
  have hstep : Across [c] (prev, c :: t) (some c, t) := ⟨rfl, rfl⟩
  hstep.trans h

/-- The characters that matches go across are of a class. -/
def Within (p : α → Bool) : Regex α → Prop
  | empty => True
  | char q => ∀ c, q c → p c
  | star q => ∀ c, q c → p c
  | upTo _ q => ∀ c, q c → p c
  | beside _ => True
  | seq r s => r.Within p ∧ s.Within p
  | alt r s => r.Within p ∧ s.Within p

lemma within_true (r : Regex α) : r.Within fun _ => true := by
  induction r with
  | seq r s ihr ihs => exact ⟨ihr, ihs⟩
  | alt r s ihr ihs => exact ⟨ihr, ihs⟩
  | _ => simp [Within]

lemma mem_repeats {p q : α → Bool} (hpq : ∀ c, p c → q c) {prev : Option α} {t : List α}
    {pos : Pos α} (h : pos ∈ repeats p prev t) :
    ∃ u, Across u (prev, t) pos ∧ ∀ c ∈ u, q c := by
  induction t generalizing prev with
  | nil =>
    obtain rfl := List.mem_singleton.1 h
    exact ⟨[], Across.refl _, by simp⟩
  | cons c t ih =>
    have hstop (hpos : pos = (prev, c :: t)) : ∃ u, Across u (prev, c :: t) pos ∧ ∀ c ∈ u, q c :=
      ⟨[], hpos ▸ Across.refl _, by simp⟩
    unfold repeats at h
    split at h
    case isTrue hc =>
      rcases List.mem_append.1 h with hmore | hhere
      · obtain ⟨u, hu, hall⟩ := ih hmore
        refine ⟨c :: u, hu.cons, ?_⟩
        simpa using ⟨hpq c hc, hall⟩
      · exact hstop (List.mem_singleton.1 hhere)
    case isFalse => exact hstop (List.mem_singleton.1 h)

lemma mem_repeatsUpTo {p q : α → Bool} (hpq : ∀ c, p c → q c) {n : Nat} {prev : Option α}
    {t : List α} {pos : Pos α} (h : pos ∈ repeatsUpTo p n (prev, t)) :
    ∃ u, Across u (prev, t) pos ∧ ∀ c ∈ u, q c := by
  have hstop {prev : Option α} {t : List α} (hpos : pos = (prev, t)) :
      ∃ u, Across u (prev, t) pos ∧ ∀ c ∈ u, q c := ⟨[], hpos ▸ Across.refl _, by simp⟩
  induction n generalizing prev t with
  | zero => exact hstop (List.mem_singleton.1 h)
  | succ n ih =>
    cases t with
    | nil => exact hstop (List.mem_singleton.1 h)
    | cons c t =>
      unfold repeatsUpTo at h
      split at h
      case isTrue hc =>
        rcases List.mem_append.1 h with hmore | hhere
        · obtain ⟨u, hu, hall⟩ := ih hmore
          refine ⟨c :: u, hu.cons, ?_⟩
          simpa using ⟨hpq c hc, hall⟩
        · exact hstop (List.mem_singleton.1 hhere)
      case isFalse => exact hstop (List.mem_singleton.1 h)

/-- A match goes forward, across characters that the expression allows. -/
lemma exists_across {p : α → Bool} {r : Regex α} (hr : r.Within p) {pos pos' : Pos α}
    (h : pos' ∈ r.ends pos) : ∃ u, Across u pos pos' ∧ ∀ c ∈ u, p c := by
  induction r generalizing pos pos' with
  | empty =>
    obtain rfl := List.mem_singleton.1 h
    exact ⟨[], Across.refl _, by simp⟩
  | char q =>
    obtain ⟨prev, _ | ⟨c, t⟩⟩ := pos
    · exact absurd h List.not_mem_nil
    · simp only [ends] at h
      split at h
      case isTrue hc =>
        obtain rfl := List.mem_singleton.1 h
        exact ⟨[c], ⟨rfl, rfl⟩, by simpa using hr c hc⟩
      case isFalse => exact absurd h List.not_mem_nil
  | star q => exact mem_repeats hr h
  | upTo n q => exact mem_repeatsUpTo hr h
  | beside test =>
    simp only [ends] at h
    split at h
    case isTrue =>
      obtain rfl := List.mem_singleton.1 h
      exact ⟨[], Across.refl _, by simp⟩
    case isFalse => exact absurd h List.not_mem_nil
  | seq r s ihr ihs =>
    obtain ⟨mid, hmid, hend⟩ := List.mem_flatMap.1 h
    obtain ⟨u, hu, hallu⟩ := ihr hr.1 hmid
    obtain ⟨v, hv, hallv⟩ := ihs hr.2 hend
    exact ⟨u ++ v, hu.trans hv, fun c hc => (List.mem_append.1 hc).elim (hallu c) (hallv c)⟩
  | alt r s ihr ihs =>
    rcases List.mem_append.1 h with h | h
    · exact ihr hr.1 h
    · exact ihs hr.2 h

lemma length_le_of_mem_ends {r : Regex α} {pos pos' : Pos α} (h : pos' ∈ r.ends pos) :
    pos'.2.length ≤ pos.2.length := by
  obtain ⟨u, hu, -⟩ := exists_across r.within_true h
  rw [hu.1, List.length_append]
  omega

/-! ### How far a match can see -/

/-- The same position in the text with `w` behind it. -/
def further (w : List α) (pos : Pos α) : Pos α := (pos.1, pos.2 ++ w)

/-- The position lies before the last character of the text that has `w` behind it. -/
def inside (w : List α) (pos : Pos α) : Bool := w.length < pos.2.length

@[simp] lemma inside_append (w : List α) (prev : Option α) (u : List α) :
    inside w (prev, u ++ w) = inside [] (prev, u) := by
  simp [inside]

@[simp] lemma inside_self (w : List α) (prev : Option α) : inside w (prev, w) = false := by
  simp [inside]

@[simp] lemma inside_nil_cons (prev : Option α) (c : α) (u : List α) :
    inside [] (prev, c :: u) = true := by
  simp [inside]

lemma inside_eq_false {w u : List α} {pos : Pos α} (h : w = u ++ pos.2) : inside w pos = false := by
  simp [inside, h]

lemma filter_repeats (p : α → Bool) (prev : Option α) (u w : List α) :
    (repeats p prev (u ++ w)).filter (inside w) =
      ((repeats p prev u).filter (inside [])).map (further w) := by
  induction u generalizing prev with
  | nil =>
    have hleft : ∀ pos ∈ repeats p prev w, inside w pos = false := by
      intro pos hpos
      obtain ⟨u, hu, -⟩ := mem_repeats (q := fun _ => true) (fun _ _ => rfl) hpos
      exact inside_eq_false hu.1
    rw [List.nil_append, List.filter_eq_nil_iff.2 (by simpa using hleft)]
    simp [repeats]
  | cons c u ih =>
    have hhere : inside w (prev, c :: (u ++ w)) = true := inside_append w prev (c :: u)
    simp only [List.cons_append, repeats]
    split
    · rw [List.filter_append, List.filter_append, List.map_append, ih]
      simp [hhere, further]
    · simp [hhere, further]

lemma filter_repeatsUpTo (p : α → Bool) (n : Nat) (prev : Option α) (u w : List α) :
    (repeatsUpTo p n (prev, u ++ w)).filter (inside w) =
      ((repeatsUpTo p n (prev, u)).filter (inside [])).map (further w) := by
  induction n generalizing prev u with
  | zero =>
    cases h : inside [] (prev, u) <;> simp [repeatsUpTo, h, further]
  | succ n ih =>
    cases u with
    | nil =>
      have hleft : ∀ pos ∈ repeatsUpTo p (n + 1) (prev, w), inside w pos = false := by
        intro pos hpos
        obtain ⟨u, hu, -⟩ := mem_repeatsUpTo (q := fun _ => true) (fun _ _ => rfl) hpos
        exact inside_eq_false hu.1
      rw [List.nil_append, List.filter_eq_nil_iff.2 (by simpa using hleft)]
      simp [repeatsUpTo]
    | cons c u =>
      have hhere : inside w (prev, c :: (u ++ w)) = true := inside_append w prev (c :: u)
      simp only [List.cons_append, repeatsUpTo]
      split
      · rw [List.filter_append, List.filter_append, List.map_append, ih]
        simp [hhere, further]
      · simp [hhere, further]

lemma ends_beside_cons (test : Option α → Option α → Bool) (prev : Option α) (c : α)
    (t : List α) : (beside test).ends (prev, c :: t) =
      if test prev (some c) then [(prev, c :: t)] else [] := rfl

/-- Where nothing that is left out leads to what is kept, the filter may be applied first. -/
lemma filter_flatMap_eq {β δ : Type} {f : β → List δ} {k : β → Bool} {wanted : δ → Bool}
    {bs : List β} (h : ∀ b ∈ bs, k b = false → ∀ d ∈ f b, wanted d = false) :
    (bs.flatMap f).filter wanted = (bs.filter k).flatMap fun b => (f b).filter wanted := by
  induction bs with
  | nil => rfl
  | cons b bs ih =>
    rw [List.flatMap_cons, List.filter_append, ih fun b' hb' => h b' (by simp [hb'])]
    cases hb : k b
    · have hout : ∀ d ∈ f b, ¬ wanted d = true := by simpa using h b (by simp) hb
      rw [List.filter_eq_nil_iff.2 hout, List.nil_append, List.filter_cons_of_neg (by simp [hb])]
    · rw [List.filter_cons_of_pos hb, List.flatMap_cons]

lemma inside_of_le {w : List α} {pos pos' : Pos α} (hle : pos'.2.length ≤ pos.2.length)
    (h : inside w pos = false) : inside w pos' = false := by
  simp only [inside, decide_eq_false_iff_not] at h ⊢
  omega

/-- Behind a position that is not inside there is none that is. -/
lemma filter_flatMap_ends (s : Regex α) (w : List α) (ps : List (Pos α)) :
    (ps.flatMap s.ends).filter (inside w) =
      (ps.filter (inside w)).flatMap fun pos => (s.ends pos).filter (inside w) :=
  filter_flatMap_eq fun _ _ hout _ hpos => inside_of_le (length_le_of_mem_ends hpos) hout

/-- What is found inside a text does not depend on what follows the text. -/
theorem filter_ends (r : Regex α) (prev : Option α) (u w : List α) :
    (r.ends (prev, u ++ w)).filter (inside w) =
      ((r.ends (prev, u)).filter (inside [])).map (further w) := by
  induction r generalizing prev u with
  | empty => cases h : inside [] (prev, u) <;> simp [ends, h, further]
  | char p =>
    cases u with
    | nil =>
      cases w with
      | nil => simp [ends]
      | cons c w =>
        simp only [List.nil_append, ends]
        split <;> simp [inside]
    | cons c u =>
      simp only [List.cons_append, ends]
      split
      · cases h : inside [] (some c, u) <;> simp [h, further]
      · simp
  | star p => exact filter_repeats p prev u w
  | upTo n p => exact filter_repeatsUpTo p n prev u w
  | beside test =>
    cases u with
    | nil =>
      simp only [List.nil_append, ends]
      split <;> split <;> simp
    | cons c u =>
      have hhere : inside w (prev, c :: (u ++ w)) = true := inside_append w prev (c :: u)
      rw [List.cons_append, ends_beside_cons, ends_beside_cons]
      split <;> simp [hhere, further]
  | seq r s ihr ihs =>
    simp only [ends, filter_flatMap_ends, ihr, List.flatMap_map, List.map_flatMap]
    apply List.flatMap_congr
    rintro ⟨prev', u'⟩ -
    exact ihs prev' u'
  | alt r s ihr ihs =>
    simp only [ends, List.filter_append, List.map_append, ihr, ihs]

end Regex

/-! ### Groups -/

/-- An expression with named groups. -/
inductive Pattern (γ α : Type) where
  | plain (r : Regex α)
  | group (g : γ) (r : Regex α)
  | seq (p q : Pattern γ α)
  | alt (p q : Pattern γ α)

namespace Pattern

open Regex (Pos Across further inside)

variable {γ α : Type}

/-- What the groups of a match hold. -/
abbrev Groups (γ α : Type) := List (γ × List α)

/-- The matches from a position, in the order they are tried in, each with its end. -/
def ends : Pattern γ α → Pos α → List (Groups γ α × Pos α)
  | plain r, pos => (r.ends pos).map fun e => ([], e)
  | group g r, pos => (r.ends pos).map fun e => ([(g, pos.2.take (pos.2.length - e.2.length))], e)
  | seq p q, pos =>
    (p.ends pos).flatMap fun m => (q.ends m.2).map fun n => (m.1 ++ n.1, n.2)
  | alt p q, pos => p.ends pos ++ q.ends pos

/-- `(?:…)?` -/
def opt (p : Pattern γ α) : Pattern γ α := p.alt (plain .empty)

/-- One expression after the other. -/
def concat (ps : List (Pattern γ α)) : Pattern γ α := ps.foldr seq (plain .empty)

/-- The characters that matches go across are of a class. -/
def Within (c : α → Bool) : Pattern γ α → Prop
  | plain r => r.Within c
  | group _ r => r.Within c
  | seq p q => p.Within c ∧ q.Within c
  | alt p q => p.Within c ∧ q.Within c

lemma within_true (p : Pattern γ α) : p.Within fun _ => true := by
  induction p with
  | plain r => exact r.within_true
  | group _ r => exact r.within_true
  | seq p q ihp ihq => exact ⟨ihp, ihq⟩
  | alt p q ihp ihq => exact ⟨ihp, ihq⟩

lemma exists_across {c : α → Bool} {p : Pattern γ α} (hp : p.Within c) {pos : Pos α}
    {m : Groups γ α × Pos α} (h : m ∈ p.ends pos) :
    ∃ u, Across u pos m.2 ∧ ∀ a ∈ u, c a := by
  induction p generalizing pos m with
  | plain r =>
    obtain ⟨e, he, rfl⟩ := List.mem_map.1 h
    exact Regex.exists_across hp he
  | group g r =>
    obtain ⟨e, he, rfl⟩ := List.mem_map.1 h
    exact Regex.exists_across hp he
  | seq p q ihp ihq =>
    obtain ⟨m₁, hm₁, hrest⟩ := List.mem_flatMap.1 h
    obtain ⟨m₂, hm₂, rfl⟩ := List.mem_map.1 hrest
    obtain ⟨u, hu, hallu⟩ := ihp hp.1 hm₁
    obtain ⟨v, hv, hallv⟩ := ihq hp.2 hm₂
    exact ⟨u ++ v, hu.trans hv, fun a ha => (List.mem_append.1 ha).elim (hallu a) (hallv a)⟩
  | alt p q ihp ihq =>
    rcases List.mem_append.1 h with h | h
    · exact ihp hp.1 h
    · exact ihq hp.2 h

lemma length_le_of_mem_ends {p : Pattern γ α} {pos : Pos α} {m : Groups γ α × Pos α}
    (h : m ∈ p.ends pos) : m.2.2.length ≤ pos.2.length := by
  obtain ⟨u, hu, -⟩ := exists_across p.within_true h
  rw [hu.1, List.length_append]
  omega

/-- What is found inside a text does not depend on what follows the text. -/
theorem filter_ends (p : Pattern γ α) (prev : Option α) (u w : List α) :
    (p.ends (prev, u ++ w)).filter (fun m => inside w m.2) =
      ((p.ends (prev, u)).filter fun m => inside [] m.2).map fun m => (m.1, further w m.2) := by
  induction p generalizing prev u with
  | plain r =>
    simp only [ends, List.filter_map, Function.comp_def, Regex.filter_ends, List.map_map]
  | group g r =>
    simp only [ends, List.filter_map, Function.comp_def, Regex.filter_ends, List.map_map]
    apply List.map_congr_left
    intro e he
    have hle := Regex.length_le_of_mem_ends (List.mem_filter.1 he).1
    have hlen : (u ++ w).length - (further w e).2.length = u.length - e.2.length := by
      simp only [further, List.length_append]
      omega
    rw [hlen, List.take_append_of_le_length (Nat.sub_le _ _)]
  | seq p q ihp ihq =>
    have hfilter (u w : List α) : ((p.seq q).ends (prev, u)).filter (fun m => inside w m.2) =
        ((p.ends (prev, u)).filter fun m => inside w m.2).flatMap fun m =>
          ((q.ends m.2).filter fun n => inside w n.2).map fun n => (m.1 ++ n.1, n.2) := by
      rw [ends, Regex.filter_flatMap_eq (k := fun m => inside w m.2)]
      · simp only [List.filter_map, Function.comp_def]
      · intro m _ hout d hd
        obtain ⟨n, hn, rfl⟩ := List.mem_map.1 hd
        have hle := length_le_of_mem_ends hn
        exact Regex.inside_of_le hle hout
    simp only [hfilter, ihp, List.flatMap_map, List.map_flatMap, List.map_map]
    apply List.flatMap_congr
    rintro ⟨caps, prev', u'⟩ -
    simp only [further, ihq, List.map_map, Function.comp_def]
  | alt p q ihp ihq =>
    simp only [ends, List.filter_append, List.map_append, ihp, ihq]

lemma mem_ends_seq {p q : Pattern γ α} {pos : Pos α} {m : Groups γ α × Pos α} :
    m ∈ (p.seq q).ends pos ↔
      ∃ m₁ ∈ p.ends pos, ∃ m₂ ∈ q.ends m₁.2, (m₁.1 ++ m₂.1, m₂.2) = m := by
  simp [ends]

lemma mem_ends_alt {p q : Pattern γ α} {pos : Pos α} {m : Groups γ α × Pos α} :
    m ∈ (p.alt q).ends pos ↔ m ∈ p.ends pos ∨ m ∈ q.ends pos := List.mem_append

lemma mem_ends_empty {pos : Pos α} {m : Groups γ α × Pos α} :
    m ∈ (plain .empty).ends pos ↔ m = ([], pos) := by
  simp [ends, Regex.ends]

lemma mem_ends_opt {p : Pattern γ α} {pos : Pos α} {m : Groups γ α × Pos α} :
    m ∈ p.opt.ends pos ↔ m ∈ p.ends pos ∨ m = ([], pos) := by
  rw [opt, mem_ends_alt, mem_ends_empty]

lemma mem_ends_beside {test : Option α → Option α → Bool} {pos : Pos α}
    {m : Groups γ α × Pos α} :
    m ∈ (plain (.beside test)).ends pos ↔ test pos.1 pos.2.head? ∧ m = ([], pos) := by
  simp only [ends, Regex.ends]
  split <;> simp_all

lemma mem_ends_char {q : α → Bool} {pos : Pos α} {m : Groups γ α × Pos α} :
    m ∈ (plain (.char q)).ends pos ↔ ∃ a s, pos.2 = a :: s ∧ q a ∧ m = ([], (some a, s)) := by
  obtain ⟨prev, _ | ⟨a, s⟩⟩ := pos
  · simp [ends, Regex.ends]
  · cases h : q a <;> simp [ends, Regex.ends, h]

lemma mem_ends_group_char {g : γ} {q : α → Bool} {pos : Pos α} {m : Groups γ α × Pos α} :
    m ∈ (group g (.char q)).ends pos ↔
      ∃ a s, pos.2 = a :: s ∧ q a ∧ m = ([(g, [a])], (some a, s)) := by
  obtain ⟨prev, _ | ⟨a, s⟩⟩ := pos
  · simp [ends, Regex.ends]
  · cases h : q a <;> simp [ends, Regex.ends, h]

/-! ### The matches of a text -/

/-- A match: what its groups hold, the characters it covers, and those directly beside it. -/
structure Found (γ α : Type) where
  before : Option α
  groups : Groups γ α
  text : List α
  after : Option α

/-- The match from a position. An empty match counts as none. -/
def matchAt (p : Pattern γ α) (pos : Pos α) : Option (Found γ α) :=
  ((p.ends pos).head?.map fun m =>
    { before := pos.1, groups := m.1, text := pos.2.take (pos.2.length - m.2.2.length),
      after := m.2.2.head? }).filter fun m => !m.text.isEmpty

/-- A text in pieces: its matches, and the characters between them. -/
inductive Piece (γ α : Type) where
  | plain (c : α)
  | found (m : Found γ α)

/-- The pieces of a text that `after` follows. `k` characters belong to the match before them. -/
def scan (p : Pattern γ α) (after : List α) : Nat → Option α → List α → List (Piece γ α)
  | _, _, [] => []
  | k + 1, _, c :: t => scan p after k (some c) t
  | 0, prev, c :: t =>
    match p.matchAt (prev, c :: t ++ after) with
    | some m => .found m :: scan p after (m.text.length - 1) (some c) t
    | none => .plain c :: scan p after 0 (some c) t

/-- The matches of a text that `after` follows. -/
def finds (p : Pattern γ α) (after : List α) (prev : Option α) (t : List α) : List (Found γ α) :=
  (p.scan after 0 prev t).filterMap fun
    | .plain _ => none
    | .found m => some m

/-- `p.finditer(t)` -/
def finditer (p : Pattern γ α) (t : List α) : List (Found γ α) := p.finds [] none t

/-- What a piece becomes. -/
def Piece.out (f : Found γ α → List α) : Piece γ α → List α
  | .plain c => [c]
  | .found m => f m

/-- The text with its matches substituted, where `after` follows it. -/
def subIn (p : Pattern γ α) (f : Found γ α → List α) (after : List α) (prev : Option α)
    (t : List α) : List α := (p.scan after 0 prev t).flatMap (Piece.out f)

/-- `p.sub(f, t)` -/
def sub (p : Pattern γ α) (f : Found γ α → List α) (t : List α) : List α := p.subIn f [] none t

lemma exists_of_matchAt {c : α → Bool} {p : Pattern γ α} (hp : p.Within c) {prev : Option α}
    {t : List α} {m : Found γ α} (h : p.matchAt (prev, t) = some m) :
    ∃ rest, t = m.text ++ rest ∧ m.text ≠ [] ∧ (∀ a ∈ m.text, c a) ∧ m.before = prev ∧
      m.after = rest.head? ∧ (m.groups, m.text.getLast?.or prev, rest) ∈ p.ends (prev, t) := by
  obtain ⟨hmap, hne⟩ := Option.filter_eq_some_iff.1 h
  obtain ⟨⟨groups, last, rest⟩, hhead, rfl⟩ := Option.map_eq_some_iff.1 hmap
  have hmem := List.mem_of_head? hhead
  obtain ⟨u, ⟨ht, hlast⟩, hall⟩ := exists_across hp hmem
  have htext : t.take (t.length - rest.length) = u := by
    have : t = u ++ rest := ht
    rw [this]
    simp
  simp only [htext] at hne ⊢
  refine ⟨rest, ht, by simpa using hne, hall, trivial, rfl, ?_⟩
  have : last = u.getLast?.or prev := hlast
  rwa [← this]

/-- A text of the class that begins another ends before the first character outside. -/
lemma length_le_of_append_eq {c : α → Bool} {u v s w : List α} {x : α} (hx : c x = false)
    (hall : ∀ a ∈ v, c a) (h : u ++ x :: s = v ++ w) : v.length ≤ u.length := by
  induction u generalizing v with
  | nil =>
    cases v with
    | nil => exact Nat.le_refl _
    | cons a v =>
      obtain ⟨rfl, -⟩ := List.cons.inj h
      rw [hall x (by simp)] at hx
      contradiction
  | cons b u ih =>
    cases v with
    | nil => exact Nat.zero_le _
    | cons a v =>
      obtain ⟨-, h⟩ := List.cons.inj h
      exact Nat.succ_le_succ (ih (fun a ha => hall a (by simp [ha])) h)

/-- Where the class ends no match goes on, so it stays inside. -/
lemma inside_of_mem_ends {c : α → Bool} {p : Pattern γ α} (hp : p.Within c) {prev : Option α}
    {u : List α} {x : α} (hx : c x = false) {s : List α} {m : Groups γ α × Pos α}
    (h : m ∈ p.ends (prev, u ++ x :: s)) : inside s m.2 = true := by
  obtain ⟨v, hv, hall⟩ := exists_across hp h
  have hlen := length_le_of_append_eq hx hall hv.1
  have hlens := congrArg List.length hv.1
  simp only [List.length_append, List.length_cons] at hlens
  simp only [inside, decide_eq_true_eq]
  omega

/-- A match sees no further than the first character outside of the class it goes across. -/
lemma matchAt_append {c : α → Bool} {p : Pattern γ α} (hp : p.Within c) (prev : Option α)
    (u : List α) {x : α} (hx : c x = false) (s : List α) :
    p.matchAt (prev, u ++ x :: s) = p.matchAt (prev, u ++ [x]) := by
  have hends : p.ends (prev, u ++ x :: s) =
      (p.ends (prev, u ++ [x])).map fun m => (m.1, further s m.2) := by
    have h := filter_ends p prev (u ++ [x]) s
    rw [List.append_assoc, List.singleton_append,
      List.filter_eq_self.2 fun m hm => inside_of_mem_ends hp hx hm,
      List.filter_eq_self.2 fun m hm => inside_of_mem_ends hp hx hm] at h
    exact h
  unfold matchAt
  rw [hends, List.head?_map, Option.map_map]
  congr 1
  cases hhead : (p.ends (prev, u ++ [x])).head? with
  | none => rfl
  | some m =>
    have hin := inside_of_mem_ends hp hx (List.mem_of_head? hhead)
    have hle := length_le_of_mem_ends (List.mem_of_head? hhead)
    simp only [inside, decide_eq_true_eq] at hin
    have hlen : (u ++ x :: s).length - (m.2.2 ++ s).length = (u ++ [x]).length - m.2.2.length := by
      simp only [List.length_append, List.length_cons, List.length_nil]
      omega
    have htake : (u ++ x :: s).take ((u ++ [x]).length - m.2.2.length) =
        (u ++ [x]).take ((u ++ [x]).length - m.2.2.length) := by
      have happend : u ++ x :: s = (u ++ [x]) ++ s := by simp
      rw [happend]
      exact List.take_append_of_le_length (Nat.sub_le _ _)
    simp only [Option.map_some, Function.comp_apply, further, hlen, htake, Option.some.injEq,
      Found.mk.injEq, true_and]
    rw [List.head?_append_of_ne_nil _ (List.ne_nil_of_length_pos hin)]

/-- `[..]+` matches where a character of the class stands. -/
lemma isSome_matchAt_plus {q : α → Bool} {x : α} (hx : q x) (prev : Option α) (t : List α) :
    ((plain (.plus q) : Pattern γ α).matchAt (prev, x :: t)).isSome := by
  have hends : (plain (.plus q) : Pattern γ α).ends (prev, x :: t) =
      (Regex.repeats q (some x) t).map fun e => ([], e) := by
    simp [ends, Regex.plus, Regex.ends, hx]
  have hne : Regex.repeats q (some x) t ≠ [] := by
    cases t with
    | nil => simp [Regex.repeats]
    | cons d t =>
      unfold Regex.repeats
      split <;> simp
  obtain ⟨e, es, hes⟩ := List.exists_cons_of_ne_nil hne
  have hle : e.2.length ≤ t.length := by
    have hmem : e ∈ Regex.repeats q (some x) t := by simp [hes]
    obtain ⟨u, hu, -⟩ := Regex.mem_repeats (q := q) (fun _ h => h) hmem
    have : t = u ++ e.2 := hu.1
    rw [this, List.length_append]
    omega
  have htake : ((x :: t).take ((x :: t).length - e.2.length)).isEmpty = false := by
    obtain ⟨n, hn⟩ : ∃ n, (x :: t).length - e.2.length = n + 1 := ⟨t.length - e.2.length, by
      simp only [List.length_cons]
      omega⟩
    rw [hn]
    rfl
  simp only [matchAt, hends, hes, List.map_cons, List.head?_cons, Option.map_some,
    Option.filter_some, htake, Bool.not_false, if_true, Option.isSome_some]

/-! ### Runs of a class -/

section

variable {c : α → Bool} {p : Pattern γ α} (hp : p.Within c)
include hp

/-- No match starts outside the class. -/
lemma matchAt_eq_none {x : α} (hx : c x = false) (prev : Option α) (s : List α) :
    p.matchAt (prev, x :: s) = none := by
  cases h : p.matchAt (prev, x :: s) with
  | none => rfl
  | some m =>
    obtain ⟨rest, ht, hne, hall, -⟩ := exists_of_matchAt hp h
    obtain ⟨a, u, hu⟩ := List.exists_cons_of_ne_nil hne
    rw [hu, List.cons_append, List.cons.injEq] at ht
    have := hall a (by simp [hu])
    rw [← ht.1, hx] at this
    contradiction

lemma scan_append_cons {r : List α} {x : α} (hx : c x = false) (s : List α) {k : Nat}
    (hk : k ≤ r.length) (prev : Option α) :
    p.scan [] k prev (r ++ x :: s) = p.scan [x] k prev r ++ .plain x :: p.scan [] 0 (some x) s := by
  induction r generalizing k prev with
  | nil =>
    obtain rfl := Nat.le_zero.1 hk
    simp only [List.nil_append, scan, List.append_nil, matchAt_eq_none hp hx]
  | cons a r ih =>
    cases k with
    | succ k =>
      simp only [List.cons_append, scan]
      exact ih (Nat.le_of_succ_le_succ hk) (some a)
    | zero =>
      have hmatch : p.matchAt (prev, a :: (r ++ x :: s) ++ []) =
          p.matchAt (prev, a :: r ++ [x]) := by
        rw [List.append_nil]
        exact matchAt_append hp prev (a :: r) hx s
      simp only [List.cons_append, scan]
      simp only [List.cons_append] at hmatch
      rw [hmatch]
      cases h : p.matchAt (prev, a :: (r ++ [x])) with
      | none => exact congrArg (Piece.plain a :: ·) (ih (Nat.zero_le _) (some a))
      | some m =>
        have hlen : m.text.length - 1 ≤ r.length := by
          obtain ⟨rest, ht, -, hall, -⟩ := exists_of_matchAt hp h
          have := length_le_of_append_eq (u := a :: r) hx hall ht
          simp only [List.length_cons] at this
          omega
        exact congrArg (Piece.found m :: ·) (ih hlen (some a))

/-- A match in a run that the class ends after stays in the run. -/
lemma exists_rest {r after : List α} (hafter : ∀ x ∈ after.head?, c x = false) {prev : Option α}
    {m : Found γ α} (h : p.matchAt (prev, r ++ after) = some m) :
    ∃ rest, r = m.text ++ rest ∧ m.text ≠ [] ∧ m.before = prev ∧ m.after = (rest ++ after).head? ∧
      (m.groups, m.text.getLast?.or prev, rest ++ after) ∈ p.ends (prev, r ++ after) := by
  obtain ⟨rest, ht, hne, hall, hbefore, hafter', hmem⟩ := exists_of_matchAt hp h
  have hlen : m.text.length ≤ r.length := by
    cases after with
    | nil =>
      have := congrArg List.length ht
      simp only [List.length_append, List.length_nil] at this
      omega
    | cons x s => exact length_le_of_append_eq (hafter x rfl) hall ht
  obtain ⟨v, rfl⟩ : m.text <+: r := by
    apply List.prefix_of_prefix_length_le _ _ hlen
    · exact r ++ after
    · exact ⟨rest, ht.symm⟩
    · exact List.prefix_append r after
  obtain rfl : rest = v ++ after := by
    rw [List.append_assoc] at ht
    exact (List.append_cancel_left ht).symm
  exact ⟨v, rfl, hne, hbefore, hafter', hmem⟩

end

lemma getLast?_cons_or (x : α) (u : List α) (prev : Option α) :
    (x :: u).getLast?.or prev = u.getLast?.or (some x) := by
  rw [List.getLast?_cons]
  cases u.getLast? <;> rfl

lemma scan_skip (p : Pattern γ α) (after u t : List α) (prev : Option α) :
    p.scan after u.length prev (u ++ t) = p.scan after 0 (u.getLast?.or prev) t := by
  induction u generalizing prev with
  | nil => rfl
  | cons c u ih =>
    rw [List.length_cons, List.cons_append, scan, ih, getLast?_cons_or]

/-- A match is one piece, and the scan goes on behind it. -/
lemma scan_found {p : Pattern γ α} {after t : List α} {prev : Option α} {m : Found γ α}
    (hne : m.text ≠ []) (h : p.matchAt (prev, m.text ++ t ++ after) = some m) :
    p.scan after 0 prev (m.text ++ t) = .found m :: p.scan after 0 (m.text.getLast?.or prev) t := by
  obtain ⟨c, u, hu⟩ := List.exists_cons_of_ne_nil hne
  have hskip := scan_skip p after u t (some c)
  rw [hu] at h
  rw [hu, List.cons_append, scan, ← List.cons_append, h, getLast?_cons_or]
  simp only [hu, List.length_cons, Nat.add_sub_cancel, hskip]

lemma scan_plain {p : Pattern γ α} {after t : List α} {prev : Option α} {x : α}
    (h : p.matchAt (prev, x :: t ++ after) = none) :
    p.scan after 0 prev (x :: t) = .plain x :: p.scan after 0 (some x) t := by
  rw [scan, h]

/-- What holds of the empty text, and goes over a character and over a match, holds of every
run that the class ends after. -/
theorem scan_induction {c : α → Bool} {p : Pattern γ α} (hp : p.Within c) {after : List α}
    (hafter : ∀ x ∈ after.head?, c x = false) {motive : Option α → List α → Prop}
    (nil : ∀ prev, motive prev [])
    (plain : ∀ prev x t, p.matchAt (prev, x :: t ++ after) = none → motive (some x) t →
      motive prev (x :: t))
    (found : ∀ prev m t, p.matchAt (prev, m.text ++ t ++ after) = some m → m.text ≠ [] →
      motive (m.text.getLast?.or prev) t → motive prev (m.text ++ t))
    (prev : Option α) (t : List α) : motive prev t := by
  induction hn : t.length using Nat.strongRecOn generalizing prev t with
  | _ n ih =>
    cases t with
    | nil => exact nil prev
    | cons x t =>
      cases h : p.matchAt (prev, x :: t ++ after) with
      | none =>
        refine plain prev x t h (ih t.length ?_ _ t rfl)
        rw [← hn]
        exact Nat.lt_succ_self _
      | some m =>
        obtain ⟨rest, hrest, hne, -⟩ := exists_rest hp hafter h
        rw [hrest] at h ⊢
        refine found prev m rest h hne (ih rest.length ?_ _ rest rfl)
        have := List.length_pos_of_ne_nil hne
        rw [← hn, hrest, List.length_append]
        omega

section

variable {p : Pattern γ α} {f : Found γ α → List α} {after t : List α} {prev : Option α}

@[simp] lemma subIn_nil : p.subIn f after prev [] = [] := rfl

@[simp] lemma finds_nil : p.finds after prev [] = [] := rfl

lemma subIn_found {m : Found γ α} (hne : m.text ≠ [])
    (h : p.matchAt (prev, m.text ++ t ++ after) = some m) :
    p.subIn f after prev (m.text ++ t) = f m ++ p.subIn f after (m.text.getLast?.or prev) t := by
  rw [subIn, scan_found hne h, List.flatMap_cons]
  rfl

lemma finds_found {m : Found γ α} (hne : m.text ≠ [])
    (h : p.matchAt (prev, m.text ++ t ++ after) = some m) :
    p.finds after prev (m.text ++ t) = m :: p.finds after (m.text.getLast?.or prev) t := by
  rw [finds, scan_found hne h]
  rfl

lemma subIn_plain {x : α} (h : p.matchAt (prev, x :: t ++ after) = none) :
    p.subIn f after prev (x :: t) = x :: p.subIn f after (some x) t := by
  rw [subIn, scan_plain h, List.flatMap_cons]
  rfl

lemma finds_plain {x : α} (h : p.matchAt (prev, x :: t ++ after) = none) :
    p.finds after prev (x :: t) = p.finds after (some x) t := by
  rw [finds, scan_plain h]
  rfl

/-- A match of a run lies somewhere in it. -/
lemma exists_of_mem_finds {c : α → Bool} (hp : p.Within c)
    (hafter : ∀ x ∈ after.head?, c x = false) {m : Found γ α} (h : m ∈ p.finds after prev t) :
    ∃ u v, t = u ++ (m.text ++ v) ∧ m.before = u.getLast?.or prev ∧ m.after = (v ++ after).head? ∧
      p.matchAt (m.before, m.text ++ v ++ after) = some m := by
  induction prev, t using scan_induction hp hafter with
  | nil prev => exact absurd h List.not_mem_nil
  | plain prev x t hnone ih =>
    rw [finds_plain hnone] at h
    obtain ⟨u, v, rfl, hbefore, hrest⟩ := ih h
    exact ⟨x :: u, v, rfl, by rw [hbefore, getLast?_cons_or], hrest⟩
  | found prev n t hn hne ih =>
    rw [finds_found hne hn] at h
    rcases List.mem_cons.1 h with rfl | h
    · obtain ⟨rest, hrest, -, hbefore, hafter', -⟩ := exists_rest hp hafter hn
      obtain rfl := List.append_cancel_left hrest
      exact ⟨[], t, rfl, hbefore, hafter', by rw [hbefore]; exact hn⟩
    · obtain ⟨u, v, rfl, hbefore, hrest⟩ := ih h
      refine ⟨n.text ++ u, v, by simp, ?_, hrest⟩
      rw [hbefore, List.getLast?_append, Option.or_assoc]

/-- Where nothing is found nothing is replaced. -/
lemma subIn_of_finds_nil {c : α → Bool} (hp : p.Within c)
    (hafter : ∀ x ∈ after.head?, c x = false) (h : p.finds after prev t = []) :
    p.subIn f after prev t = t := by
  induction prev, t using scan_induction hp hafter with
  | nil prev => rfl
  | plain prev x t hnone ih =>
    rw [finds_plain hnone] at h
    rw [subIn_plain hnone, ih h]
  | found prev n t hn hne ih =>
    rw [finds_found hne hn] at h
    contradiction

lemma subIn_append_cons {c : α → Bool} (hp : p.Within c) (r : List α) {x : α} (hx : c x = false)
    (s : List α) :
    p.subIn f [] prev (r ++ x :: s) = p.subIn f [x] prev r ++ x :: p.subIn f [] (some x) s := by
  rw [subIn, scan_append_cons hp hx s (Nat.zero_le _), List.flatMap_append]
  rfl

lemma finds_append_cons {c : α → Bool} (hp : p.Within c) (r : List α) {x : α} (hx : c x = false)
    (s : List α) :
    p.finds [] prev (r ++ x :: s) = p.finds [x] prev r ++ p.finds [] (some x) s := by
  rw [finds, scan_append_cons hp hx s (Nat.zero_le _), List.filterMap_append]
  rfl

end

end Pattern

/-! ### Texts run by run -/

section

variable {α : Type} {c : α → Bool} {R : List α → List α → Prop}

/-- The second text is the first with each maximal run of a class replaced as `R` allows. -/
inductive EachRun (c : α → Bool) (R : List α → List α → Prop) : List α → List α → Prop
  | last {r r' : List α} (hr : ∀ a ∈ r, c a) (h : R r r') : EachRun c R r r'
  | next {r r' s s' : List α} {x : α} (hr : ∀ a ∈ r, c a) (hx : c x = false) (h : R r r')
      (hs : EachRun c R s s') : EachRun c R (r ++ x :: s) (r' ++ x :: s')

/-- A text is a run of the class, or a run, a character outside, and a text. -/
theorem run_induction (c : α → Bool) {motive : List α → Prop}
    (last : ∀ r, (∀ a ∈ r, c a) → motive r)
    (next : ∀ r x s, (∀ a ∈ r, c a) → c x = false → motive s → motive (r ++ x :: s))
    (t : List α) : motive t := by
  suffices ∀ r, (∀ a ∈ r, c a) → motive (r ++ t) by simpa using this [] (by simp)
  induction t with
  | nil =>
    intro r hr
    rw [List.append_nil]
    exact last r hr
  | cons x s ih =>
    intro r hr
    cases hx : c x
    · exact next r x s hr hx (by simpa using ih [] (by simp))
    · rw [← List.singleton_append, ← List.append_assoc]
      apply ih
      intro a ha
      rcases List.mem_append.1 ha with ha | ha
      · exact hr a ha
      · rwa [List.mem_singleton.1 ha]

/-- The first run of a text ends at one place. -/
lemma append_cons_inj {r r' s s' : List α} {x x' : α} (hr : ∀ a ∈ r, c a) (hr' : ∀ a ∈ r', c a)
    (hx : c x = false) (hx' : c x' = false) (h : r ++ x :: s = r' ++ x' :: s') :
    r = r' ∧ x = x' ∧ s = s' := by
  have hlen := Pattern.length_le_of_append_eq hx hr' h
  have hlen' := Pattern.length_le_of_append_eq hx' hr h.symm
  obtain ⟨rfl, hrest⟩ := List.append_inj h (Nat.le_antisymm hlen' hlen)
  exact ⟨rfl, List.cons.inj hrest⟩

lemma append_cons_ne {r r' s : List α} {x : α} (hr' : ∀ a ∈ r', c a) (hx : c x = false) :
    r ++ x :: s ≠ r' := by
  intro h
  have := hr' x (by simp [← h])
  rw [hx] at this
  contradiction

lemma eachRun_last {r o : List α} (hr : ∀ a ∈ r, c a) : EachRun c R r o ↔ R r o := by
  constructor
  · intro h
    cases h with
    | last _ h => exact h
    | next _ hx _ _ => exact absurd rfl (append_cons_ne hr hx)
  · exact EachRun.last hr

lemma eachRun_next {r s o : List α} {x : α} (hr : ∀ a ∈ r, c a) (hx : c x = false) :
    EachRun c R (r ++ x :: s) o ↔ ∃ r' s', o = r' ++ x :: s' ∧ R r r' ∧ EachRun c R s s' := by
  constructor
  · intro h
    generalize ht : r ++ x :: s = t at h
    cases h with
    | last hr' h => exact absurd ht (append_cons_ne hr' hx)
    | next hr' hx' h hs =>
      obtain ⟨rfl, rfl, rfl⟩ := append_cons_inj hr hr' hx hx' ht
      exact ⟨_, _, rfl, h, hs⟩
  · rintro ⟨r', s', rfl, h, hs⟩
    exact EachRun.next hr hx h hs

end
