import RentCompass.Store.Lineage

/-!
# Which memories a branch sees

`getBranchLineage` lists the entries a climb up the branches passes (`mem_lineageWalk`). A turn
that is copied at every branch point on the way down is visible at the bottom, up to the depth
limit; what is visible was copied at least at the first branch point below its conversation.
-/

namespace RentCompass.Store

open Rows

/-- `AgentMemory._visible_in_lineage` for the episodic memory of a turn and the lineage of a
conversation. -/
def World.sees (w : World) (cid : Id) (t : Turn) : Bool :=
  visibleInLineage { mtype := .episodic, conversationId := some t.conversationId,
                     turnStartedAt := some t.startedAt } (getBranchLineage w.db t.userId cid)

/-- `b` is the copy of `a` made at the last of `n` branch points, one below the other. -/
inductive CopyOf (copies : List (Id × Id)) : Nat → Id → Id → Prop
  | self (a : Id) : CopyOf copies 0 a a
  | copy {n : Nat} {a b c : Id} (h : CopyOf copies n a b) (hcopy : (b, c) ∈ copies) :
      CopyOf copies (n + 1) a c

/-- One step up: the branch `e` stands in was left at the turn `t` of the next entry. -/
def World.Climbs₁ (w : World) (u : UserId) (t : Turn) (e e' : LineageEntry) : Prop :=
  t ∈ w.db.turns ∧ t.userId = u ∧ e' = { conversationId := t.conversationId,
                                         before := some t.startedAt } ∧
    ∃ o ∈ w.db.origins, o.userId = u ∧ o.id = e.conversationId ∧
      o.parent = some t.conversationId ∧ o.forkedFrom = some t.id

/-- `n` steps up the branches. -/
inductive World.Climbs (w : World) (u : UserId) : Nat → LineageEntry → LineageEntry → Prop
  | refl (e : LineageEntry) : w.Climbs u 0 e e
  | up {n : Nat} {t : Turn} {e e₁ e' : LineageEntry} (hstep : w.Climbs₁ u t e e₁)
      (h : w.Climbs u n e₁ e') : w.Climbs u (n + 1) e e'

lemma World.Climbs.zero {w : World} {u : UserId} {e e' : LineageEntry}
    (hclimb : w.Climbs u 0 e e') : e' = e := by
  cases hclimb
  rfl

/-- Where a climb arrives there is a bound. -/
lemma World.Climbs.bounded {w : World} {u : UserId} {n : Nat} {e e' : LineageEntry}
    (hclimb : w.Climbs u (n + 1) e e') : ∃ b, e'.before = some b := by
  induction n generalizing e with
  | zero =>
    cases hclimb with
    | @up _ t _ _ _ hstep hrest =>
      obtain ⟨-, -, rfl, -⟩ := hstep
      rw [hrest.zero]
      exact ⟨t.startedAt, rfl⟩
  | succ n ih =>
    cases hclimb with
    | up _ hrest => exact ih hrest

section Climb

variable {w : World} {u : UserId} (h : Lineage w)
include h

/-- The row of a conversation is the one its origin was read from. -/
lemma Lineage.conversationOf {o : Origin} (ho : o ∈ w.db.origins) :
    ∃ row, w.db.conversationOf o.userId o.id = some row ∧ row.origin = o := by
  obtain ⟨row, hrow, rfl⟩ := List.mem_map.1 ho
  refine ⟨row, selectOne_eq_some hrow ⟨rfl, rfl⟩ fun row' hrow' hkey => ?_, rfl⟩
  have hkeyed : Keyed (fun c : Conversation => c.id) w.db.conversations := by
    have hmap := h.originIds
    rw [Keyed, Db.origins, List.map_map] at hmap
    exact hmap
  exact hkeyed.eq hrow' hrow hkey.2

lemma World.Climbs₁.lt {t : Turn} {e e' : LineageEntry} (hstep : w.Climbs₁ u t e e') :
    e'.conversationId < e.conversationId := by
  obtain ⟨-, -, rfl, o, ho, -, hid, hparent, -⟩ := hstep
  exact hid ▸ h.parents o ho _ hparent

/-- There is one way up. -/
lemma World.Climbs₁.unique (hf : Flight w.nextId w.db) {t t' : Turn} {e e₁ e₂ : LineageEntry}
    (hstep : w.Climbs₁ u t e e₁) (hstep' : w.Climbs₁ u t' e e₂) : t = t' ∧ e₁ = e₂ := by
  obtain ⟨ht, -, rfl, o, ho, -, hid, -, hfork⟩ := hstep
  obtain ⟨ht', -, rfl, o', ho', -, hid', -, hfork'⟩ := hstep'
  obtain rfl := h.originIds.eq ho ho' (hid.trans hid'.symm)
  obtain rfl := hf.turnIds.eq ht ht' (Option.some.inj (hfork.symm.trans hfork'))
  exact ⟨rfl, rfl⟩

/-- What is above a conversation is a conversation of the user. -/
lemma World.Climbs₁.housed {t : Turn} {e e' : LineageEntry} (hstep : w.Climbs₁ u t e e') :
    ∃ o ∈ w.db.origins, o.id = e'.conversationId ∧ o.userId = u := by
  obtain ⟨ht, hu, rfl, -⟩ := hstep
  obtain ⟨o, ho, hid, hou⟩ := h.housed t ht
  exact ⟨o, ho, hid, hou.trans hu⟩

lemma World.Climbs.housed {n : Nat} {e e' : LineageEntry} (hclimb : w.Climbs u n e e')
    (he : ∃ o ∈ w.db.origins, o.id = e.conversationId ∧ o.userId = u) :
    ∃ o ∈ w.db.origins, o.id = e'.conversationId ∧ o.userId = u := by
  induction hclimb with
  | refl => exact he
  | up hstep _ ih => exact ih (hstep.housed h)

lemma World.Climbs.le {n : Nat} {e e' : LineageEntry} (hclimb : w.Climbs u n e e') :
    e'.conversationId + n ≤ e.conversationId := by
  induction hclimb with
  | refl e => exact le_rfl
  | up hstep _ ih =>
    have hlt := hstep.lt h
    exact (Nat.add_le_add_right ih 1).trans hlt

/-- A conversation is reached in one way. -/
lemma World.Climbs.unique (hf : Flight w.nextId w.db) {n m : Nat} {e e₁ e₂ : LineageEntry}
    (hclimb : w.Climbs u n e e₁) (hclimb' : w.Climbs u m e e₂)
    (hconv : e₁.conversationId = e₂.conversationId) : n = m ∧ e₁ = e₂ := by
  induction hclimb generalizing m with
  | refl e =>
    cases hclimb' with
    | refl => exact ⟨rfl, rfl⟩
    | up hstep hrest =>
      have hle := hrest.le h
      have hlt := hstep.lt h
      rw [← hconv] at hle
      exact absurd (lt_of_le_of_lt ((Nat.le_add_right _ _).trans hle) hlt) (lt_irrefl _)
  | @up n t e e' e₁ hstep hrest ih =>
    cases hclimb' with
    | refl =>
      have hle := hrest.le h
      have hlt := hstep.lt h
      rw [hconv] at hle
      exact absurd (lt_of_le_of_lt ((Nat.le_add_right _ _).trans hle) hlt) (lt_irrefl _)
    | up hstep' hrest' =>
      obtain ⟨-, rfl⟩ := hstep.unique h hf hstep'
      obtain ⟨rfl, heq⟩ := ih hrest' hconv
      exact ⟨rfl, heq⟩

/-- The walk from an existing conversation: the conversation, and the walk from the one it was left
from, if there is one. -/
lemma lineageWalk_cases (hf : Flight w.nextId w.db) (fuel : Nat) {e : LineageEntry} {seen : List Id}
    (hseen : ∀ c ∈ seen, e.conversationId < c)
    (hexists : ∃ o ∈ w.db.origins, o.id = e.conversationId ∧ o.userId = u) :
    (∃ t e₁, w.Climbs₁ u t e e₁ ∧ (∃ o ∈ w.db.origins, o.id = e₁.conversationId ∧ o.userId = u) ∧
        (∀ c ∈ e.conversationId :: seen, e₁.conversationId < c) ∧
        lineageWalk w.db u (fuel + 1) e.conversationId e.before seen =
          e :: lineageWalk w.db u fuel e₁.conversationId e₁.before (e.conversationId :: seen)) ∨
      (∀ t e₁, ¬ w.Climbs₁ u t e e₁) ∧
        lineageWalk w.db u (fuel + 1) e.conversationId e.before seen = [e] := by
  obtain ⟨o, ho, hid, hu⟩ := hexists
  obtain ⟨row, hrow, horigin⟩ := h.conversationOf ho
  rw [hid, hu] at hrow
  have hnew : e.conversationId ∉ seen := fun hmem => lt_irrefl _ (hseen _ hmem)
  have hparent : row.parentConversationId = o.parent := by rw [← horigin]; rfl
  have hforked : row.forkedFromTurnId = o.forkedFrom := by rw [← horigin]; rfl
  rw [lineageWalk, if_neg hnew, hrow]
  simp only [hparent, hforked]
  split
  · next p f hp hfork =>
    obtain ⟨t, ht, rfl, hut, -⟩ := h.forks o ho p f hp hfork
    have hturn : w.db.turnOf u t.id = some t := by
      refine selectOne_eq_some ht ⟨hut.userId.trans hu, rfl⟩ fun t' ht' hkey => ?_
      exact hf.turnIds.eq ht' ht hkey.2
    have hstep : w.Climbs₁ u t e ⟨p, some t.startedAt⟩ :=
      ⟨ht, hut.userId.trans hu, by rw [hut.conversationId], o, ho, hu, hid,
        by rw [hp, hut.conversationId], hfork⟩
    have hhouse : ∃ o ∈ w.db.origins, o.id = p ∧ o.userId = u := by
      obtain ⟨o', ho', hid', hu'⟩ := h.housed t ht
      exact ⟨o', ho', hid'.trans hut.conversationId, hu'.trans (hut.userId.trans hu)⟩
    have hbelow : ∀ c ∈ e.conversationId :: seen, p < c := by
      have hlt := hstep.lt h
      intro c hc
      rcases List.mem_cons.1 hc with rfl | hc
      · exact hlt
      · exact hlt.trans (hseen c hc)
    rw [hturn]
    exact .inl ⟨t, ⟨p, some t.startedAt⟩, hstep, hhouse, hbelow, rfl⟩
  · next hno =>
    refine .inr ⟨fun t e₁ hstep => ?_, rfl⟩
    obtain ⟨-, -, -, o', ho', -, hid', hp, hfork⟩ := hstep
    obtain rfl := h.originIds.eq ho ho' (hid.trans hid'.symm)
    exact absurd hfork (hno _ _ hp)

/-- The walk lists what a climb of fewer steps than its fuel passes. -/
theorem mem_lineageWalk (hf : Flight w.nextId w.db) {fuel : Nat} {e e' : LineageEntry}
    {seen : List Id} (hseen : ∀ c ∈ seen, e.conversationId < c)
    (hexists : ∃ o ∈ w.db.origins, o.id = e.conversationId ∧ o.userId = u) :
    e' ∈ lineageWalk w.db u fuel e.conversationId e.before seen ↔
      ∃ n < fuel, w.Climbs u n e e' := by
  induction fuel generalizing e seen with
  | zero => simp [lineageWalk]
  | succ fuel ih =>
    rcases lineageWalk_cases h hf fuel hseen hexists with
      ⟨t, e₁, hstep, hhouse, hbelow, hwalk⟩ | ⟨hno, hwalk⟩
    · rw [hwalk, List.mem_cons]
      constructor
      · rintro (rfl | hmem)
        · exact ⟨0, Nat.succ_pos _, .refl _⟩
        · obtain ⟨n, hn, hclimb⟩ := (ih hbelow hhouse).1 hmem
          exact ⟨n + 1, Nat.succ_lt_succ hn, .up hstep hclimb⟩
      · rintro ⟨n, hn, hclimb⟩
        cases hclimb with
        | refl => exact .inl rfl
        | up hstep' hrest =>
          obtain ⟨-, rfl⟩ := hstep.unique h hf hstep'
          exact .inr ((ih hbelow hhouse).2 ⟨_, Nat.lt_of_succ_lt_succ hn, hrest⟩)
    · rw [hwalk, List.mem_singleton]
      constructor
      · rintro rfl
        exact ⟨0, Nat.succ_pos _, .refl _⟩
      · rintro ⟨n, -, hclimb⟩
        cases hclimb with
        | refl => rfl
        | up hstep _ => exact absurd hstep (hno _ _)

/-- Behind the conversation itself the lineage lists what is above it, up to the depth limit. -/
lemma mem_tail_getBranchLineage (hf : Flight w.nextId w.db) {cid : Id}
    (hexists : ∃ o ∈ w.db.origins, o.id = cid ∧ o.userId = u) {e' : LineageEntry} :
    e' ∈ (getBranchLineage w.db u cid).tail ↔
      ∃ n, n + 1 < lineageDepth ∧ w.Climbs u (n + 1) ⟨cid, none⟩ e' := by
  have hseen : ∀ c ∈ ([] : List Id), cid < c := fun c hc => absurd hc List.not_mem_nil
  rcases lineageWalk_cases (e := ⟨cid, none⟩) h hf 49 hseen hexists with
    ⟨t, e₁, hstep, hhouse, hbelow, hwalk⟩ | ⟨hno, hwalk⟩
  · rw [getBranchLineage, lineageDepth, hwalk, List.tail_cons, mem_lineageWalk h hf hbelow hhouse]
    constructor
    · rintro ⟨n, hn, hclimb⟩
      exact ⟨n, Nat.succ_lt_succ hn, .up hstep hclimb⟩
    · rintro ⟨n, hn, hclimb⟩
      cases hclimb with
      | up hstep' hrest =>
        obtain ⟨-, rfl⟩ := hstep.unique h hf hstep'
        exact ⟨n, Nat.lt_of_succ_lt_succ hn, hrest⟩
  · rw [getBranchLineage, lineageDepth, hwalk]
    refine ⟨fun hmem => absurd hmem List.not_mem_nil, ?_⟩
    rintro ⟨n, -, hclimb⟩
    cases hclimb with
    | up hstep _ => exact absurd hstep (hno _ _)

/-- A turn is visible where a climb within the depth limit arrives at its conversation, at a turn
no earlier than it. -/
lemma Lineage.sees_iff (hf : Flight w.nextId w.db) {t : Turn} {o : Origin} (ho : o ∈ w.db.origins)
    (hu : o.userId = t.userId) :
    w.sees o.id t = true ↔ ∃ n < lineageDepth, ∃ before : Option Instant,
      w.Climbs t.userId n ⟨o.id, none⟩ ⟨t.conversationId, before⟩ ∧
        ∀ b, before = some b → t.startedAt ≤ b := by
  have hwalk : ∀ e', e' ∈ getBranchLineage w.db t.userId o.id ↔
      ∃ n < lineageDepth, w.Climbs t.userId n ⟨o.id, none⟩ e' := fun e' =>
    mem_lineageWalk h hf (e := ⟨o.id, none⟩) (fun c hc => absurd hc List.not_mem_nil)
      ⟨o, ho, rfl, hu⟩
  rw [World.sees, visibleInLineage, if_neg (by simp)]
  simp only [List.any_eq_true, Bool.and_eq_true, decide_eq_true_eq]
  constructor
  · rintro ⟨⟨cid, before⟩, hmem, rfl, hle⟩
    obtain ⟨n, hn, hclimb⟩ := (hwalk _).1 hmem
    refine ⟨n, hn, before, hclimb, ?_⟩
    rintro b rfl
    simpa using hle
  · rintro ⟨n, hn, before, hclimb, hle⟩
    refine ⟨⟨t.conversationId, before⟩, (hwalk _).2 ⟨n, hn, hclimb⟩, rfl, ?_⟩
    cases before with
    | none => rfl
    | some b => exact decide_eq_true (hle b rfl)

/-- What was copied down is found on the way up. -/
lemma CopyOf.climbs (hf : Flight w.nextId w.db) {n : Nat} {t t' : Turn} (ht : t ∈ w.db.turns)
    (ht' : t' ∈ w.db.turns) (hcopy : CopyOf w.history.copies n t.id t'.id) {e : LineageEntry}
    (he : e.conversationId = t'.conversationId) :
    t'.userId = t.userId ∧ (n = 0 → t' = t) ∧ (0 < n → ∃ b,
      w.Climbs t.userId n e ⟨t.conversationId, some b⟩ ∧ t.startedAt ≤ b) := by
  generalize ha : t.id = a at hcopy
  generalize hb : t'.id = b at hcopy
  induction hcopy generalizing t' e with
  | self a =>
    obtain rfl := hf.turnIds.eq ht ht' (ha.trans hb.symm)
    exact ⟨rfl, fun _ => rfl, fun hpos => absurd hpos (lt_irrefl _)⟩
  | @copy n a b c hrest hpair ih =>
    obtain ⟨s, hs, s', hs', hid, hid', hu, -, -, o, ho, hoid, hou, hparent, f, hfm, hfork, hle⟩ :=
      h.copies b c hpair
    obtain rfl := hf.turnIds.eq hs' ht' (hid'.trans hb.symm)
    -- the turn the branch was left at is one of the conversation of `s`
    obtain ⟨f', hf', hfid, hut, -⟩ := h.forks o ho _ _ hparent hfork
    obtain rfl := hf.turnIds.eq hf' hfm hfid
    obtain ⟨hsu, hzero, hpos⟩ := ih (e := ⟨f'.conversationId, some f'.startedAt⟩) hs
      hut.conversationId ha hid
    have hstep : w.Climbs₁ t.userId f' e ⟨f'.conversationId, some f'.startedAt⟩ :=
      ⟨hfm, hut.userId.trans (hou.trans hsu), rfl, o, ho, hou.trans hsu, hoid.trans he.symm,
        by rw [hparent, hut.conversationId], hfork⟩
    refine ⟨hu.trans hsu, fun h0 => absurd h0 (Nat.succ_ne_zero n), fun _ => ?_⟩
    cases n with
    | zero =>
      obtain rfl := hzero rfl
      refine ⟨f'.startedAt, .up hstep ?_, hle⟩
      rw [hut.conversationId]
      exact .refl _
    | succ n =>
      obtain ⟨b, hclimb, hb⟩ := hpos (Nat.succ_pos n)
      exact ⟨b, .up hstep hclimb, hb⟩

/-- At the first branch point below its conversation, a visible turn was copied. -/
lemma World.Climbs.inherited (hf : Flight w.nextId w.db) {n : Nat} {t : Turn} (ht : t ∈ w.db.turns)
    (hdone : t.status = .completed) {e : LineageEntry} {b : Instant}
    (hclimb : w.Climbs t.userId (n + 1) e ⟨t.conversationId, some b⟩) (hle : t.startedAt ≤ b) :
    ∃ e₁ o t', w.Climbs t.userId n e e₁ ∧ o ∈ w.db.origins ∧ o.userId = t.userId ∧
      o.id = e₁.conversationId ∧ o.parent = some t.conversationId ∧ t' ∈ w.db.turns ∧
      t'.conversationId = o.id ∧ (t.id, t'.id) ∈ w.history.copies := by
  induction n generalizing e with
  | zero =>
    cases hclimb with
    | @up _ f _ _ _ hstep hrest =>
      obtain ⟨hfm, hfu, heq, o, ho, hou, hid, hparent, hfork⟩ := hstep
      rw [← hrest.zero] at heq
      simp only [LineageEntry.mk.injEq, Option.some.injEq] at heq
      obtain ⟨hconv, rfl⟩ := heq
      obtain ⟨f', hf', hfid, -, hall⟩ := h.forks o ho _ _ hparent hfork
      obtain rfl := hf.turnIds.eq hf' hfm hfid
      obtain ⟨t', ht', hc', hcopy⟩ := hall t ht ⟨hou.symm, hconv, hdone, hle⟩
      exact ⟨e, o, t', .refl e, ho, hou, hid, hconv ▸ hparent, ht', hc', hcopy⟩
  | succ n ih =>
    cases hclimb with
    | up hstep hrest =>
      obtain ⟨e₁, o, t', hclimb, hrest⟩ := ih hrest
      exact ⟨e₁, o, t', .up hstep hclimb, hrest⟩

/-- Where no branch point on the way lies at an inherited turn, a visible turn was copied all the
way down. -/
lemma World.Climbs.copyOf (hf : Flight w.nextId w.db) {n : Nat} {t : Turn} (ht : t ∈ w.db.turns)
    (hdone : t.status = .completed) {e : LineageEntry} {b : Instant}
    (hclimb : w.Climbs t.userId (n + 1) e ⟨t.conversationId, some b⟩) (hle : t.startedAt ≤ b)
    (hown : ∀ m f e₁ e₂, w.Climbs t.userId m e e₁ → w.Climbs₁ t.userId f e₁ e₂ →
      f.conversationId ≠ t.conversationId → w.Original f) :
    ∃ t' ∈ w.db.turns, t'.conversationId = e.conversationId ∧ t'.userId = t.userId ∧
      t'.status = .completed ∧ CopyOf w.history.copies (n + 1) t.id t'.id := by
  -- a copy is a completed turn of the same user
  have hcopied : ∀ a, ∀ t' ∈ w.db.turns, (a, t'.id) ∈ w.history.copies →
      ∀ s ∈ w.db.turns, s.id = a → t'.userId = s.userId ∧ t'.status = .completed := by
    intro a t' ht' hpair s hs hid
    obtain ⟨s₁, hs₁, s', hs', hid₁, hid', hu, -, hdone', -⟩ := h.copies a _ hpair
    obtain rfl := hf.turnIds.eq hs' ht' hid'
    obtain rfl := hf.turnIds.eq hs₁ hs (hid₁.trans hid.symm)
    exact ⟨hu, hdone'⟩
  induction n generalizing e with
  | zero =>
    obtain ⟨e₁, o, t', hrefl, -, -, hid, -, ht', hc', hpair⟩ := hclimb.inherited h hf ht hdone hle
    cases hrefl
    obtain ⟨hu', hdone'⟩ := hcopied _ t' ht' hpair t ht rfl
    exact ⟨t', ht', hc'.trans hid, hu', hdone', .copy (.self _) hpair⟩
  | succ n ih =>
    cases hclimb with
    | @up _ f _ e₁ _ hstep hrest =>
      obtain ⟨s, hs, hconv, hsu, hsdone, hcopy⟩ := ih hrest fun m f' e₂ e₃ hclimb hstep' =>
        hown (m + 1) f' e₂ e₃ (.up hstep hclimb) hstep'
      have hlt : t.conversationId < e₁.conversationId := by
        have := hrest.le h
        exact lt_of_lt_of_le (Nat.lt_add_of_pos_right (Nat.succ_pos n)) this
      have hforiginal : w.Original f := by
        refine hown 0 f e e₁ (.refl e) hstep ?_
        obtain ⟨-, -, rfl, -⟩ := hstep
        exact hlt.ne'
      have hscopy : ¬ w.Original s := by
        cases hcopy with
        | copy _ hpair => exact fun horiginal => horiginal _ hpair
      obtain ⟨hfm, hfu, rfl, o, ho, hou, hid, hparent, hfork⟩ := hstep
      obtain ⟨f', hf', hfid, hut, hall⟩ := h.forks o ho _ _ hparent hfork
      obtain rfl := hf.turnIds.eq hf' hfm hfid
      -- the inherited turn started before the turn the branch was left at
      have hbefore : s.startedAt < f'.startedAt :=
        h.inherited s hs f' hfm hscopy hforiginal hconv.symm
      obtain ⟨t', ht', hc', hpair⟩ := hall s hs ⟨hsu.trans hou.symm, hconv, hsdone, hbefore.le⟩
      obtain ⟨hu', hdone'⟩ := hcopied _ t' ht' hpair s hs rfl
      exact ⟨t', ht', hc'.trans hid, hu'.trans hsu, hdone', .copy hcopy hpair⟩

end Climb

/-- For every run that deletes nothing and in which time goes on, and every completed turn: a
conversation that has the turn, or the copy of it made through `n` branch points, sees it exactly
if `n` is below the depth limit. A conversation that sees it has it, or stands below a branch of its
conversation that has a copy; and has a copy itself when no branch point on the way, but for the
first below the conversation of the turn, lies at an inherited turn. -/
theorem episodic_memory_visible {as : List Action}
    (has : Runs.Along World.act (World.Meets .growing) .empty as) {t : Turn}
    (ht : t ∈ (World.after as).db.turns) (hdone : t.status = .completed) {c : Conversation}
    (hc : c ∈ (World.after as).db.conversations) (hu : c.userId = t.userId) :
    (∀ n, ∀ t' ∈ (World.after as).db.turns, t'.conversationId = c.id →
      CopyOf (World.after as).history.copies n t.id t'.id →
      ((World.after as).sees c.id t = true ↔ n < lineageDepth)) ∧
    ((World.after as).sees c.id t = true → t.conversationId ≠ c.id →
      ∃ n e, n + 1 < lineageDepth ∧ (World.after as).Climbs t.userId n ⟨c.id, none⟩ e ∧
        ∃ d ∈ (World.after as).db.conversations, d.userId = t.userId ∧ d.id = e.conversationId ∧
          d.parentConversationId = some t.conversationId ∧
          ∃ t' ∈ (World.after as).db.turns, t'.conversationId = d.id ∧
            (t.id, t'.id) ∈ (World.after as).history.copies) ∧
    ((∀ n f e e', (World.after as).Climbs t.userId n ⟨c.id, none⟩ e →
        (World.after as).Climbs₁ t.userId f e e' → f.conversationId ≠ t.conversationId →
        (World.after as).Original f) →
      ((World.after as).sees c.id t = true ↔ ∃ n < lineageDepth, ∃ t' ∈ (World.after as).db.turns,
        t'.conversationId = c.id ∧ CopyOf (World.after as).history.copies n t.id t'.id)) := by
  have h := lineage_after has
  have hf := (coherent_after as).flight
  have hsees := h.sees_iff hf (List.mem_map_of_mem hc) hu
  have hcopy : ∀ n, ∀ t' ∈ (World.after as).db.turns, t'.conversationId = c.id →
      CopyOf (World.after as).history.copies n t.id t'.id →
      ((World.after as).sees c.id t = true ↔ n < lineageDepth) := by
    intro n t' ht' hconv hcopy
    obtain ⟨-, hzero, hpos⟩ := hcopy.climbs h hf ht ht' (e := ⟨c.id, none⟩) hconv.symm
    have hclimb : ∃ before : Option Instant, (World.after as).Climbs t.userId n ⟨c.id, none⟩
        ⟨t.conversationId, before⟩ ∧ ∀ b, before = some b → t.startedAt ≤ b := by
      rcases Nat.eq_zero_or_pos n with rfl | hn
      · refine ⟨none, ?_, fun b hb => by cases hb⟩
        rw [← hconv, hzero rfl]
        exact .refl _
      · obtain ⟨b, hclimb, hle⟩ := hpos hn
        exact ⟨some b, hclimb, fun b' hb' => Option.some.inj hb' ▸ hle⟩
    obtain ⟨before, hclimb, hle⟩ := hclimb
    refine hsees.trans ⟨?_, fun hn => ⟨n, hn, before, hclimb, hle⟩⟩
    rintro ⟨m, hm, before', hclimb', -⟩
    obtain ⟨rfl, -⟩ := hclimb.unique h hf hclimb' rfl
    exact hm
  -- the climb to a visible turn, when it is not in the conversation itself
  have hclimb : (World.after as).sees c.id t = true → t.conversationId ≠ c.id → ∃ n b,
      n + 1 < lineageDepth ∧ (World.after as).Climbs t.userId (n + 1) ⟨c.id, none⟩
        ⟨t.conversationId, some b⟩ ∧ t.startedAt ≤ b := by
    intro hvisible hne
    obtain ⟨n, hn, before, hclimb, hle⟩ := hsees.1 hvisible
    cases n with
    | zero =>
      have heq := hclimb.zero
      rw [LineageEntry.mk.injEq] at heq
      exact absurd heq.1 hne
    | succ n =>
      obtain ⟨b, hb⟩ := hclimb.bounded
      obtain rfl : before = some b := hb
      exact ⟨n, b, hn, hclimb, hle b rfl⟩
  refine ⟨hcopy, fun hvisible hne => ?_, fun hown => ⟨fun hvisible => ?_, ?_⟩⟩
  · obtain ⟨n, b, hn, hclimb, hle⟩ := hclimb hvisible hne
    obtain ⟨e, o, t', hclimb', ho, hou, hid, hparent, ht', hconv, hpair⟩ :=
      hclimb.inherited h hf ht hdone hle
    obtain ⟨d, hd, rfl⟩ := List.mem_map.1 ho
    exact ⟨n, e, hn, hclimb', d, hd, hou, hid, hparent, t', ht', hconv, hpair⟩
  · rcases eq_or_ne t.conversationId c.id with heq | hne
    · exact ⟨0, by decide, t, ht, heq, .self _⟩
    · obtain ⟨n, b, hn, hclimb, hle⟩ := hclimb hvisible hne
      obtain ⟨t', ht', hconv, -, -, hcopyOf⟩ := hclimb.copyOf h hf ht hdone hle hown
      exact ⟨n + 1, hn, t', ht', hconv, hcopyOf⟩
  · rintro ⟨n, hn, t', ht', hconv, hcopyOf⟩
    exact (hcopy n t' ht' hconv hcopyOf).2 hn

/-- The first turn of a new conversation is visible in it. -/
theorem episodic_memory_visible_sample : ∃ t ∈ (World.after sampleRun).db.turns,
    ∃ c ∈ (World.after sampleRun).db.conversations, t.id = 0 ∧ c.id = 1 ∧
      (World.after sampleRun).sees c.id t = true := by
  obtain ⟨t, ht, hid, hdone, hu, hconv⟩ : ∃ t ∈ (World.after sampleRun).db.turns, t.id = 0 ∧
      t.status = .completed ∧ t.userId = sampleStart.userId ∧ t.conversationId = 1 := by decide
  obtain ⟨c, hc, hcid, hcu⟩ : ∃ c ∈ (World.after sampleRun).db.conversations, c.id = 1 ∧
      c.userId = sampleStart.userId := by decide
  have has : Runs.Along World.act (World.Meets .growing) .empty sampleRun :=
    ⟨fun _ => by simp [World.empty, Db.empty], fun _ => trivial, trivial⟩
  have hsees := (episodic_memory_visible has ht hdone hc (hcu.trans hu.symm)).1 0 t ht
    (hconv.trans hcid.symm) (.self _)
  exact ⟨t, ht, c, hc, hid, hcid, hsees.2 (by decide)⟩

/-! ### Where visibility is not inheritance -/

/-- Forks of conversations, each at its latest turn. -/
def forkDown (cids : List Id) : List Action :=
  cids.flatMap fun cid => [.planFork sampleStart.userId cid none none none, .commitBranch 2 0]

/-- The first turn of a conversation is inherited through fifty forks, one below the other. -/
def deepRun : List Action :=
  sampleRun ++ forkDown (1 :: (List.range 49).map fun i => 2 * i + 2)

/-- A conversation of two turns is forked at the second turn, and the branch at its copy of the
first. -/
def droppedRun : List Action :=
  sampleRun ++ [.startRequestTurn sampleProcess 2 { sampleStart with
      conversationId := some 1, requestId := Text.ofString "r2" },
    .finalizeRequestTurn 3 sampleStart.userId 2 (sampleAnswer 2),
    .planFork sampleStart.userId 1 (some 2) none none, .commitBranch 4 0,
    .planFork sampleStart.userId 4 (some 5) none none, .commitBranch 5 0]

lemma CopyOf.chain {copies : List (Id × Id)} {f : Nat → Id} {n : Nat}
    (h : ∀ i < n, (f i, f (i + 1)) ∈ copies) : CopyOf copies n (f 0) (f n) := by
  induction n with
  | zero => exact .self _
  | succ n ih => exact .copy (ih fun i hi => h i (Nat.lt_succ_of_lt hi)) (h n (Nat.lt_succ_self n))

lemma deepRun_meets : Runs.Along World.act (World.Meets .growing) .empty deepRun := by
  rw [deepRun, Runs.along_append]
  refine ⟨⟨fun _ => by simp [World.empty, Db.empty], fun _ => trivial, trivial⟩, ?_⟩
  have hfork : ∀ cids, ∀ a ∈ forkDown cids, ∀ w, World.Meets .growing w a := by
    intro cids a ha w
    obtain ⟨cid, -, ha⟩ := List.mem_flatMap.1 ha
    rcases List.mem_cons.1 ha with rfl | ha
    · trivial
    · rw [List.mem_singleton.1 ha]
      trivial
  exact (Runs.along_of_forall World.act _ (hfork _)).mono _ fun w a ha => ha w

/-- A turn inherited through fifty branch points is not visible; and a turn that was not inherited
at a deeper branch point is. -/
theorem visibility_is_not_inheritance :
    (∃ as, Runs.Along World.act (World.Meets .growing) .empty as ∧
      ∃ t ∈ (World.after as).db.turns, t.status = .completed ∧ (World.after as).Original t ∧
        ∃ c ∈ (World.after as).db.conversations, c.userId = t.userId ∧
          (World.after as).sees c.id t = false ∧
          ∃ n, ∃ t' ∈ (World.after as).db.turns, t'.conversationId = c.id ∧
            CopyOf (World.after as).history.copies n t.id t'.id) ∧
    ∃ as, Runs.Along World.act (World.Meets .growing) .empty as ∧
      ∃ t ∈ (World.after as).db.turns, t.status = .completed ∧ (World.after as).Original t ∧
        ∃ c ∈ (World.after as).db.conversations, c.userId = t.userId ∧
          (World.after as).sees c.id t = true ∧
          ¬ ∃ n, ∃ t' ∈ (World.after as).db.turns, t'.conversationId = c.id ∧
            CopyOf (World.after as).history.copies n t.id t'.id := by
  constructor
  · obtain ⟨hcopies, ⟨t, ht, hid, hdone, hsees⟩, ⟨t', ht', hid', hconv'⟩, c, hc, hcid, hcu⟩ :
        ((World.after deepRun).history.copies
          = (0, 3) :: (List.range 49).map fun i => (2 * i + 3, 2 * i + 5)) ∧
        (∃ t ∈ (World.after deepRun).db.turns, t.id = 0 ∧ t.status = .completed ∧
          t.userId = sampleStart.userId ∧ (World.after deepRun).sees 100 t = false) ∧
        (∃ t ∈ (World.after deepRun).db.turns, t.id = 101 ∧ t.conversationId = 100) ∧
        ∃ c ∈ (World.after deepRun).db.conversations, c.id = 100 ∧
          c.userId = sampleStart.userId := by decide +kernel
    refine ⟨deepRun, deepRun_meets, t, ht, hdone, fun a => ?_, c, hc, hcu.trans hsees.1.symm,
      hcid ▸ hsees.2, 50, t', ht', hconv'.trans hcid.symm, ?_⟩
    · rw [hcopies, hid]
      simp
    · rw [hcopies, hid, hid']
      refine CopyOf.chain (f := fun i => if i = 0 then 0 else 2 * i + 1) fun i hi => ?_
      cases i with
      | zero => simp
      | succ j =>
        exact List.mem_cons_of_mem _
          (List.mem_map.2 ⟨j, List.mem_range.2 (Nat.lt_of_succ_lt_succ hi), rfl⟩)
  · have hcopies : (World.after droppedRun).history.copies = [(0, 5), (2, 6), (5, 8)] := by
      decide +kernel
    obtain ⟨t, ht, hid, hdone, hsees⟩ : ∃ t ∈ (World.after droppedRun).db.turns, t.id = 2 ∧
        t.status = .completed ∧ t.userId = sampleStart.userId ∧
          (World.after droppedRun).sees 7 t = true := by decide +kernel
    obtain ⟨c, hc, hcid, hcu⟩ : ∃ c ∈ (World.after droppedRun).db.conversations, c.id = 7 ∧
        c.userId = sampleStart.userId := by decide +kernel
    have hcopy : ∀ t' ∈ (World.after droppedRun).db.turns, t'.conversationId = 7 → t'.id = 8 := by
      decide +kernel
    refine ⟨droppedRun, ?_, t, ht, hdone, fun a => ?_, c, hc, hcu.trans hsees.1.symm,
      hcid ▸ hsees.2, ?_⟩
    · refine ⟨fun _ => by simp [World.empty, Db.empty], fun _ => trivial,
        fun _ => by decide +kernel, fun _ => trivial, trivial, trivial, trivial, trivial, trivial⟩
    · rw [hcopies, hid]
      simp
    · rintro ⟨n, t', ht', hconv, hcopyOf⟩
      rw [hcopies, hid, hcopy t' ht' (hconv.trans hcid)] at hcopyOf
      -- up from the copy in the deeper branch: 8 is a copy of 5, and 5 of 0
      rcases hcopyOf with _ | ⟨hcopyOf, h₈⟩
      obtain rfl : _ = 5 := by simpa using h₈
      rcases hcopyOf with _ | ⟨hcopyOf, h₅⟩
      obtain rfl : _ = 0 := by simpa using h₅
      rcases hcopyOf with _ | ⟨-, h₀⟩
      simp at h₀

end RentCompass.Store
