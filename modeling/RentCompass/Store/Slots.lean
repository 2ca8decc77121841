import RentCompass.Store.Lineage
import RentCompass.Store.TurnCalls

/-!
# Slots of edited messages

An edit branch is made for a slot, the message it rewrites, and its first fresh turn is what it
puts there. `_resolve_slot_anchor` takes for fresh what started after the turn the branch was left
at. That turn is a row of the parent: where the parent was cleared or deleted the row is gone, and
an inherited turn is the first of all.
-/

namespace RentCompass.Store

open Rows

/-! ### The message an edit replaces -/

/-- The turn was copied into its conversation when that was branched off. -/
def World.IsCopy (w : World) (t : Turn) : Prop := t.id ∈ w.history.copies.map Prod.snd

instance (w : World) (t : Turn) : Decidable (w.IsCopy t) := inferInstanceAs (Decidable (_ ∈ _))

/-- The turn stands in the conversation. -/
def Turn.In (t : Turn) (c : Conversation) : Prop := t.userId = c.userId ∧ t.conversationId = c.id

instance (t : Turn) (c : Conversation) : Decidable (t.In c) := inferInstanceAs (Decidable (_ ∧ _))

/-- The first turn of a conversation that was not copied into it. -/
def World.firstFresh (w : World) (c : Conversation) : Option Turn :=
  (byStart (w.db.turns.filter fun t => t.In c ∧ ¬ w.IsCopy t)).head?

/-- The message an edit of the turn replaces: the first fresh turn of an edit branch stands in the
slot of the branch, any other turn for itself. -/
def World.message (w : World) (c : Conversation) (t : Turn) : Id :=
  match c.editedSlotTurnId with
  | some slot => if (w.firstFresh c).map (·.id) = some t.id then slot else t.id
  | none => t.id

/-- The slot an edit goes to is the message it replaces, so edits are grouped as versions of one
message where they replace the same one. -/
structure World.Stable (w : World) : Prop where
  anchor : ∀ c ∈ w.db.conversations, ∀ t ∈ w.db.turns, t.In c →
    resolveSlotAnchor w.db c.userId c t.id = w.message c t
  grouped : ∀ c ∈ w.db.conversations, ∀ t ∈ w.db.turns, t.In c →
    ∀ c' ∈ w.db.conversations, ∀ t' ∈ w.db.turns, t'.In c' →
      (resolveSlotAnchor w.db c.userId c t.id = resolveSlotAnchor w.db c'.userId c' t'.id ↔
        w.message c t = w.message c' t')

/-- The turn a branch was left at, as long as it is there. -/
def Db.leftAt (db : Db) (c : Conversation) : Option Turn :=
  c.forkedFromTurnId.bind fun f => db.turnOf c.userId f

/-- The turn the branch was left at is there, and started before all its own turns; or there is no
such turn, and the first turn of the branch is its own. -/
def World.Anchored (w : World) (c : Conversation) : Prop :=
  match w.db.leftAt c with
  | some f => ∀ t ∈ w.db.turns, t.In c → ¬ w.IsCopy t → f.startedAt < t.startedAt
  | none => ∀ t ∈ (byStart (w.db.turns.filter fun t => t.In c)).head?, ¬ w.IsCopy t

instance (w : World) (c : Conversation) : Decidable (w.Anchored c) := by
  unfold World.Anchored
  cases w.db.leftAt c <;> infer_instance

/-! ### The first of a sorted selection -/

section Sorted

variable {α : Type*} {r : α → α → Prop} [DecidableRel r] [IsTrans α r]

lemma filter_orderedInsert (p : α → Bool) (a : α) {l : List α} (hl : l.Pairwise r) :
    (l.orderedInsert r a).filter p =
      if p a then (l.filter p).orderedInsert r a else l.filter p := by
  induction l with
  | nil => by_cases hp : p a <;> simp [hp]
  | cons b l ih =>
    obtain ⟨hb, hl⟩ := List.pairwise_cons.1 hl
    by_cases hab : r a b
    · rw [List.orderedInsert_cons_of_le r l hab, List.filter_cons]
      split
      · -- all that is left stands after `b`
        have hall : ∀ x ∈ (b :: l).filter p, r a x := by
          intro x hx
          rcases List.mem_cons.1 (List.mem_of_mem_filter hx) with rfl | hx
          · exact hab
          · exact IsTrans.trans a b x hab (hb x hx)
        cases hrest : (b :: l).filter p with
        | nil => rfl
        | cons x rest =>
          rw [List.orderedInsert_cons_of_le r rest (hall x (by rw [hrest]; simp))]
      · rfl
    · rw [List.orderedInsert_of_not_le r l hab, List.filter_cons, List.filter_cons, ih hl]
      by_cases hpb : p b
      · rw [if_pos hpb, if_pos hpb]
        split
        · rw [List.orderedInsert_of_not_le r _ hab]
        · rfl
      · rw [if_neg hpb, if_neg hpb]

/-- Selecting and sorting go in any order. -/
lemma filter_insertionSort [Std.Total r] (p : α → Bool) (l : List α) :
    (l.insertionSort r).filter p = (l.filter p).insertionSort r := by
  induction l with
  | nil => rfl
  | cons a l ih =>
    rw [List.insertionSort_cons, filter_orderedInsert p a (List.pairwise_insertionSort r l), ih,
      List.filter_cons]
    split
    · rw [List.insertionSort_cons]
    · rfl

end Sorted

lemma filter_byStart (p : Turn → Bool) (ts : List Turn) :
    (byStart ts).filter p = byStart (ts.filter p) := by
  have htotal : Std.Total fun t t' : Turn => t.startedAt ≤ t'.startedAt :=
    ⟨fun t t' => le_total t.startedAt t'.startedAt⟩
  have htrans : IsTrans Turn fun t t' => t.startedAt ≤ t'.startedAt :=
    ⟨fun _ _ _ h h' => le_trans h h'⟩
  exact filter_insertionSort p ts

/-- The first of all is the first of any selection it is of. -/
lemma head_byStart_filter {p : Turn → Bool} {ts : List Turn} {t : Turn}
    (h : (byStart ts).head? = some t) (ht : p t) : (byStart (ts.filter p)).head? = some t := by
  obtain ⟨rest, hrest⟩ := List.head?_eq_some_iff.1 h
  rw [← filter_byStart, hrest, List.filter_cons, if_pos ht]
  rfl

/-- The first starts no later than the others. -/
lemma head_byStart_le {ts : List Turn} {t : Turn} (h : (byStart ts).head? = some t) :
    ∀ t' ∈ ts, t.startedAt ≤ t'.startedAt := by
  obtain ⟨rest, hrest⟩ := List.head?_eq_some_iff.1 h
  have hsorted := byStart_pairwise ts
  rw [hrest, List.pairwise_cons] at hsorted
  intro t' ht'
  have hmem : t' ∈ byStart ts := mem_byStart.2 ht'
  rw [hrest] at hmem
  rcases List.mem_cons.1 hmem with rfl | hmem
  · exact le_rfl
  · exact hsorted.1 t' hmem

lemma mem_of_head_byStart {ts : List Turn} {t : Turn} (h : (byStart ts).head? = some t) : t ∈ ts :=
  mem_byStart.1 (List.mem_of_mem_head? h)

/-! ### Branches and their turns -/

/-- What an edit has read of the turns it is to copy: they stand in the order they started in, and
a row of one has its start. -/
def BranchPlan.Dated (plan : BranchPlan) (n : Id) (turns : List Turn) : Prop :=
  match plan.kind with
  | .fork .. => True
  | .edit _ srcTurns _ anchor => anchor < n ∧
      (∀ l, srcTurns.getLast? = some l → ∀ s ∈ srcTurns, s.startedAt ≤ l.startedAt) ∧
      ∀ s ∈ srcTurns, s.id < n ∧ ∀ t ∈ turns, t.id = s.id → t.startedAt = s.startedAt

/-- A branch holds no turn under the id of its slot, and its inherited turns started no later than
the turn it was left at. -/
structure Slots (w : World) : Prop where
  copiesBelow : ∀ ab ∈ w.history.copies, ab.2 < w.nextId
  slotsBelow : ∀ k ∈ w.db.kin, ∀ s, k.slot = some s → s < w.nextId ∧
    ∀ f, k.forkedFrom = some f → f < w.nextId
  apart : ∀ k ∈ w.db.kin, ∀ s, k.slot = some s → ∀ t ∈ w.db.turns, t.conversationId = k.id → t.id ≠ s
  bounded : ∀ k ∈ w.db.kin, ∀ s, k.slot = some s → ∀ f ∈ w.db.turns, k.forkedFrom = some f.id →
    ∀ t ∈ w.db.turns, t.conversationId = k.id → w.IsCopy t → t.startedAt ≤ f.startedAt
  plans : ∀ plan ∈ w.plans, plan.Dated w.nextId w.db.turns

lemma slots_empty : Slots .empty where
  copiesBelow := by simp [World.empty]
  slotsBelow := by simp [World.empty, Db.empty, Db.kin]
  apart := by simp [World.empty, Db.empty]
  bounded := by simp [World.empty, Db.empty]
  plans := by simp [World.empty]

/-- The first turn after the boundary, which `_resolve_slot_anchor` takes for fresh. -/
def Db.firstAfter (db : Db) (c : Conversation) : Option Turn :=
  (byStart (db.turns.filter fun t =>
    t.In c ∧ ((db.leftAt c).map (·.startedAt)).all (· < t.startedAt))).head?

lemma resolveSlotAnchor_eq (db : Db) (c : Conversation) (tid : Id) :
    resolveSlotAnchor db c.userId c tid = match c.editedSlotTurnId with
      | some slot => if (db.firstAfter c).map (·.id) = some tid then slot else tid
      | none => tid := by
  have hfilter : (db.turns.filter fun t => t.userId = c.userId ∧ t.conversationId = c.id ∧
      ((db.leftAt c).map (·.startedAt)).all (· < t.startedAt)) = db.turns.filter fun t =>
        t.In c ∧ ((db.leftAt c).map (·.startedAt)).all (· < t.startedAt) := by
    refine List.filter_congr fun t _ => ?_
    rw [decide_eq_decide, Turn.In, and_assoc]
  unfold Db.firstAfter
  rw [← hfilter]
  rfl

namespace Slots

variable {w : World}

lemma leftAt_spec {db : Db} {c : Conversation} {f : Turn} (h : db.leftAt c = some f) :
    f ∈ db.turns ∧ c.forkedFromTurnId = some f.id ∧ f.userId = c.userId := by
  obtain ⟨fid, hfid, hf⟩ := Option.bind_eq_some_iff.1 h
  obtain ⟨hu, rfl⟩ := selectOne_holds
    (p := fun t : Turn => t.userId = c.userId ∧ t.id = fid) hf
  exact ⟨selectOne_mem hf, hfid, hu⟩

lemma mem_firstFresh {c : Conversation} {t : Turn} (h : w.firstFresh c = some t) :
    t ∈ w.db.turns ∧ t.In c ∧ ¬ w.IsCopy t := by
  obtain ⟨hmem, hp⟩ := List.mem_filter.1 (mem_of_head_byStart h)
  exact ⟨hmem, of_decide_eq_true hp⟩

/-- Where a branch is anchored, what started after the boundary is what is fresh. -/
lemma firstAfter_eq (h : Slots w) {c : Conversation} (hc : c ∈ w.db.conversations) {s : Id}
    (hs : c.editedSlotTurnId = some s) (ha : w.Anchored c) : w.db.firstAfter c = w.firstFresh c := by
  have hkin : c.kin ∈ w.db.kin := List.mem_map_of_mem hc
  unfold World.Anchored at ha
  unfold Db.firstAfter World.firstFresh
  cases hleft : w.db.leftAt c with
  | some f =>
    simp only [hleft] at ha
    obtain ⟨hf, hfork, -⟩ := leftAt_spec hleft
    congr 2
    refine List.filter_congr fun t ht => ?_
    rw [decide_eq_decide, Option.map_some, Option.all_some, decide_eq_true_eq]
    refine and_congr_right fun hin => ⟨fun hlt hcopy => ?_, ha t ht hin⟩
    exact absurd hlt (not_lt.2 (h.bounded c.kin hkin s hs f hf hfork t ht hin.2 hcopy))
  | none =>
    simp only [hleft] at ha
    simp only [Option.map_none, Option.all_none, and_true]
    have hsplit : (w.db.turns.filter fun t => t.In c ∧ ¬ w.IsCopy t) =
        (w.db.turns.filter fun t => t.In c).filter fun t => ¬ w.IsCopy t := by
      rw [List.filter_filter]
      refine List.filter_congr fun t _ => ?_
      simp [Bool.and_comm]
    rw [hsplit]
    cases hhead : (byStart (w.db.turns.filter fun t => t.In c)).head? with
    | none =>
      have hnil : (byStart (w.db.turns.filter fun t => t.In c)) = [] := List.head?_eq_none_iff.1 hhead
      rw [← filter_byStart, hnil]
      rfl
    | some t => exact (head_byStart_filter hhead (by simpa using ha t hhead)).symm

/-- Where a branch is not anchored, an edit goes to a wrong slot. -/
lemma anchored_of_stable (h : Slots w) (hids : Keyed (fun t : Turn => t.id) w.db.turns)
    (hw : w.Stable) {c : Conversation} (hc : c ∈ w.db.conversations) {s : Id}
    (hs : c.editedSlotTurnId = some s) : w.Anchored c := by
  have hkin : c.kin ∈ w.db.kin := List.mem_map_of_mem hc
  have hne : ∀ t ∈ w.db.turns, t.In c → t.id ≠ s := fun t ht hin => h.apart c.kin hkin s hs t ht hin.2
  have hanchor : ∀ t ∈ w.db.turns, t.In c →
      (if (w.db.firstAfter c).map (·.id) = some t.id then s else t.id) =
        if (w.firstFresh c).map (·.id) = some t.id then s else t.id := by
    intro t ht hin
    have heq := hw.anchor c hc t ht hin
    simpa only [resolveSlotAnchor_eq, World.message, hs] using heq
  unfold World.Anchored
  cases hleft : w.db.leftAt c with
  | some f =>
    simp only
    intro t ht hin hfresh
    by_contra hle
    -- the first fresh turn is missed
    cases hfirst : w.firstFresh c with
    | none =>
      have hmem : t ∈ byStart (w.db.turns.filter fun t => t.In c ∧ ¬ w.IsCopy t) :=
        mem_byStart.2 (List.mem_filter.2 ⟨ht, decide_eq_true ⟨hin, hfresh⟩⟩)
      rw [List.head?_eq_none_iff.1 hfirst] at hmem
      cases hmem
    | some t₀ =>
      obtain ⟨ht₀, hin₀, -⟩ := mem_firstFresh hfirst
      have hle₀ : t₀.startedAt ≤ t.startedAt :=
        head_byStart_le hfirst t (List.mem_filter.2 ⟨ht, decide_eq_true ⟨hin, hfresh⟩⟩)
      have heq := hanchor t₀ ht₀ hin₀
      rw [hfirst, Option.map_some, if_pos rfl] at heq
      by_cases hafter : (w.db.firstAfter c).map (·.id) = some t₀.id
      · obtain ⟨t₁, ht₁, hid⟩ := Option.map_eq_some_iff.1 hafter
        obtain ⟨hmem₁, hp⟩ := List.mem_filter.1 (mem_of_head_byStart ht₁)
        have hlt := (of_decide_eq_true hp).2
        rw [hids.eq hmem₁ ht₀ hid, hleft, Option.map_some, Option.all_some,
          decide_eq_true_eq] at hlt
        exact hle (hlt.trans_le hle₀)
      · rw [if_neg hafter] at heq
        exact hne t₀ ht₀ hin₀ heq
  | none =>
    simp only
    intro t ht hcopy
    -- an inherited turn is taken for the first fresh one
    obtain ⟨hmem, hp⟩ := List.mem_filter.1 (mem_of_head_byStart ht)
    have hin := of_decide_eq_true hp
    have hafter : w.db.firstAfter c = some t := by
      rw [Db.firstAfter, hleft]
      simpa only [Option.map_none, Option.all_none, and_true] using Option.mem_def.1 ht
    have heq := hanchor t hmem hin
    rw [hafter, Option.map_some, if_pos rfl] at heq
    by_cases hfirst : (w.firstFresh c).map (·.id) = some t.id
    · obtain ⟨t₁, ht₁, hid⟩ := Option.map_eq_some_iff.1 hfirst
      obtain ⟨hmem₁, -, hfresh⟩ := mem_firstFresh ht₁
      rw [hids.eq hmem₁ hmem hid] at hfresh
      exact hfresh hcopy
    · rw [if_neg hfirst] at heq
      exact hne t hmem hin heq.symm

/-- Edits go to the right slots exactly where every edit branch is anchored. -/
theorem stable_iff (h : Slots w) (hids : Keyed (fun t : Turn => t.id) w.db.turns) :
    w.Stable ↔ ∀ c ∈ w.db.conversations, c.editedSlotTurnId.isSome → w.Anchored c := by
  constructor
  · intro hw c hc hsome
    obtain ⟨s, hs⟩ := Option.isSome_iff_exists.1 hsome
    exact h.anchored_of_stable hids hw hc hs
  · intro ha
    have hanchor : ∀ c ∈ w.db.conversations, ∀ t ∈ w.db.turns, t.In c →
        resolveSlotAnchor w.db c.userId c t.id = w.message c t := by
      intro c hc t _ _
      rw [resolveSlotAnchor_eq, World.message]
      cases hs : c.editedSlotTurnId with
      | none => rfl
      | some s =>
        simp only
        rw [h.firstAfter_eq hc hs (ha c hc (by rw [hs]; rfl))]
    refine ⟨hanchor, fun c hc t ht hin c' hc' t' ht' hin' => ?_⟩
    rw [hanchor c hc t ht hin, hanchor c' hc' t' ht' hin']

end Slots

/-! ### One change -/

lemma Turn.FailsTo.same_row {t t' : Turn} (h : t.FailsTo t') : t.Same t' := by
  rcases h with rfl | ⟨now, rfl⟩
  · exact .refl t'
  · exact ⟨rfl, rfl, rfl, rfl⟩

lemma BranchPlan.Dated.later {plan : BranchPlan} {n n' : Id} {turns turns' : List Turn}
    (h : plan.Dated n turns) (hn : n ≤ n')
    (ht : ∀ t' ∈ turns', (∃ t ∈ turns, t.Same t') ∨ n ≤ t'.id) : plan.Dated n' turns' := by
  unfold BranchPlan.Dated at h ⊢
  cases hk : plan.kind with
  | fork => trivial
  | edit turnId srcTurns cutoff anchor =>
    simp only [hk] at h ⊢
    obtain ⟨hanchor, hlast, hrows⟩ := h
    refine ⟨hanchor.trans_le hn, hlast, fun s hs => ?_⟩
    obtain ⟨hlt, hstart⟩ := hrows s hs
    refine ⟨hlt.trans_le hn, fun t' ht' hid => ?_⟩
    rcases ht t' ht' with ⟨t, htm, hid', -, -, hstart'⟩ | hnew
    · exact hstart'.trans (hstart t htm (hid'.symm.trans hid))
    · exact absurd hlt (not_lt.2 (hid ▸ hnew))

/-- What an edit reads is dated by the rows it reads. -/
lemma BranchPlan.ReadFrom.dated {plan : BranchPlan} {w : World} (h : plan.ReadFrom w.db)
    (hp : Placed w) (hw : Slots w) : plan.Dated w.nextId w.db.turns := by
  rcases h with ⟨u, source, afterTurnId, title, key, h⟩ | ⟨u, source, turnId, title, key, h⟩
  · obtain ⟨src, forkTurn, -, -, rfl⟩ := forkConversationPlan_ok h
    trivial
  · obtain ⟨src, edited, hsrc, hedited, -, rfl⟩ := branchForEditPlan_ok h
    have hid : edited.id = turnId := (selectOne_holds
      (p := fun t : Turn => t.userId = u ∧ t.id = turnId) hedited).2
    refine ⟨?_, fun l hl s hs => ?_, fun s hs => ?_⟩
    · have hturn : turnId < w.nextId := hid ▸ (hp.db.turnsBelow edited (selectOne_mem hedited)).1
      unfold resolveSlotAnchor
      dsimp only
      split
      · next slot hslot =>
        split
        · exact (hw.slotsBelow src.kin (List.mem_map_of_mem (selectOne_mem hsrc)) slot hslot).1
        · exact hturn
      · exact hturn
    · exact byStart_getLast hl s hs
    · have hmem := (mem_completedTurns.1 hs).1
      refine ⟨(hp.db.turnsBelow s hmem).1, fun t ht heq => ?_⟩
      rw [hp.db.turnIds.eq ht hmem heq]

namespace Slots

variable {w w' : World}

lemma isCopy_iff (hc : w'.history.copies = w.history.copies) {t t' : Turn} (hid : t'.id = t.id) :
    w'.IsCopy t' ↔ w.IsCopy t := by
  rw [World.IsCopy, World.IsCopy, hc, hid]

/-- Rows keep what dates them, turns may start, and no branch is made. -/
lemma unbranched (h : Slots w) (hn : w.nextId ≤ w'.nextId)
    (hc : w'.history.copies = w.history.copies)
    (hk : ∀ k ∈ w'.db.kin, k ∈ w.db.kin ∨ k.slot = none)
    (ht : ∀ t' ∈ w'.db.turns, (∃ t ∈ w.db.turns, t.Same t') ∨ w.nextId ≤ t'.id)
    (hp : ∀ plan ∈ w'.plans, plan ∈ w.plans ∨ plan.Dated w'.nextId w'.db.turns) : Slots w' := by
  have hold : ∀ k ∈ w'.db.kin, ∀ s, k.slot = some s → k ∈ w.db.kin := by
    intro k hmem s hs
    rcases hk k hmem with hold | hnone
    · exact hold
    · rw [hnone] at hs
      cases hs
  constructor
  case copiesBelow =>
    intro ab hab
    exact (h.copiesBelow ab (hc ▸ hab)).trans_le hn
  case slotsBelow =>
    intro k hmem s hs
    obtain ⟨hlt, hfork⟩ := h.slotsBelow k (hold k hmem s hs) s hs
    exact ⟨hlt.trans_le hn, fun f hf => (hfork f hf).trans_le hn⟩
  case apart =>
    intro k hmem s hs t' ht' hconv
    rcases ht t' ht' with ⟨t, htm, hid, -, hconv', -⟩ | hnew
    · rw [hid]
      exact h.apart k (hold k hmem s hs) s hs t htm (hconv'.symm.trans hconv)
    · exact ((h.slotsBelow k (hold k hmem s hs) s hs).1.trans_le hnew).ne'
  case bounded =>
    intro k hmem s hs f' hf' hfork t' ht' hconv hcopy
    have hkold := hold k hmem s hs
    rcases ht f' hf' with ⟨f, hf, hid, -, -, hstart⟩ | hnew
    · rcases ht t' ht' with ⟨t, htm, hid', -, hconv', hstart'⟩ | hnew'
      · rw [hstart, hstart']
        exact h.bounded k hkold s hs f hf (hid ▸ hfork) t htm (hconv'.symm.trans hconv)
          ((isCopy_iff hc hid').1 hcopy)
      · -- a turn that starts is no copy
        obtain ⟨ab, hab, hid'⟩ := List.mem_map.1 hcopy
        exact absurd (h.copiesBelow ab (hc ▸ hab)) (not_lt.2 (hid' ▸ hnew'))
    · exact absurd ((h.slotsBelow k hkold s hs).2 f'.id hfork) (not_lt.2 hnew)
  case plans =>
    intro plan hplan
    rcases hp plan hplan with hold | hnew
    · exact (h.plans plan hold).later hn ht
    · exact hnew

/-- A turn after a branch is one of before, or the copy of an inherited turn. -/
lemma branched_turn {plan : BranchPlan} {now : Instant} {n : Id} {db db' : Db}
    (hb : Db.Branched now n plan db db') {t' : Turn} (ht' : t' ∈ db'.turns) :
    t' ∈ db.turns ∨ ∃ (i : Nat) (t : Turn), (plan.srcTurns db)[i]? = some t ∧
      t'.id = n + 1 + i ∧ t'.conversationId = n ∧ t'.startedAt = t.startedAt := by
  rw [hb.turns] at ht'
  rcases List.mem_append.1 ht' with hold | hnew
  · exact .inl hold
  · obtain ⟨i, t, hi, rfl⟩ := mem_copiedTurns hnew
    exact .inr ⟨i, t, hi, rfl, rfl, rfl⟩

/-- A turn of before is no copy of a branch made now. -/
lemma branched_isCopy (hplaced : Placed w) {ts : List Turn}
    (hc : w'.history.copies = w.history.copies ++ turnMap (w.nextId + 1) ts) {t : Turn}
    (ht : t ∈ w.db.turns) (hcopy : w'.IsCopy t) : w.IsCopy t := by
  rw [World.IsCopy, hc, List.map_append] at hcopy
  rcases List.mem_append.1 hcopy with hold | hnew
  · exact hold
  · obtain ⟨ab, hab, hid⟩ := List.mem_map.1 hnew
    obtain ⟨i, t₀, -, -, hb⟩ := mem_turnMap.1 hab
    have hlt := (hplaced.db.turnsBelow t ht).1
    rw [← hid, hb] at hlt
    exact absurd hlt (not_lt.2 ((Nat.le_succ _).trans (Nat.le_add_right _ i)))

/-- A branch has a slot where its plan is an edit. -/
lemma slot_child {plan : BranchPlan} {n : Id} {now : Instant} {s : Id}
    (hs : (plan.child n now).kin.slot = some s) :
    ∃ turnId srcTurns cutoff, plan.kind = .edit turnId srcTurns cutoff s := by
  cases hk : plan.kind with
  | fork => simp [BranchPlan.child, Conversation.kin, hk] at hs
  | edit turnId srcTurns cutoff anchor =>
    obtain rfl : anchor = s := by simpa [BranchPlan.child, Conversation.kin, hk] using hs
    exact ⟨turnId, srcTurns, cutoff, rfl⟩

/-- A branch is made: its slot and the turn it was left at are older than it. -/
lemma branched (h : Slots w) (hplaced : Placed w) {plan : BranchPlan} {now : Instant}
    (hplan : plan ∈ w.plans) (hb : Db.Branched now w.nextId plan w.db w'.db)
    (hn : w'.nextId = w.nextId + 1 + (plan.srcTurns w.db).length)
    (hc : w'.history.copies = w.history.copies ++ turnMap (w.nextId + 1) (plan.srcTurns w.db))
    (hp : ∀ plan' ∈ w'.plans, plan' ∈ w.plans) : Slots w' := by
  have hle : w.nextId ≤ w'.nextId := by
    rw [hn]
    exact (Nat.le_succ _).trans (Nat.le_add_right _ _)
  have hcopy : ∀ t ∈ w.db.turns, w'.IsCopy t → w.IsCopy t := fun t => branched_isCopy hplaced hc
  have hkin : ∀ k ∈ w'.db.kin, k ∈ w.db.kin ∨ k = (plan.child w.nextId now).kin := by
    intro k hk
    rw [hb.kin_eq] at hk
    exact (List.mem_append.1 hk).imp_right List.mem_singleton.1
  have hdated := h.plans plan hplan
  constructor
  case copiesBelow =>
    intro ab hab
    rw [hc] at hab
    rcases List.mem_append.1 hab with hold | hnew
    · exact (h.copiesBelow ab hold).trans_le hle
    · obtain ⟨i, t, hi, -, hb⟩ := mem_turnMap.1 hnew
      rw [hb, hn]
      exact Nat.add_lt_add_left (List.getElem?_eq_some_iff.1 hi).1 _
  case slotsBelow =>
    intro k hk s hs
    rcases hkin k hk with hold | rfl
    · obtain ⟨hlt, hfork⟩ := h.slotsBelow k hold s hs
      exact ⟨hlt.trans_le hle, fun f hf => (hfork f hf).trans_le hle⟩
    · obtain ⟨turnId, srcTurns, cutoff, hkind⟩ := slot_child hs
      simp only [BranchPlan.Dated, hkind] at hdated
      refine ⟨hdated.1.trans_le hle, fun f hf => ?_⟩
      have hlast : srcTurns.getLast?.map (·.id) = some f := by
        simpa [BranchPlan.child, Conversation.kin, BranchPlan.forkedFrom, hkind] using hf
      obtain ⟨l, hl, rfl⟩ := Option.map_eq_some_iff.1 hlast
      exact (hdated.2.2 l (List.mem_of_getLast? hl)).1.trans_le hle
  case apart =>
    intro k hk s hs t' ht' hconv
    rcases hkin k hk with hold | rfl
    · rcases branched_turn hb ht' with hmem | ⟨i, t, -, -, hconv', -⟩
      · exact h.apart k hold s hs t' hmem hconv
      · exact absurd (hconv'.symm.trans hconv) (hplaced.kinBelow k hold).ne'
    · rcases branched_turn hb ht' with hmem | ⟨i, t, -, hid, -, -⟩
      · exact absurd hconv (hplaced.db.turnsBelow t' hmem).2.ne
      · obtain ⟨turnId, srcTurns, cutoff, hkind⟩ := slot_child hs
        simp only [BranchPlan.Dated, hkind] at hdated
        rw [hid]
        exact (hdated.1.trans_le ((Nat.le_succ _).trans (Nat.le_add_right _ i))).ne'
  case bounded =>
    intro k hk s hs f hf hfork t' ht' hconv hiscopy
    rcases hkin k hk with hold | rfl
    · -- an older branch has its turns of before
      have hflt := (h.slotsBelow k hold s hs).2 f.id hfork
      rcases branched_turn hb hf with hfm | ⟨i, t, -, hid, -, -⟩
      · rcases branched_turn hb ht' with hmem | ⟨i, t, -, -, hconv', -⟩
        · exact h.bounded k hold s hs f hfm hfork t' hmem hconv (hcopy t' hmem hiscopy)
        · exact absurd (hconv'.symm.trans hconv) (hplaced.kinBelow k hold).ne'
      · rw [hid] at hflt
        exact absurd hflt (not_lt.2 ((Nat.le_succ _).trans (Nat.le_add_right _ i)))
    · obtain ⟨turnId, srcTurns, cutoff, hkind⟩ := slot_child hs
      simp only [BranchPlan.Dated, hkind] at hdated
      obtain ⟨-, hlast, hrows⟩ := hdated
      have hlastId : srcTurns.getLast?.map (·.id) = some f.id := by
        simpa [BranchPlan.child, Conversation.kin, BranchPlan.forkedFrom, hkind] using hfork
      obtain ⟨l, hl, hid⟩ := Option.map_eq_some_iff.1 hlastId
      have hsrc : plan.srcTurns w.db = srcTurns := by simp only [BranchPlan.srcTurns, hkind]
      obtain ⟨hlt, hstart⟩ := hrows l (List.mem_of_getLast? hl)
      rcases branched_turn hb hf with hfm | ⟨i, t, -, hid', -, -⟩
      · rcases branched_turn hb ht' with hmem | ⟨i, t, hi, -, -, hstart'⟩
        · exact absurd hconv (hplaced.db.turnsBelow t' hmem).2.ne
        · rw [hstart', hstart f hfm hid.symm]
          exact hlast l hl t (hsrc ▸ List.mem_of_getElem? hi)
      · rw [hid, hid'] at hlt
        exact absurd hlt (not_lt.2 ((Nat.le_succ _).trans (Nat.le_add_right _ i)))
  case plans =>
    intro plan' hplan'
    refine (h.plans plan' (hp plan' hplan')).later hle fun t' ht' => ?_
    rcases branched_turn hb ht' with hmem | ⟨i, t, -, hid, -, -⟩
    · exact .inl ⟨t', hmem, .refl t'⟩
    · rw [hid]
      exact .inr ((Nat.le_succ _).trans (Nat.le_add_right _ i))

theorem change {B : Bounds} (h : Slots w) (hp : Placed w) (hchange : Change B w w') :
    Slots w' := by
  have hplans : (∀ plan ∈ w'.plans, plan ∈ w.plans) →
      ∀ plan ∈ w'.plans, plan ∈ w.plans ∨ plan.Dated w'.nextId w'.db.turns :=
    fun hsub plan hplan => .inl (hsub plan hplan)
  cases hchange with
  | keep hkeep hb =>
    refine h.unbranched hb.nextId hb.copies (fun k hk => .inl (hkeep.kin ▸ hk)) (fun t' ht' => ?_)
      (hplans hb.plans)
    obtain ⟨t, ht, hfails⟩ := hkeep.turn ht'
    exact .inl ⟨t, ht, hfails.same_row⟩
  | plan hread =>
    refine h.unbranched le_rfl rfl (fun k hk => .inl hk) (fun t' ht' => .inl ⟨t', ht', .refl t'⟩)
      fun plan hplan => ?_
    rcases List.mem_append.1 hplan with hold | hnew
    · exact .inl hold
    · rw [List.mem_singleton.1 hnew]
      exact .inr (hread.dated hp h)
  | converse u title agentArch agentVersion strict now =>
    refine h.unbranched (Nat.le_succ _) rfl (fun k hk => ?_)
      (fun t' ht' => .inl ⟨t', ht', .refl t'⟩) (hplans fun _ hplan => hplan)
    rw [createConversation, Db.kin_insertConversation] at hk
    rcases List.mem_append.1 hk with hold | hnew
    · exact .inl hold
    · rw [List.mem_singleton.1 hnew]
      exact .inr rfl
  | start hstarts hticks hn hc hplan =>
    refine h.unbranched (hn ▸ Nat.le_add_right _ _) hc (fun k hk => ?_) (fun t' ht' => ?_)
      (hplans fun _ hmem => hplan ▸ hmem)
    · rcases hstarts.kin with hkin | ⟨rfl, hkin⟩
      · exact .inl (hkin ▸ hk)
      · rw [hkin] at hk
        rcases List.mem_append.1 hk with hold | hnew
        · exact .inl hold
        · rw [List.mem_singleton.1 hnew]
          exact .inr rfl
    · obtain ⟨g, hg, hturns⟩ := hstarts.turns
      rw [hturns] at ht'
      rcases List.mem_append.1 ht' with hold | hnew
      · obtain ⟨t, ht, rfl⟩ := List.mem_map.1 hold
        exact .inl ⟨t, ht, (hg t).same_row⟩
      · rw [List.mem_singleton.1 hnew]
        exact .inr le_rfl
  | finish hfin hb =>
    refine h.unbranched hb.nextId hb.copies (fun k hk => .inl (hfin.closes.kin ▸ hk))
      (fun t' ht' => ?_) (hplans hb.plans)
    rw [hfin.closes.turns] at ht'
    rcases mem_updateWhere_cases ht' with ⟨hold, -⟩ | ⟨t, ht, -, rfl⟩
    · exact .inl ⟨t', hold, .refl t'⟩
    · exact .inl ⟨t, ht, rfl, rfl, rfl, rfl⟩
  | branch hplan hcommit hn hc hsub =>
    rw [srcTurns_insertConversation] at hn hc
    exact h.branched hp hplan (commitBranch_branched hcommit) hn hc hsub
  | delete c hB hd hb =>
    exact h.unbranched hb.nextId hb.copies (fun k hk => .inl (hd.kin.subset hk))
      (fun t' ht' => .inl ⟨t', hd.turns.subset ht', .refl t'⟩) (hplans hb.plans)

end Slots

/-! ### Runs that keep branches anchored -/

/-- A deletion that takes the turn an edit branch was left at, and not the branch, finds no
inherited turn in the branch. -/
def World.Spares (w : World) (c : UserId → Id → Prop) : Prop :=
  ∀ k ∈ w.db.kin, k.slot.isSome → ¬ c k.userId k.id →
    (∃ f ∈ w.db.turns, k.forkedFrom = some f.id ∧ f.userId = k.userId ∧
      c f.userId f.conversationId) →
    ∀ t ∈ w.db.turns, t.userId = k.userId → t.conversationId = k.id → ¬ w.IsCopy t

instance (w : World) (c : UserId → Id → Prop) [∀ u cid, Decidable (c u cid)] :
    Decidable (w.Spares c) :=
  inferInstanceAs (Decidable (∀ k ∈ w.db.kin, _))

/-- Each turn starts later than the turns before it, and deletions spare the branches. -/
def Bounds.sparing : Bounds := ⟨True, World.Spares⟩

/-- Edit branches started their own turns after the turn they were left at, which is there as long
as they hold an inherited turn. -/
structure Moored (w : World) : Prop where
  later : ∀ k ∈ w.db.kin, ∀ s, k.slot = some s → ∀ f ∈ w.db.turns, k.forkedFrom = some f.id →
    ∀ t ∈ w.db.turns, t.conversationId = k.id → ¬ w.IsCopy t → f.startedAt < t.startedAt
  held : ∀ k ∈ w.db.kin, ∀ s, k.slot = some s →
    (∃ f ∈ w.db.turns, k.forkedFrom = some f.id ∧ f.userId = k.userId) ∨
      ∀ t ∈ w.db.turns, t.userId = k.userId → t.conversationId = k.id → ¬ w.IsCopy t

lemma moored_empty : Moored .empty where
  later := by simp [World.empty, Db.empty]
  held := by simp [World.empty, Db.empty]

namespace Moored

variable {w w' : World}

lemma anchored (h : Moored w) {c : Conversation} (hc : c ∈ w.db.conversations) {s : Id}
    (hs : c.editedSlotTurnId = some s) : w.Anchored c := by
  have hkin : c.kin ∈ w.db.kin := List.mem_map_of_mem hc
  unfold World.Anchored
  cases hleft : w.db.leftAt c with
  | some f =>
    obtain ⟨hf, hfork, -⟩ := Slots.leftAt_spec hleft
    exact fun t ht hin hfresh => h.later c.kin hkin s hs f hf hfork t ht hin.2 hfresh
  | none =>
    intro t ht
    obtain ⟨hmem, hp⟩ := List.mem_filter.1 (mem_of_head_byStart ht)
    obtain ⟨hu, hconv⟩ := of_decide_eq_true hp
    rcases h.held c.kin hkin s hs with ⟨f, hf, hfork, hfu⟩ | hnone
    · -- the turn would be found
      have hsome : (w.db.turnOf c.userId f.id).isSome := selectOne_isSome.2 ⟨f, hf, hfu, rfl⟩
      have hfork' : c.forkedFromTurnId = some f.id := hfork
      rw [Db.leftAt, hfork', Option.bind_some] at hleft
      rw [hleft] at hsome
      cases hsome
    · exact hnone t hmem hu hconv

/-- No branch is made: turns may start, and where a turn is gone that a branch was left at, the
branch inherits nothing any more. -/
lemma unbranched (h : Moored w) (hw : Slots w) (hc : w'.history.copies = w.history.copies)
    (hk : ∀ k ∈ w'.db.kin, k ∈ w.db.kin ∨ k.slot = none)
    (ht : ∀ t' ∈ w'.db.turns, (∃ t ∈ w.db.turns, t.Same t') ∨
      w.nextId ≤ t'.id ∧ ∀ t ∈ w.db.turns, t.startedAt < t'.startedAt)
    (hf : ∀ k ∈ w'.db.kin, ∀ s, k.slot = some s → ∀ f ∈ w.db.turns, k.forkedFrom = some f.id →
      f.userId = k.userId → (∃ f' ∈ w'.db.turns, f.Same f') ∨
        ∀ t ∈ w'.db.turns, t.userId = k.userId → t.conversationId = k.id → ¬ w'.IsCopy t) :
    Moored w' := by
  have hold : ∀ k ∈ w'.db.kin, ∀ s, k.slot = some s → k ∈ w.db.kin := by
    intro k hmem s hs
    rcases hk k hmem with hold | hnone
    · exact hold
    · rw [hnone] at hs
      cases hs
  constructor
  case later =>
    intro k hmem s hs f' hf' hfork t' ht' hconv hfresh
    rcases ht f' hf' with ⟨f, hfm, hfid, -, -, hfstart⟩ | ⟨hnew, -⟩
    · rcases ht t' ht' with ⟨t, htm, htid, -, htconv, htstart⟩ | ⟨-, hlater⟩
      · rw [hfstart, htstart]
        exact h.later k (hold k hmem s hs) s hs f hfm (hfid ▸ hfork) t htm (htconv.symm.trans hconv)
          fun hcopy => hfresh ((Slots.isCopy_iff hc htid).2 hcopy)
      · rw [hfstart]
        exact hlater f hfm
    · exact absurd ((hw.slotsBelow k (hold k hmem s hs) s hs).2 f'.id hfork) (not_lt.2 hnew)
  case held =>
    intro k hmem s hs
    rcases h.held k (hold k hmem s hs) s hs with ⟨f, hfm, hfork, hfu⟩ | hnone
    · rcases hf k hmem s hs f hfm hfork hfu with ⟨f', hf', hsame⟩ | hnone
      · exact .inl ⟨f', hf', by rw [hsame.id]; exact hfork, hsame.userId.trans hfu⟩
      · exact .inr hnone
    · refine .inr fun t' ht' hu hconv hcopy => ?_
      rcases ht t' ht' with ⟨t, htm, htid, htu, htconv, -⟩ | ⟨hnew, -⟩
      · exact hnone t htm (htu.symm.trans hu) (htconv.symm.trans hconv)
          ((Slots.isCopy_iff hc htid).1 hcopy)
      · obtain ⟨ab, hab, hid⟩ := List.mem_map.1 hcopy
        exact absurd (hw.copiesBelow ab (hc ▸ hab)) (not_lt.2 (hid ▸ hnew))

/-- A branch that inherits a turn is left at a turn that is there. -/
lemma forked {plan : BranchPlan} {now : Instant} {turnId slot : Id} {srcTurns : List Turn}
    {cutoff : Option Nat} (hkind : plan.kind = .edit turnId srcTurns cutoff slot)
    (hstands : plan.Stands w.nextId w.db)
    (hb : Db.Branched now w.nextId plan w.db w'.db) (hne : srcTurns ≠ []) :
    ∃ f ∈ w.db.turns, plan.forkedFrom = some f.id ∧ f.userId = plan.userId := by
  have hsrc : plan.srcTurns w.db = srcTurns := by simp only [BranchPlan.srcTurns, hkind]
  obtain ⟨l, hl⟩ : ∃ l, srcTurns.getLast? = some l := ⟨_, List.getLast?_eq_some_getLast hne⟩
  have hmem : l ∈ srcTurns := List.mem_of_getLast? hl
  simp only [BranchPlan.Stands, hkind] at hstands
  obtain ⟨-, hu, -, hdone, hleft⟩ := hstands.2 l hmem
  obtain ⟨i, hi⟩ := List.mem_iff_getElem?.1 (hsrc ▸ hmem : l ∈ plan.srcTurns w.db)
  -- its copy has an answer, so the answer is there, and the turn with it
  have hanswer := hb.answered _ (exists_copiedTurn _ _ _ _ hi) hdone
  obtain ⟨mid', hmid'⟩ := Option.isSome_iff_exists.1 hanswer
  obtain ⟨mid, hmid, hlook⟩ := Option.bind_eq_some_iff.1 hmid'
  obtain ⟨j, m, hj, hid, -⟩ := lookup_renumber hlook
  obtain ⟨f, hf, hfid, hfu, -⟩ := (hleft mid (List.mem_append_right _ (by simp [hmid]))).2 m
    (mem_inheritedMessages.1 (List.mem_of_getElem? hj)).1 hid
  refine ⟨f, hf, ?_, hfu.trans hu⟩
  simp only [BranchPlan.forkedFrom, hkind, hl, Option.map_some, hfid]

lemma branched (h : Moored w) (hw : Slots w) (hp : Placed w) {plan : BranchPlan} {now : Instant}
    (hplan : plan ∈ w.plans) (hb : Db.Branched now w.nextId plan w.db w'.db)
    (hc : w'.history.copies = w.history.copies ++ turnMap (w.nextId + 1) (plan.srcTurns w.db)) :
    Moored w' := by
  have hcopy : ∀ t ∈ w.db.turns, w'.IsCopy t → w.IsCopy t := fun t => Slots.branched_isCopy hp hc
  have hkin : ∀ k ∈ w'.db.kin, k ∈ w.db.kin ∨ k = (plan.child w.nextId now).kin := by
    intro k hk
    rw [hb.kin_eq] at hk
    exact (List.mem_append.1 hk).imp_right List.mem_singleton.1
  have hforth : ∀ t ∈ w.db.turns, t ∈ w'.db.turns := by
    intro t ht
    rw [hb.turns]
    exact List.mem_append_left _ ht
  constructor
  case later =>
    intro k hk s hs f hf hfork t' ht' hconv hfresh
    rcases hkin k hk with hold | rfl
    · have hflt := (hw.slotsBelow k hold s hs).2 f.id hfork
      rcases Slots.branched_turn hb hf with hfm | ⟨i, t, -, hid, -, -⟩
      · rcases Slots.branched_turn hb ht' with hmem | ⟨i, t, -, -, hconv', -⟩
        · refine h.later k hold s hs f hfm hfork t' hmem hconv fun hiscopy => hfresh ?_
          rw [World.IsCopy, hc, List.map_append]
          exact List.mem_append_left _ hiscopy
        · exact absurd (hconv'.symm.trans hconv) (hp.kinBelow k hold).ne'
      · rw [hid] at hflt
        exact absurd hflt (not_lt.2 ((Nat.le_succ _).trans (Nat.le_add_right _ i)))
    · rcases Slots.branched_turn hb ht' with hmem | ⟨i, t, hi, hid, -, -⟩
      · exact absurd hconv (hp.db.turnsBelow t' hmem).2.ne
      · refine absurd ?_ hfresh
        rw [World.IsCopy, hc, List.map_append]
        exact List.mem_append_right _ (List.mem_map.2 ⟨_, mem_turnMap.2 ⟨i, t, hi, rfl, rfl⟩,
          hid.symm⟩)
  case held =>
    intro k hk s hs
    rcases hkin k hk with hold | rfl
    · rcases h.held k hold s hs with ⟨f, hf, hrest⟩ | hnone
      · exact .inl ⟨f, hforth f hf, hrest⟩
      · refine .inr fun t' ht' hu hconv hiscopy => ?_
        rcases Slots.branched_turn hb ht' with hmem | ⟨i, t, -, -, hconv', -⟩
        · exact hnone t' hmem hu hconv (hcopy t' hmem hiscopy)
        · exact absurd (hconv'.symm.trans hconv) (hp.kinBelow k hold).ne'
    · obtain ⟨turnId, srcTurns, cutoff, hkind⟩ := Slots.slot_child hs
      by_cases hnil : srcTurns = []
      · refine .inr fun t' ht' _ hconv _ => ?_
        rcases Slots.branched_turn hb ht' with hmem | ⟨i, t, hi, -⟩
        · exact absurd hconv (hp.db.turnsBelow t' hmem).2.ne
        · simp [BranchPlan.srcTurns, hkind, hnil] at hi
      · obtain ⟨f, hf, hrest⟩ := forked hkind (hp.plans plan hplan) hb hnil
        exact .inl ⟨f, hforth f hf, hrest⟩

theorem change (h : Moored w) (hw : Slots w) (hp : Placed w) (hchange : Change .sparing w w') :
    Moored w' := by
  cases hchange with
  | keep hkeep hb =>
    refine h.unbranched hw hb.copies (fun k hk => .inl (hkeep.kin ▸ hk)) (fun t' ht' => ?_)
      fun k _ s _ f hf _ _ => .inl ?_
    · obtain ⟨t, ht, hfails⟩ := hkeep.turn ht'
      exact .inl ⟨t, ht, hfails.same_row⟩
    · obtain ⟨g, hg, hturns⟩ := hkeep.turns
      exact ⟨g f, hturns ▸ List.mem_map_of_mem hf, (hg f).same_row⟩
  | plan hread =>
    exact h.unbranched hw rfl (fun k hk => .inl hk) (fun t' ht' => .inl ⟨t', ht', .refl t'⟩)
      fun k _ s _ f hf _ _ => .inl ⟨f, hf, .refl f⟩
  | converse u title agentArch agentVersion strict now =>
    refine h.unbranched hw rfl (fun k hk => ?_) (fun t' ht' => .inl ⟨t', ht', .refl t'⟩)
      fun k _ s _ f hf _ _ => .inl ⟨f, hf, .refl f⟩
    rw [createConversation, Db.kin_insertConversation] at hk
    rcases List.mem_append.1 hk with hold | hnew
    · exact .inl hold
    · rw [List.mem_singleton.1 hnew]
      exact .inr rfl
  | start hstarts hticks hn hc hplan =>
    obtain ⟨g, hg, hturns⟩ := hstarts.turns
    refine h.unbranched hw hc (fun k hk => ?_) (fun t' ht' => ?_) fun k _ s _ f hf _ _ => .inl ?_
    · rcases hstarts.kin with hkin | ⟨rfl, hkin⟩
      · exact .inl (hkin ▸ hk)
      · rw [hkin] at hk
        rcases List.mem_append.1 hk with hold | hnew
        · exact .inl hold
        · rw [List.mem_singleton.1 hnew]
          exact .inr rfl
    · rw [hturns] at ht'
      rcases List.mem_append.1 ht' with hold | hnew
      · obtain ⟨t, ht, rfl⟩ := List.mem_map.1 hold
        exact .inl ⟨t, ht, (hg t).same_row⟩
      · rw [List.mem_singleton.1 hnew]
        exact .inr ⟨le_rfl, hticks trivial⟩
    · rw [hturns]
      exact ⟨g f, List.mem_append_left _ (List.mem_map_of_mem hf), (hg f).same_row⟩
  | finish hfin hb =>
    refine h.unbranched hw hb.copies (fun k hk => .inl (hfin.closes.kin ▸ hk)) (fun t' ht' => ?_)
      fun k _ s _ f hf _ _ => .inl ?_
    · rw [hfin.closes.turns] at ht'
      rcases mem_updateWhere_cases ht' with ⟨hold, -⟩ | ⟨t, ht, -, rfl⟩
      · exact .inl ⟨t', hold, .refl t'⟩
      · exact .inl ⟨t, ht, rfl, rfl, rfl, rfl⟩
    · rw [hfin.closes.turns]
      refine ⟨_, mem_updateWhere.2 ⟨f, hf, rfl⟩, ?_⟩
      split
      · exact ⟨rfl, rfl, rfl, rfl⟩
      · exact .refl f
  | branch hplan hcommit hn hc hsub =>
    rw [srcTurns_insertConversation] at hc
    exact h.branched hw hp hplan (commitBranch_branched hcommit) hc
  | delete c hB hd hb =>
    refine h.unbranched hw hb.copies (fun k hk => .inl (hd.kin.subset hk))
      (fun t' ht' => .inl ⟨t', hd.turns.subset ht', .refl t'⟩) fun k hk s hs f hf hfork hfu => ?_
    by_cases hgone : c f.userId f.conversationId
    · refine .inr fun t ht hu hconv hiscopy => ?_
      obtain ⟨hmem, hkept⟩ := (hd.mem_turns t).1 ht
      rw [hu, hconv] at hkept
      exact hB k (hd.kin.subset hk) (by rw [hs]; rfl) hkept ⟨f, hf, hfork, hfu, hgone⟩ t hmem hu
        hconv ((Slots.isCopy_iff hb.copies rfl).1 hiscopy)
    · exact .inl ⟨f, (hd.mem_turns f).2 ⟨hf, hgone⟩, .refl f⟩

end Moored

/-! ### Every run -/

lemma slots_after (as : List Action) : Placed (World.after as) ∧ Slots (World.after as) := by
  refine Runs.run_preserves (I := fun w => Placed w ∧ Slots w) (fun w a hw => ?_)
    ⟨placed_empty, slots_empty⟩ as
  exact Changes.preserve (I := fun w => Placed w ∧ Slots w)
    (fun w w' h hchange => ⟨h.1.change hchange, h.2.change h.1 hchange⟩)
    (act_changes (w.within_any a)) hw

lemma moored_after {as : List Action}
    (has : Runs.Along World.act (World.Within .sparing) .empty as) : Moored (World.after as) := by
  refine (Runs.run_preserves_along (I := fun w => (Placed w ∧ Slots w) ∧ Moored w)
    (fun w a hw ha => ?_) ⟨⟨placed_empty, slots_empty⟩, moored_empty⟩ has).2
  exact Changes.preserve (I := fun w => (Placed w ∧ Slots w) ∧ Moored w)
    (fun w w' h hchange => ⟨⟨h.1.1.change hchange, h.1.2.change h.1.1 hchange⟩,
      h.2.change h.1.2 h.1.1 hchange⟩) (act_changes ha) hw

/-- In every state, edits go to the right slots exactly where every edit branch is anchored; and
every state of a run is one of those, in which each turn starts later than the turns before it and
no deletion takes the turn from a branch that it was left at while it holds an inherited turn. -/
theorem slots_stable (as : List Action) :
    ((World.after as).Stable ↔ ∀ c ∈ (World.after as).db.conversations,
      c.editedSlotTurnId.isSome → (World.after as).Anchored c) ∧
    (Runs.Along World.act (World.Within .sparing) .empty as →
      ∀ n, (World.after (as.take n)).Stable) := by
  have hiff : ∀ as : List Action, (World.after as).Stable ↔
      ∀ c ∈ (World.after as).db.conversations, c.editedSlotTurnId.isSome →
        (World.after as).Anchored c := by
    intro as
    obtain ⟨hp, hw⟩ := slots_after as
    exact hw.stable_iff hp.db.turnIds
  refine ⟨hiff as, fun has n => (hiff _).2 fun c hc hsome => ?_⟩
  obtain ⟨s, hs⟩ := Option.isSome_iff_exists.1 hsome
  have hprefix : Runs.Along World.act (World.Within .sparing) .empty (as.take n) := by
    rw [← List.take_append_drop n as, Runs.along_append] at has
    exact has.1
  exact (moored_after hprefix).anchored hc hs

instance (w : World) (a : Action) : Decidable (w.Within .sparing a) :=
  match a with
  | .startRequestTurn .. => inferInstanceAs (Decidable (True → ∀ t ∈ w.db.turns, _))
  | .clearConversation _ _ u cid | .deleteConversation _ _ u cid =>
    inferInstanceAs (Decidable (w.Spares fun u' c => u' = u ∧ c = cid))
  | .deleteAllUserData u => inferInstanceAs (Decidable (w.Spares fun u' _ => u' = u))
  | .finalizeRequestTurn .. | .failTurn .. | .scanOrphans .. | .closeOrphan ..
  | .createConversation .. | .planFork .. | .planEdit .. | .commitBranch ..
  | .beginPrivacyErasure .. | .endPrivacyErasure .. | .claimJob .. | .saveJobResult ..
  | .completeJob .. | .readRetry .. | .writeRetry .. | .patchSummary .. | .owners .. =>
    inferInstanceAs (Decidable True)

/-- Two turns, and an edit of the second: a branch with a copy of the first. -/
def editedRun : List Action :=
  sampleRun ++
    [.startRequestTurn sampleProcess 2
       { sampleStart with conversationId := some 1, requestId := Text.ofString "r2" },
     .finalizeRequestTurn 3 sampleStart.userId 2 (sampleAnswer 2),
     .planEdit sampleStart.userId 1 2 none none, .commitBranch 4 0]

theorem slots_stable_edited :
    (World.after (editedRun ++ [.clearConversation sampleProcess 5 sampleStart.userId 4])).Stable := by
  have hall := (slots_stable
    (editedRun ++ [.clearConversation sampleProcess 5 sampleStart.userId 4])).2 (by decide +kernel) 7
  exact hall

/-- With the parent cleared, an edit of the inherited turn goes to the slot of the branch. -/
theorem slots_stable_parent_cleared :
    ¬ (World.after (editedRun ++ [.clearConversation sampleProcess 5 sampleStart.userId 1])).Stable := by
  intro h
  exact absurd h.anchor (by decide +kernel)

end RentCompass.Store
