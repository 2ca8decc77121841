import RentCompass.Store.SingleFlight
import Mathlib.Data.List.Pairwise

/-!
# Branches and the memories they see

An episodic memory of a turn is visible in a conversation when the walk up the branches finds the
conversation that wrote it and the turn started no later than the turn it was left at. Inheriting a turn
is something else: the turn is copied, and its copy is copied again, at every branch point. The
invariant `Lineage` ties the two at a single branch point, for as long as nothing is deleted and
each turn starts later than the turns before it.
-/

namespace RentCompass.Store

open Rows

/-- Nothing is deleted, and each turn starts later than the turns before it. -/
def Terms.growing : Terms := ⟨False, True, fun _ => True⟩

/-- Turns stay the turns of their conversation, with the instant they started at. -/
structure Turn.Same (t t' : Turn) : Prop where
  id : t'.id = t.id
  userId : t'.userId = t.userId
  conversationId : t'.conversationId = t.conversationId
  startedAt : t'.startedAt = t.startedAt

lemma Turn.Same.refl (t : Turn) : t.Same t := ⟨rfl, rfl, rfl, rfl⟩

/-- `s` is a completed turn of `p` that started no later than `t`. -/
structure Turn.UpTo (u : UserId) (p : Id) (t s : Turn) : Prop where
  userId : s.userId = u
  conversationId : s.conversationId = p
  completed : s.status = .completed
  startedAt : s.startedAt ≤ t.startedAt

/-- What a plan has read still stands: the turns it copies are completed turns of the source, and
an edit copies all of them up to the last. -/
def BranchPlan.Ready (plan : BranchPlan) (turns : List Turn) : Prop :=
  match plan.kind with
  | .fork _ forkTurn =>
    ∃ t ∈ turns, forkTurn.Same t ∧ Turn.UpTo plan.userId plan.source.id t t
  | .edit _ srcTurns _ _ =>
    (∀ s ∈ srcTurns, ∃ t ∈ turns, s.Same t ∧ Turn.UpTo plan.userId plan.source.id t t) ∧
    ∀ l, srcTurns.getLast? = some l → (∀ s ∈ srcTurns, s.startedAt ≤ l.startedAt) ∧
      ∀ t ∈ turns, Turn.UpTo plan.userId plan.source.id l t → ∃ s ∈ srcTurns, s.id = t.id

/-- `o` was left at the completed turn `f` of `p`, and has copies of all turns up to it. -/
def World.Forked (w : World) (o : Origin) (p f : Id) : Prop :=
  ∃ t ∈ w.db.turns, t.id = f ∧ Turn.UpTo o.userId p t t ∧
    ∀ s ∈ w.db.turns, Turn.UpTo o.userId p t s →
      ∃ s' ∈ w.db.turns, s'.conversationId = o.id ∧ (s.id, s'.id) ∈ w.history.copies

/-- The copy `b` of the turn `a` stands in a branch of the conversation of `a`, which was left at
that turn or at a later one. -/
def World.Copied (w : World) (a b : Id) : Prop :=
  ∃ s ∈ w.db.turns, ∃ s' ∈ w.db.turns, s.id = a ∧ s'.id = b ∧ s'.userId = s.userId ∧
    s'.startedAt = s.startedAt ∧ s'.status = .completed ∧
    ∃ o ∈ w.db.origins, o.id = s'.conversationId ∧ o.userId = s.userId ∧
      o.parent = some s.conversationId ∧
      ∃ t ∈ w.db.turns, o.forkedFrom = some t.id ∧ s.startedAt ≤ t.startedAt

/-- A turn that no branch has copied. -/
def World.Original (w : World) (t : Turn) : Prop := ∀ a, (a, t.id) ∉ w.history.copies

/-- The conversation of a turn is there. -/
def World.Houses (w : World) (t : Turn) : Prop :=
  ∃ o ∈ w.db.origins, o.id = t.conversationId ∧ o.userId = t.userId

/-- The invariant of the branches. -/
structure Lineage (w : World) : Prop where
  originIds : Keyed (fun o : Origin => o.id) w.db.origins
  originsBelow : ∀ o ∈ w.db.origins, o.id < w.nextId
  parents : ∀ o ∈ w.db.origins, ∀ p, o.parent = some p → p < o.id
  housed : ∀ t ∈ w.db.turns, w.Houses t
  forks : ∀ o ∈ w.db.origins, ∀ p f, o.parent = some p → o.forkedFrom = some f → w.Forked o p f
  copies : ∀ a b, (a, b) ∈ w.history.copies → w.Copied a b
  /-- The inherited turns of a conversation started before its own. -/
  inherited : ∀ s ∈ w.db.turns, ∀ t ∈ w.db.turns, ¬ w.Original s → w.Original t →
    t.conversationId = s.conversationId → s.startedAt < t.startedAt
  /-- A running turn is the last one of its conversation. -/
  order : ∀ r ∈ w.db.turns, r.status = .running → ∀ t ∈ w.db.turns, t.id ≠ r.id →
    t.userId = r.userId → t.conversationId = r.conversationId → t.startedAt < r.startedAt
  plans : ∀ plan ∈ w.plans, plan.source.id < w.nextId ∧ plan.Ready w.db.turns

lemma lineage_empty : Lineage .empty where
  originIds := keyed_nil
  originsBelow := by simp [World.empty, Db.empty, Db.origins]
  parents := by simp [World.empty, Db.empty, Db.origins]
  housed := by simp [World.empty, Db.empty]
  forks := by simp [World.empty, Db.empty, Db.origins]
  copies := by simp [World.empty]
  inherited := by simp [World.empty, Db.empty]
  order := by simp [World.empty, Db.empty]
  plans := by simp [World.empty]

lemma Lineage.turnsBelow {w : World} (h : Lineage w) {t : Turn} (ht : t ∈ w.db.turns) :
    t.conversationId < w.nextId := by
  obtain ⟨o, ho, hid, -⟩ := h.housed t ht
  exact hid ▸ h.originsBelow o ho

/-! ### One step of the branches -/

/-- How conversations and turns come about: completed turns stay, a new turn starts later than
all others in a conversation where none runs, and copies stand in new branches. -/
structure Evolves (w w' : World) : Prop where
  completed : ∀ t ∈ w.db.turns, t.status = .completed → t ∈ w'.db.turns
  forth : ∀ t ∈ w.db.turns, ∃ t' ∈ w'.db.turns, t.Same t'
  back : ∀ t' ∈ w'.db.turns,
    -- a turn there was, which may have ended
    (∃ t ∈ w.db.turns, t.Same t' ∧ (t'.status = .completed → t' = t ∨ t.status = .running) ∧
      (t'.status = .running → t.status = .running)) ∨
    -- a turn that has started
    (w.nextId ≤ t'.id ∧ w'.history.copies = w.history.copies ∧ w'.Houses t' ∧
      t'.status = .running ∧ (∀ t ∈ w.db.turns, t.startedAt < t'.startedAt) ∧
      (∀ t ∈ w'.db.turns, t.id ≠ t'.id → t ∈ w.db.turns) ∧
      ∀ r ∈ w.db.turns, r.status = .running → r.userId = t'.userId →
        r.conversationId ≠ t'.conversationId) ∨
    -- a copy
    (w.nextId ≤ t'.conversationId ∧ w'.Houses t' ∧ t'.status = .completed ∧
      ¬ w'.Original t')
  nextId : w.nextId ≤ w'.nextId
  copies : ∃ new, w'.history.copies = w.history.copies ++ new ∧
    ∀ a b, (a, b) ∈ new → w.nextId ≤ b ∧ w'.Copied a b
  origins : ∃ new, w'.db.origins = w.db.origins ++ new ∧ Keyed (fun o : Origin => o.id) new ∧
    ∀ o ∈ new, w.nextId ≤ o.id ∧ o.id < w'.nextId ∧ ∀ p, o.parent = some p → p < w.nextId ∧
      ∀ f, o.forkedFrom = some f → w'.Forked o p f
  plans : ∀ plan ∈ w'.plans, plan ∈ w.plans ∨
    plan.source.id < w'.nextId ∧ plan.Ready w'.db.turns

section Evolves

variable {w w' : World}

/-- The completed turns of an old conversation up to a completed turn stay the same ones. -/
lemma Evolves.upTo (he : Evolves w w') (h : Lineage w) (hf : Flight w.nextId w.db) {u : UserId}
    {p : Id} (hp : p < w.nextId) {t t₁ : Turn} (ht : t ∈ w.db.turns) (hut : Turn.UpTo u p t t)
    (hstart : t₁.startedAt = t.startedAt) {s : Turn} (hs : s ∈ w'.db.turns)
    (hus : Turn.UpTo u p t₁ s) : s ∈ w.db.turns ∧ Turn.UpTo u p t s := by
  refine ⟨?_, hus.userId, hus.conversationId, hus.completed, hstart ▸ hus.startedAt⟩
  rcases he.back s hs with ⟨s₀, hs₀, hsame, hcompleted, -⟩ | ⟨-, -, -, hrun, -⟩ | ⟨hnew, -⟩
  · rcases hcompleted hus.completed with rfl | hrun
    · exact hs₀
    · -- a turn that was still running started after `t`
      rcases ne_or_eq t.id s₀.id with hne | heq
      · have hlt := h.order s₀ hs₀ hrun t ht hne
          (hut.userId.trans (hus.userId.symm.trans hsame.userId))
          (hut.conversationId.trans (hus.conversationId.symm.trans hsame.conversationId))
        rw [← hsame.startedAt, ← hstart] at hlt
        exact absurd hlt (not_lt.2 hus.startedAt)
      · rw [← hf.turnIds.eq ht hs₀ heq, hut.completed] at hrun
        cases hrun
  · rw [hus.completed] at hrun
    cases hrun
  · exact absurd hp (not_lt.2 (hus.conversationId ▸ hnew))

lemma Evolves.origin_old (he : Evolves w w') {o : Origin} (ho : o ∈ w.db.origins) :
    o ∈ w'.db.origins := by
  obtain ⟨new, hnew, -⟩ := he.origins
  rw [hnew]
  exact List.mem_append_left _ ho

/-- A turn of before is a copy after a step only if it was one. -/
lemma Evolves.original (he : Evolves w w') (hf : Flight w.nextId w.db) {t t' : Turn}
    (ht : t ∈ w.db.turns) (hsame : t.Same t') : w'.Original t' ↔ w.Original t := by
  obtain ⟨new, hnew, hcopied⟩ := he.copies
  have hold : ∀ a, (a, t'.id) ∈ w'.history.copies ↔ (a, t.id) ∈ w.history.copies := by
    intro a
    rw [hnew, hsame.id, List.mem_append]
    constructor
    · rintro (h | h)
      · exact h
      · exact absurd (hf.turnsBelow t ht) (not_lt.2 (hcopied a _ h).1)
    · exact .inl
  simp only [World.Original, hold]

lemma Evolves.forked (he : Evolves w w') (h : Lineage w) (hf : Flight w.nextId w.db) {o : Origin}
    {p f : Id} (hp : p < w.nextId) (hforked : w.Forked o p f) : w'.Forked o p f := by
  obtain ⟨t, ht, hid, hut, hall⟩ := hforked
  obtain ⟨new, hnew, -⟩ := he.copies
  refine ⟨t, he.completed t ht hut.completed, hid, hut, fun s hs hus => ?_⟩
  obtain ⟨hold, hus⟩ := he.upTo h hf hp ht hut rfl hs hus
  obtain ⟨s', hs', hconv, hcopy⟩ := hall s hold hus
  obtain ⟨s'', hs'', hsame⟩ := he.forth s' hs'
  refine ⟨s'', hs'', hsame.conversationId.trans hconv, ?_⟩
  rw [hnew, hsame.id]
  exact List.mem_append_left _ hcopy

lemma Evolves.copied (he : Evolves w w') {a b : Id} (hcopied : w.Copied a b) : w'.Copied a b := by
  obtain ⟨s, hs, s', hs', hid, hid', hu, hstart, hdone, o, ho, hoid, hou, hparent, t, ht, hfork,
    hle⟩ := hcopied
  obtain ⟨s₁, hs₁, hsame⟩ := he.forth s hs
  obtain ⟨t₁, ht₁, hsame'⟩ := he.forth t ht
  refine ⟨s₁, hs₁, s', he.completed s' hs' hdone, hsame.id.trans hid, hid',
    hu.trans hsame.userId.symm, hstart.trans hsame.startedAt.symm, hdone, o, he.origin_old ho, hoid,
    hou.trans hsame.userId.symm, ?_, t₁, ht₁, ?_, ?_⟩
  · rw [hparent, hsame.conversationId]
  · rw [hfork, hsame'.id]
  · rw [hsame.startedAt, hsame'.startedAt]
    exact hle

lemma Evolves.ready (he : Evolves w w') (h : Lineage w) (hf : Flight w.nextId w.db)
    {plan : BranchPlan} (hsource : plan.source.id < w.nextId) (hready : plan.Ready w.db.turns) :
    plan.Ready w'.db.turns := by
  have hkeep : ∀ s : Turn, (∃ t ∈ w.db.turns, s.Same t ∧
        Turn.UpTo plan.userId plan.source.id t t) →
      ∃ t ∈ w'.db.turns, s.Same t ∧ Turn.UpTo plan.userId plan.source.id t t := by
    rintro s ⟨t, ht, hsame, hut⟩
    exact ⟨t, he.completed t ht hut.completed, hsame, hut⟩
  unfold BranchPlan.Ready at hready ⊢
  cases hkind : plan.kind with
  | fork afterTurnId forkTurn =>
    simp only [hkind] at hready ⊢
    exact hkeep forkTurn hready
  | edit turnId srcTurns cutoffMsgId anchor =>
    simp only [hkind] at hready ⊢
    obtain ⟨hsrc, hlast⟩ := hready
    refine ⟨fun s hs => hkeep s (hsrc s hs), fun l hl => ?_⟩
    obtain ⟨hle, hall⟩ := hlast l hl
    refine ⟨hle, fun t ht hut => ?_⟩
    obtain ⟨l₁, hl₁, hsame, hul⟩ := hsrc l (List.mem_of_getLast? hl)
    obtain ⟨hold, hut₁⟩ := he.upTo h hf hsource hl₁ hul hsame.startedAt.symm ht hut
    exact hall t hold ⟨hut.userId, hut.conversationId, hut.completed, hut.startedAt⟩

/-- The invariant holds after every such step. -/
theorem Lineage.evolve (h : Lineage w) (hf : Flight w.nextId w.db) (he : Evolves w w') :
    Lineage w' := by
  obtain ⟨origins, horigins, hkeyed, hroots⟩ := he.origins
  obtain ⟨copies, hcopies, hcopied⟩ := he.copies
  have horigin : ∀ o ∈ w'.db.origins, o ∈ w.db.origins ∨ o ∈ origins := by
    intro o ho
    rw [horigins] at ho
    exact List.mem_append.1 ho
  constructor
  case originIds =>
    rw [horigins]
    refine h.originIds.append hkeyed fun o ho o' ho' heq => ?_
    exact absurd (h.originsBelow o ho) (not_lt.2 (heq ▸ (hroots o' ho').1))
  case originsBelow =>
    intro o ho
    rcases horigin o ho with ho | ho
    · exact lt_of_lt_of_le (h.originsBelow o ho) he.nextId
    · exact (hroots o ho).2.1
  case parents =>
    intro o ho p hp
    rcases horigin o ho with ho | ho
    · exact h.parents o ho p hp
    · exact lt_of_lt_of_le ((hroots o ho).2.2 p hp).1 (hroots o ho).1
  case housed =>
    intro t' ht'
    rcases he.back t' ht' with ⟨t, ht, hsame, -⟩ | ⟨-, -, hhouse, -⟩ | ⟨-, hhouse, -⟩
    · obtain ⟨o, ho, hid, hu⟩ := h.housed t ht
      exact ⟨o, he.origin_old ho, hid.trans hsame.conversationId.symm, hu.trans hsame.userId.symm⟩
    · exact hhouse
    · exact hhouse
  case forks =>
    intro o ho p f hp hfork
    rcases horigin o ho with ho | ho
    · have hlt : p < w.nextId := (h.parents o ho p hp).trans (h.originsBelow o ho)
      exact he.forked h hf hlt (h.forks o ho p f hp hfork)
    · exact ((hroots o ho).2.2 p hp).2 f hfork
  case copies =>
    intro a b hab
    rw [hcopies] at hab
    rcases List.mem_append.1 hab with hab | hab
    · exact he.copied (h.copies a b hab)
    · exact (hcopied a b hab).2
  case inherited =>
    intro s' hs' t' ht' hcopy horiginal hconv
    rcases he.back t' ht' with ⟨t, ht, hsame, -⟩ | ⟨hnew, heq, -, -, hlater, hothers, -⟩ |
      ⟨-, -, -, hno⟩
    · rcases he.back s' hs' with ⟨s, hs, hsame', -⟩ | ⟨hnew, heq, -⟩ | ⟨hnew, -⟩
      · rw [hsame.startedAt, hsame'.startedAt]
        refine h.inherited s hs t ht ?_ ((he.original hf ht hsame).1 horiginal) ?_
        · rwa [← he.original hf hs hsame']
        · rw [← hsame.conversationId, ← hsame'.conversationId, hconv]
      · -- the turn that starts is no copy
        refine absurd (fun a ha => ?_) hcopy
        rw [heq] at ha
        obtain ⟨-, -, s, hs, -, hid, -⟩ := h.copies a _ ha
        exact absurd (hf.turnsBelow s hs) (not_lt.2 (hid ▸ hnew))
      · rw [← hconv, hsame.conversationId] at hnew
        exact absurd (h.turnsBelow ht) (not_lt.2 hnew)
    · by_cases hid : s'.id = t'.id
      · refine absurd ?_ hcopy
        simpa [World.Original, hid] using horiginal
      · exact hlater s' (hothers s' hs' hid)
    · exact absurd horiginal hno
  case order =>
    intro r' hr' hrun t' ht' hne hu hc
    rcases he.back r' hr' with ⟨r, hr, hsame, -, hwas⟩ | ⟨-, -, -, -, hlater, hothers, -⟩ |
      ⟨-, -, hdone, -⟩
    · rcases he.back t' ht' with ⟨t, ht, hsame', -⟩ | ⟨-, -, -, -, -, -, hfree⟩ | ⟨hnew, -⟩
      · rw [hsame.startedAt, hsame'.startedAt]
        refine h.order r hr (hwas hrun) t ht ?_ ?_ ?_
        · rw [← hsame.id, ← hsame'.id]
          exact hne
        · rw [← hsame.userId, ← hsame'.userId, hu]
        · rw [← hsame.conversationId, ← hsame'.conversationId, hc]
      · refine absurd ?_ (hfree r hr (hwas hrun) ?_)
        · rw [← hsame.conversationId, hc]
        · rw [← hsame.userId, hu]
      · rw [hc, hsame.conversationId] at hnew
        exact absurd (h.turnsBelow hr) (not_lt.2 hnew)
    · exact hlater t' (hothers t' ht' hne)
    · rw [hdone] at hrun
      cases hrun
  case plans =>
    intro plan hplan
    rcases he.plans plan hplan with hold | hnew
    · obtain ⟨hsource, hready⟩ := h.plans plan hold
      exact ⟨lt_of_lt_of_le hsource he.nextId, he.ready h hf hsource hready⟩
    · exact hnew

end Evolves

/-! ### What a plan has read -/

/-- The turn a fork is left at is a completed turn of the source. -/
lemma resolveForkTurn_ok {db : Db} {u : UserId} {source : Id} {afterTurnId : Option Id} {t : Turn}
    (h : resolveForkTurn db u source afterTurnId = .ok t) :
    t ∈ db.turns ∧ Turn.UpTo u source t t := by
  unfold resolveForkTurn at h
  split at h
  · split at h
    · cases h
    · next t' hlatest =>
      cases h
      obtain ⟨ht, hu, hc, hdone, -⟩ := mem_completedTurns.1 (List.mem_of_getLast? hlatest)
      exact ⟨ht, hu, hc, hdone, le_rfl⟩
  · split at h
    · cases h
    · next t' hnamed =>
      split at h
      · cases h
      · next hconv =>
        split at h
        · cases h
        · next hdone =>
          cases h
          exact ⟨selectOne_mem hnamed, (selectOne_holds hnamed).1, not_not.1 hconv,
            not_not.1 hdone, le_rfl⟩

/-- What a call has just read stands. -/
lemma ready_of_read {db : Db} {plan : BranchPlan}
    (h : (∃ u source afterTurnId title key,
        forkConversationPlan db u source afterTurnId title key = .ok (.plan plan)) ∨
      ∃ u source turnId title key,
        branchForEditPlan db u source turnId title key = .ok (.plan plan)) :
    plan.source ∈ db.conversations ∧ plan.Ready db.turns := by
  rcases h with ⟨u, source, afterTurnId, title, key, h⟩ | ⟨u, source, turnId, title, key, h⟩
  · obtain ⟨src, forkTurn, hsrc, hfork, rfl⟩ := forkConversationPlan_ok h
    obtain ⟨-, rfl⟩ := selectOne_holds hsrc
    obtain ⟨ht, hut⟩ := resolveForkTurn_ok hfork
    exact ⟨selectOne_mem hsrc, forkTurn, ht, .refl forkTurn, hut⟩
  · obtain ⟨src, edited, hsrc, -, -, rfl⟩ := branchForEditPlan_ok h
    obtain ⟨-, rfl⟩ := selectOne_holds hsrc
    refine ⟨selectOne_mem hsrc, fun s hs => ?_, fun l hl => ⟨byStart_getLast hl, ?_⟩⟩
    · obtain ⟨hmem, hu, hc, hdone, -⟩ := mem_completedTurns.1 hs
      exact ⟨s, hmem, .refl s, hu, hc, hdone, le_rfl⟩
    · intro t ht hut
      obtain ⟨-, -, -, -, hbound⟩ := mem_completedTurns.1 (List.mem_of_getLast? hl)
      have hlt : t.startedAt < edited.startedAt :=
        lt_of_le_of_lt hut.startedAt (of_decide_eq_true hbound)
      exact ⟨t, mem_completedTurns.2 ⟨ht, hut.userId, hut.conversationId, hut.completed,
        decide_eq_true hlt⟩, rfl⟩

/-- What a branch copies: completed turns of its source, all of them up to the turn it is left
at, and none when it is left at no turn. -/
structure BranchPlan.Copies (plan : BranchPlan) (turns src : List Turn) : Prop where
  sourced : ∀ s ∈ src, ∃ t ∈ turns, s.Same t ∧ Turn.UpTo plan.userId plan.source.id t t
  upTo : ∀ f, plan.forkedFrom = some f → ∃ t ∈ turns, t.id = f ∧
    Turn.UpTo plan.userId plan.source.id t t ∧ (∀ s ∈ src, s.startedAt ≤ t.startedAt) ∧
    ∀ s ∈ turns, Turn.UpTo plan.userId plan.source.id t s → ∃ s₀ ∈ src, s₀.id = s.id
  nothing : plan.forkedFrom = none → src = []

lemma BranchPlan.Ready.copies {plan : BranchPlan} {db : Db} (h : plan.Ready db.turns) :
    plan.Copies db.turns (plan.srcTurns db) := by
  unfold BranchPlan.Ready at h
  cases hkind : plan.kind with
  | fork afterTurnId forkTurn =>
    simp only [hkind] at h
    obtain ⟨t, ht, hsame, hut⟩ := h
    have hsrc : plan.srcTurns db = completedTurns db plan.userId plan.source.id
        (· ≤ forkTurn.startedAt) := by simp only [BranchPlan.srcTurns, hkind]
    have hfork : plan.forkedFrom = some forkTurn.id := by
      simp only [BranchPlan.forkedFrom, hkind]
    constructor
    case sourced =>
      intro s hs
      rw [hsrc] at hs
      obtain ⟨hmem, hu, hc, hdone, -⟩ := mem_completedTurns.1 hs
      exact ⟨s, hmem, .refl s, hu, hc, hdone, le_rfl⟩
    case upTo =>
      intro f hf
      rw [hfork] at hf
      refine ⟨t, ht, hsame.id.trans (Option.some.inj hf), hut, fun s hs => ?_, fun s hs hus => ?_⟩
      · rw [hsrc] at hs
        rw [hsame.startedAt]
        exact of_decide_eq_true (mem_completedTurns.1 hs).2.2.2.2
      · rw [hsrc]
        have hle : s.startedAt ≤ forkTurn.startedAt := hsame.startedAt ▸ hus.startedAt
        exact ⟨s, mem_completedTurns.2 ⟨hs, hus.userId, hus.conversationId, hus.completed,
          decide_eq_true hle⟩, rfl⟩
    case nothing =>
      rw [hfork]
      exact fun h => by cases h
  | edit turnId srcTurns cutoffMsgId anchor =>
    simp only [hkind] at h
    obtain ⟨hsourced, hlast⟩ := h
    have hsrc : plan.srcTurns db = srcTurns := by simp only [BranchPlan.srcTurns, hkind]
    have hfork : plan.forkedFrom = srcTurns.getLast?.map (·.id) := by
      simp only [BranchPlan.forkedFrom, hkind]
    rw [hsrc]
    constructor
    case sourced => exact hsourced
    case upTo =>
      intro f hf
      rw [hfork] at hf
      obtain ⟨l, hl, rfl⟩ := Option.map_eq_some_iff.1 hf
      obtain ⟨t, ht, hsame, hut⟩ := hsourced l (List.mem_of_getLast? hl)
      obtain ⟨hle, hall⟩ := hlast l hl
      refine ⟨t, ht, hsame.id, hut, fun s hs => ?_, fun s hs hus => ?_⟩
      · rw [hsame.startedAt]
        exact hle s hs
      · exact hall s hs ⟨hus.userId, hus.conversationId, hus.completed,
          hsame.startedAt ▸ hus.startedAt⟩
    case nothing =>
      intro hnone
      rw [hfork, Option.map_eq_none_iff, List.getLast?_eq_none_iff] at hnone
      exact hnone

/-! ### Every move -/

/-- A move that ends turns and adds a conversation at most. -/
lemma evolves_of_updateWhere {w w' : World} {p : Turn → Prop} [DecidablePred p] {f : Turn → Turn}
    (hturns : w'.db.turns = updateWhere p f w.db.turns) (hp : ∀ t, p t → t.status = .running)
    (hf : ∀ t, Turn.Same t (f t)) (hid : w'.nextId = w.nextId)
    (hcopies : w'.history.copies = w.history.copies) (horigins : w'.db.origins = w.db.origins)
    (hplans : w'.plans = w.plans) : Evolves w w' where
  completed := by
    intro t ht hdone
    rw [hturns]
    refine mem_updateWhere_of_not ht fun hpt => ?_
    rw [hp t hpt] at hdone
    cases hdone
  forth := by
    intro t ht
    rw [hturns]
    refine ⟨_, mem_updateWhere.2 ⟨t, ht, rfl⟩, ?_⟩
    split
    · exact hf t
    · exact .refl t
  back := by
    intro t' ht'
    rw [hturns] at ht'
    refine .inl ?_
    rcases mem_updateWhere_cases ht' with ⟨hold, -⟩ | ⟨t, ht, hpt, rfl⟩
    · exact ⟨t', hold, .refl t', fun _ => .inl rfl, fun h => h⟩
    · exact ⟨t, ht, hf t, fun _ => .inr (hp t hpt), fun _ => hp t hpt⟩
  nextId := hid.ge
  copies := ⟨[], by simp [hcopies], by simp⟩
  origins := ⟨[], by simp [horigins], keyed_nil, by simp⟩
  plans := fun plan hplan => .inl (hplans ▸ hplan)

/-- A move that leaves the turns alone. -/
lemma evolves_of_turns_eq {w w' : World} (hturns : w'.db.turns = w.db.turns)
    (hid : w.nextId ≤ w'.nextId) (hcopies : w'.history.copies = w.history.copies)
    (horigins : ∃ new, w'.db.origins = w.db.origins ++ new ∧ Keyed (fun o : Origin => o.id) new ∧
      ∀ o ∈ new, w.nextId ≤ o.id ∧ o.id < w'.nextId ∧ o.parent = none)
    (hplans : ∀ plan ∈ w'.plans, plan ∈ w.plans ∨
      plan.source.id < w'.nextId ∧ plan.Ready w'.db.turns) : Evolves w w' where
  completed := fun t ht _ => hturns ▸ ht
  forth := fun t ht => ⟨t, hturns ▸ ht, .refl t⟩
  back := fun t ht => .inl ⟨t, hturns ▸ ht, .refl t, fun _ => .inl rfl, fun h => h⟩
  nextId := hid
  copies := ⟨[], by simp [hcopies], by simp⟩
  origins := by
    obtain ⟨new, hnew, hkeyed, hroots⟩ := horigins
    refine ⟨new, hnew, hkeyed, fun o ho => ?_⟩
    obtain ⟨hge, hlt, hroot⟩ := hroots o ho
    exact ⟨hge, hlt, fun p hp => by rw [hroot] at hp; cases hp⟩
  plans := hplans

/-- A turn that starts, in a conversation of before or in a new one. -/
lemma evolves_beginTurn {w : World} (hf : Flight w.nextId w.db) (p : Process)
    (a : StartArgs) (now : Instant) (cid : Id) (created : Bool)
    (hcreated : created = true → cid = w.nextId + 1)
    (hexists : created = false → (w.db.conversationOf a.userId cid).isSome)
    (hfree : w.db.leaseOf a.userId cid = none) (hticks : ∀ t ∈ w.db.turns, t.startedAt < now) :
    Evolves w (w.beginTurn p a now cid created) := by
  have hturns : (w.beginTurn p a now cid created).db.turns
      = w.db.turns ++ [freshTurn a now w.nextId cid w.db.nextMessageId] := by
    cases created <;> rfl
  have hhouse : ∃ o ∈ (w.beginTurn p a now cid created).db.origins,
      o.id = cid ∧ o.userId = a.userId := by
    cases created with
    | true =>
      refine ⟨(rootConversation a.userId a.createTitle a.agentArch a.agentVersion a.strict cid
        now).origin, List.mem_map_of_mem ?_, rfl, rfl⟩
      exact List.mem_append_right _ (List.mem_singleton_self _)
    | false =>
      obtain ⟨c, hc⟩ := Option.isSome_iff_exists.1 (hexists rfl)
      obtain ⟨hcu, hcid⟩ := selectOne_holds hc
      exact ⟨c.origin, List.mem_map_of_mem (selectOne_mem hc), hcid, hcu⟩
  constructor
  case completed =>
    intro t ht _
    rw [hturns]
    exact List.mem_append_left _ ht
  case forth =>
    intro t ht
    rw [hturns]
    exact ⟨t, List.mem_append_left _ ht, .refl t⟩
  case back =>
    intro t ht
    rw [hturns] at ht ⊢
    rcases List.mem_append.1 ht with ht | ht
    · exact .inl ⟨t, ht, .refl t, fun _ => .inl rfl, fun h => h⟩
    · rw [List.mem_singleton.1 ht]
      refine .inr (.inl ⟨le_rfl, rfl, hhouse, rfl, hticks, fun s hs hne => ?_, fun r hr hrun hu hc => ?_⟩)
      · rcases List.mem_append.1 hs with hs | hs
        · exact hs
        · exact absurd (List.mem_singleton.1 hs ▸ rfl) hne
      · obtain ⟨l, hl, -, hlu, hlc⟩ := hf.holds r hr hrun
        exact selectOne_eq_none.1 hfree l hl ⟨hlu.trans hu, hlc.trans hc⟩
  case nextId => exact Nat.le_add_right _ 2
  case copies => exact ⟨[], (List.append_nil _).symm, by simp⟩
  case origins =>
    cases created with
    | false => exact ⟨[], (List.append_nil _).symm, keyed_nil, by simp⟩
    | true =>
      refine ⟨[(rootConversation a.userId a.createTitle a.agentArch a.agentVersion a.strict cid
        now).origin], ?_, by simp [Keyed], fun o ho => ?_⟩
      · exact List.map_append
      · rw [List.mem_singleton.1 ho]
        refine ⟨?_, lt_of_eq_of_lt (hcreated rfl) (Nat.lt_succ_self _), fun p hp => by cases hp⟩
        exact (hcreated rfl).ge.trans' (Nat.le_succ _)
  case plans => exact fun plan hplan => .inl hplan

/-- A branch: a new conversation, left where its plan says, with the copies of the plan. -/
lemma evolves_addPlan {w : World} (h : Lineage w) {plan : BranchPlan}
    (hplan : plan ∈ w.plans) (hsound : plan.Sound) (now : Instant) :
    Evolves w (w.addPlan plan now) := by
  obtain ⟨hsource, hready⟩ := h.plans plan hplan
  have hdone := hsound.srcTurns (w.db.insertConversation (plan.child w.nextId now))
  have hcopies : plan.Copies w.db.turns
      (plan.srcTurns (w.db.insertConversation (plan.child w.nextId now))) := hready.copies
  generalize hw' : w.addPlan plan now = w'
  generalize hsrc : plan.srcTurns (w.db.insertConversation (plan.child w.nextId now)) = src
    at hcopies hdone
  obtain ⟨messages, hturns⟩ : ∃ messages, w'.db.turns
      = w.db.turns ++ copiedTurns (w.nextId + 1) plan.userId w.nextId messages src := by
    subst hw' hsrc
    exact ⟨_, rfl⟩
  have hhistory : w'.history.copies = w.history.copies ++ turnMap (w.nextId + 1) src := by
    subst hw' hsrc
    rfl
  have horigins : w'.db.origins = w.db.origins ++ [⟨plan.userId, w.nextId, some plan.source.id,
      plan.forkedFrom⟩] := by
    subst hw'
    exact List.map_append
  have hnext : w'.nextId = w.nextId + 1 + src.length := by
    subst hw' hsrc
    rfl
  have hlt : w.nextId < w'.nextId := by
    rw [hnext]
    exact lt_of_lt_of_le (Nat.lt_succ_self _) (Nat.le_add_right _ _)
  have hold : ∀ t ∈ w.db.turns, t ∈ w'.db.turns := by
    intro t ht
    rw [hturns]
    exact List.mem_append_left _ ht
  -- the copy of a turn, and the pair that says so
  have hcopy : ∀ (i : Nat) (s : Turn), src[i]? = some s → ∃ s' ∈ w'.db.turns,
      s'.id = w.nextId + 1 + i ∧ s'.userId = plan.userId ∧ s'.conversationId = w.nextId ∧
      s'.startedAt = s.startedAt ∧ s'.status = s.status ∧ (s.id, s'.id) ∈ w'.history.copies := by
    intro i s hi
    rw [hturns, hhistory]
    refine ⟨_, List.mem_append_right _ (List.mem_map.2 ⟨(s, i),
      List.mk_mem_zipIdx_iff_getElem?.2 hi, rfl⟩), rfl, rfl, rfl, rfl, rfl, ?_⟩
    exact List.mem_append_right _ (mem_renumber.2 ⟨i, s, hi, rfl, rfl⟩)
  constructor
  case completed => exact fun t ht _ => hold t ht
  case forth => exact fun t ht => ⟨t, hold t ht, .refl t⟩
  case back =>
    intro t ht
    rw [hturns] at ht
    rcases List.mem_append.1 ht with ht | ht
    · exact .inl ⟨t, ht, .refl t, fun _ => .inl rfl, fun h => h⟩
    · obtain ⟨i, s, hi, rfl⟩ := mem_copiedTurns ht
      refine .inr (.inr ⟨le_rfl, ⟨_, horigins ▸ List.mem_append_right _ (List.mem_singleton_self _),
        rfl, rfl⟩, hdone s (List.mem_of_getElem? hi), fun horiginal => ?_⟩)
      obtain ⟨s', -, hid', -, -, -, -, hpair⟩ := hcopy i s hi
      exact horiginal s.id (hid' ▸ hpair)
  case nextId => exact hlt.le
  case copies =>
    refine ⟨turnMap (w.nextId + 1) src, hhistory, fun a b hab => ?_⟩
    obtain ⟨i, s, hi, rfl, rfl⟩ := mem_renumber.1 hab
    have hmem := List.mem_of_getElem? hi
    refine ⟨(Nat.le_succ _).trans (Nat.le_add_right _ _), ?_⟩
    obtain ⟨s₀, hs₀, hsame, hut⟩ := hcopies.sourced s hmem
    obtain ⟨s', hs', hid', hu', hc', hstart', hstatus', -⟩ := hcopy i s hi
    cases hfork : plan.forkedFrom with
    | none =>
      rw [hcopies.nothing hfork] at hmem
      cases hmem
    | some f =>
      obtain ⟨t, ht, hid, -, hle, -⟩ := hcopies.upTo f hfork
      refine ⟨s₀, hold s₀ hs₀, s', hs', hsame.id, hid', hu'.trans hut.userId.symm,
        hstart'.trans hsame.startedAt.symm, hstatus'.trans (hdone s hmem), _,
        horigins ▸ List.mem_append_right _ (List.mem_singleton_self _), hc'.symm,
        hut.userId.symm, congrArg some hut.conversationId.symm, t, hold t ht, ?_, ?_⟩
      · rw [hid]
        exact hfork
      · rw [hsame.startedAt]
        exact hle s hmem
  case origins =>
    refine ⟨_, horigins, by simp [Keyed], fun o ho => ?_⟩
    rw [List.mem_singleton.1 ho]
    refine ⟨le_rfl, hlt, fun p hp => ?_⟩
    cases hp
    refine ⟨hsource, fun f hfork => ?_⟩
    obtain ⟨t, ht, hid, hut, -, hall⟩ := hcopies.upTo f hfork
    refine ⟨t, hold t ht, hid, hut, fun s hs hus => ?_⟩
    rw [hturns] at hs
    rcases List.mem_append.1 hs with hs | hs
    · obtain ⟨s₀, hs₀, hid₀⟩ := hall s hs hus
      obtain ⟨i, hi⟩ := List.mem_iff_getElem?.1 hs₀
      obtain ⟨s', hs', -, -, hconv, -, -, hpair⟩ := hcopy i s₀ hi
      exact ⟨s', hs', hconv, hid₀ ▸ hpair⟩
    · -- the source is older than the branch
      obtain ⟨i, s₀, -, rfl⟩ := mem_copiedTurns hs
      exact absurd hus.conversationId hsource.ne'
  case plans =>
    subst hw'
    exact fun plan hplan => .inl hplan

theorem Move.evolves {w w' : World} (hw : w.Coherent) (h : Lineage w)
    (hmove : Move .growing w w') : Evolves w w' := by
  have hplans : ∀ plan ∈ w.plans, plan ∈ w.plans ∨
      plan.source.id < w.nextId ∧ plan.Ready w.db.turns := fun plan hplan => .inl hplan
  cases hmove with
  | quiet hsame =>
    exact evolves_of_turns_eq hsame.turns hsame.nextId hsame.copies
      ⟨[], by simp [hsame.origins], keyed_nil, by simp⟩ fun plan hplan => .inl (hsame.plans plan hplan)
  | plan hread =>
    refine evolves_of_turns_eq rfl le_rfl rfl ⟨[], (List.append_nil _).symm, keyed_nil, by simp⟩
      fun plan hplan => ?_
    rcases List.mem_append.1 hplan with hplan | hplan
    · exact .inl hplan
    · obtain ⟨hsource, hready⟩ := ready_of_read hread
      rw [List.mem_singleton.1 hplan]
      exact .inr ⟨h.originsBelow _ (List.mem_map_of_mem hsource), hready⟩
  | converse u title agentArch agentVersion strict now =>
    refine evolves_of_turns_eq rfl (Nat.le_succ _) rfl ⟨[⟨u, w.nextId, none, none⟩],
      List.map_append, by simp [Keyed], fun o ho => ?_⟩ fun plan hplan => .inl hplan
    rw [List.mem_singleton.1 ho]
    exact ⟨le_rfl, Nat.lt_succ_self _, rfl⟩
  | abandon u tid now =>
    refine evolves_of_updateWhere rfl ?_ (fun t => ⟨rfl, rfl, rfl, rfl⟩) rfl rfl rfl rfl
    exact fun t hp => hp.2.2
  | evict now hl =>
    refine evolves_of_updateWhere rfl ?_ (fun t => ⟨rfl, rfl, rfl, rfl⟩) rfl rfl rfl rfl
    exact fun t hp => hp.2.2
  | finish hturn hrun hstatus hT hm =>
    refine evolves_of_updateWhere rfl ?_ (fun t => ⟨rfl, rfl, rfl, rfl⟩) rfl rfl rfl rfl
    exact fun t hp => hp.2.2
  | start p a now cid created hcreated hexists hfree hnamed hkey hticks =>
    exact evolves_beginTurn hw.flight p a now cid created hcreated hexists hfree (hticks trivial)
  | branch hplan now => exact evolves_addPlan h hplan (hw.plans _ hplan) now
  | failTurn hT => exact hT.elim
  | deleteConversation hT => exact hT.elim
  | dropConversations hT => exact hT.elim
  | deleteUser hT => exact hT.elim
  | erase hT => exact hT.elim

/-- The invariant holds along every run that deletes nothing and in which time goes on. -/
theorem lineage_after {as : List Action}
    (has : Runs.Along World.act (World.Meets .growing) .empty as) :
    Lineage (World.after as) := by
  refine (Runs.run_preserves_along (I := fun w => w.Coherent ∧ Lineage w) ?_
    ⟨World.coherent_empty, lineage_empty⟩ has).2
  intro w a hw ha
  refine Moves.preserve (I := fun w => w.Coherent ∧ Lineage w) ?_ (act_moves ha) hw
  rintro w w' ⟨hc, hl⟩ hmove
  exact ⟨hc.move hmove, hl.evolve hc.flight (hmove.evolves hc hl)⟩

end RentCompass.Store
