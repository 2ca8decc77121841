import RentCompass.Memory.Consent

/-!
# What was chosen stays chosen

The state of a conversation is read off the choices of its user: the last choice made in it, or
else the last one made, before the branch point, in the nearest conversation above that has made
one. The ledger tells the same as long as nothing above a resumed conversation stands paused and
what a branch should inherit still stands when its first turn looks.
-/

namespace RentCompass.Memory

open Rows Store

/-- The last choice made in the conversation of an entry, in turns that started no later than its
bound. -/
def ownChoice (choices : List Choice) (e : LineageEntry) : Option Bool :=
  ((choices.filter fun c => c.conversationId = e.conversationId ∧
    standsBefore c.startedAt e.before).getLast?).map (·.paused)

/-- The nearest conversation, from an entry up, that has made a choice. -/
inductive Chooses (w : World) (choices : List Choice) (u : UserId) :
    LineageEntry → LineageEntry → Prop
  | here {e : LineageEntry} (h : (ownChoice choices e).isSome) : Chooses w choices u e e
  | above {t : Turn} {e e₁ n : LineageEntry} (h : ownChoice choices e = none)
      (hup : w.Climbs₁ u t e e₁) (hrest : Chooses w choices u e₁ n) : Chooses w choices u e n

/-- The state of a conversation, as the choices have it. -/
def StateOf (w : World) (choices : List Choice) (u : UserId) (e : LineageEntry) (paused : Bool) :
    Prop :=
  (∃ n, Chooses w choices u e n ∧ ownChoice choices n = some paused) ∨
    (∀ n, ¬ Chooses w choices u e n) ∧ paused = false

namespace ConsentWorld

/-- The pause of the conversation of an entry stands since before its bound. -/
def Standing (s : ConsentWorld) (uid : Text) (e : LineageEntry) : Prop :=
  ∃ pausedAt, memoryPausedAt s.pauses uid e.conversationId = some pausedAt ∧
    standsBefore pausedAt e.before

/-- Nothing is deleted and time goes on in the store. A user who decides is identified, and a
choice is made when the ledger can be written. A turn of a conversation that is not paused finds
that, of the conversations above it, none stands paused since before its branch point if the last
choice, by the branches, was to resume, and one does if it was to pause. -/
def Meets (rules : ConsentRules) (s : ConsentWorld) : ConsentAction → Prop
  | .store a => s.store.Meets .growing a
  | .decide now u cid msg readable => ∀ t, s.running u cid = some t →
    t.startedAt ≤ now ∧ ((choiceOf rules msg).isSome → readable = true) ∧
    ∃ uid, validUserId (some u) = some uid ∧
      (memoryPausedAt s.pauses uid cid = none →
        ∀ n, Chooses s.store s.choices u ⟨cid, none⟩ n →
          (ownChoice s.choices n = some true →
            ∃ e ∈ (getBranchLineage s.store.db u cid).tail, s.Standing uid e) ∧
          (ownChoice s.choices n = some false → ∀ e ∈ (getBranchLineage s.store.db u cid).tail,
            ∀ m, s.store.Climbs u (m + 1) n e → ¬ s.Standing uid e))

end ConsentWorld

/-! ### The state of a conversation -/

section StateOf

variable {w : World} {choices : List Choice} {u : UserId}

lemma Chooses.chosen {e n : LineageEntry} (h : Chooses w choices u e n) :
    (ownChoice choices n).isSome := by
  induction h with
  | here h => exact h
  | above _ _ _ ih => exact ih

lemma Chooses.unique (hl : Lineage w) (hf : Flight w.nextId w.db) {e n n' : LineageEntry}
    (h : Chooses w choices u e n) (h' : Chooses w choices u e n') : n = n' := by
  induction h with
  | here h =>
    cases h' with
    | here => rfl
    | above hnone => rw [hnone] at h; cases h
  | above hnone hup _ ih =>
    cases h' with
    | here h => rw [hnone] at h; cases h
    | above _ hup' hrest' =>
      obtain ⟨-, rfl⟩ := hup.unique hl hf hup'
      exact ih hrest'

/-- A conversation is in one state. -/
lemma StateOf.unique (hl : Lineage w) (hf : Flight w.nextId w.db) {e : LineageEntry} {b b' : Bool}
    (h : StateOf w choices u e b) (h' : StateOf w choices u e b') : b = b' := by
  rcases h with ⟨n, hn, hb⟩ | ⟨hnone, rfl⟩
  · rcases h' with ⟨n', hn', hb'⟩ | ⟨hnone', -⟩
    · obtain rfl := hn.unique hl hf hn'
      exact Option.some.inj (hb.symm.trans hb')
    · exact absurd hn (hnone' n)
  · rcases h' with ⟨n', hn', -⟩ | ⟨-, rfl⟩
    · exact absurd hn' (hnone n')
    · rfl

/-- It is in some state. -/
lemma exists_stateOf (w : World) (choices : List Choice) (u : UserId) (e : LineageEntry) :
    ∃ b, StateOf w choices u e b := by
  by_cases h : ∃ n, Chooses w choices u e n
  · obtain ⟨n, hn⟩ := h
    obtain ⟨b, hb⟩ := Option.isSome_iff_exists.1 hn.chosen
    exact ⟨b, .inl ⟨n, hn, hb⟩⟩
  · exact ⟨false, .inr ⟨fun n hn => h ⟨n, hn⟩, rfl⟩⟩

lemma StateOf.own {e : LineageEntry} {b : Bool} (h : ownChoice choices e = some b) :
    StateOf w choices u e b := .inl ⟨e, .here (by rw [h]; rfl), h⟩

/-- What an entry further up chooses decides, unless a nearer one has chosen. -/
lemma Chooses.of_climbs {m : Nat} {e e' n : LineageEntry} (hclimb : w.Climbs u m e e')
    (hn : Chooses w choices u e' n) :
    Chooses w choices u e n ∨ ∃ n' k, Chooses w choices u e n' ∧ w.Climbs u (k + 1) n' e' := by
  induction hclimb with
  | refl => exact .inl hn
  | @up m t e e₁ e' hstep hrest ih =>
    cases hown : ownChoice choices e with
    | some b => exact .inr ⟨e, m, .here (by rw [hown]; rfl), .up hstep hrest⟩
    | none =>
      rcases ih hn with h | ⟨n', k, hn', hclimb⟩
      · exact .inl (.above hown hstep h)
      · exact .inr ⟨n', k, .above hown hstep hn', hclimb⟩

end StateOf

/-! ### The ledger after a turn -/

section Ledger

variable {pauses : List Pause} {uid uid' : Text} {cid cid' : Id}

lemma memoryPausedAt_set_self (paused : Bool) (now : Instant) :
    memoryPausedAt (setMemoryPaused pauses uid cid paused now) uid cid =
      if paused then some ((memoryPausedAt pauses uid cid).getD now) else none := by
  cases paused with
  | true =>
    rw [setMemoryPaused, if_pos rfl, if_pos rfl]
    cases hrow : memoryPausedAt pauses uid cid with
    | some pausedAt => rw [if_pos (by rfl), hrow, Option.getD_some]
    | none =>
      rw [if_neg (by simp), memoryPausedAt,
        selectOne_concat (Option.map_eq_none_iff.1 hrow) ⟨rfl, rfl⟩]
      rfl
  | false =>
    rw [setMemoryPaused, if_neg Bool.false_ne_true, memoryPausedAt, selectOne_deleteWhere_self]
    rfl

lemma memoryPausedAt_set_other (h : ¬ (uid' = uid ∧ cid' = cid)) (paused : Bool) (now : Instant) :
    memoryPausedAt (setMemoryPaused pauses uid cid paused now) uid' cid' =
      memoryPausedAt pauses uid' cid' := by
  cases paused with
  | true =>
    rw [setMemoryPaused, if_pos rfl]
    split
    · rfl
    · rw [memoryPausedAt, selectOne_concat_of_not, memoryPausedAt]
      exact fun hkey => h ⟨hkey.1.symm, hkey.2.symm⟩
  | false =>
    rw [setMemoryPaused, if_neg Bool.false_ne_true, memoryPausedAt, selectOne_deleteWhere,
      memoryPausedAt]
    rintro p ⟨rfl, rfl⟩
    exact h

lemma mem_setMemoryPaused {paused : Bool} {now : Instant} {p : Pause}
    (h : p ∈ setMemoryPaused pauses uid cid paused now) : p ∈ pauses ∨ p.conversationId = cid := by
  rw [setMemoryPaused] at h
  split at h
  · split at h
    · exact .inl h
    · rcases List.mem_append.1 h with h | h
      · exact .inl h
      · exact .inr (by rw [List.mem_singleton.1 h])
  · exact .inl (mem_of_mem_deleteWhere h)

end Ledger

variable (rules : ConsentRules)

lemma pausedAbove_spec {u : UserId} {uid : Text} (hu : validUserId (some u) = some uid)
    (pauses : List Pause) (l : List LineageEntry) :
    ∃ b, pausedAbove (some pauses) u l = some b ∧
      (b = true ↔ ∃ e ∈ l, ∃ pausedAt, memoryPausedAt pauses uid e.conversationId = some pausedAt ∧
        standsBefore pausedAt e.before) := by
  induction l with
  | nil => exact ⟨false, rfl, by simp⟩
  | cons e l ih =>
    obtain ⟨b, hb, hiff⟩ := ih
    rw [pausedAbove, conversationMemoryPausedAt, hu]
    cases hrow : memoryPausedAt pauses uid e.conversationId with
    | none => exact ⟨b, by simp [hb, hrow], by simp [hiff, hrow]⟩
    | some pausedAt =>
      by_cases hstands : standsBefore pausedAt e.before
      · exact ⟨true, by simp [hrow, hstands], by simp [hrow, hstands]⟩
      · exact ⟨b, by simp [hb, hrow, hstands], by simp [hiff, hrow, hstands]⟩

lemma conversationMemoryTurn_paused (previously : Bool) (msg : Text) :
    (conversationMemoryTurn rules (some previously) msg).paused =
      some ((choiceOf rules msg).getD previously) := by
  unfold conversationMemoryTurn choiceOf
  by_cases hscope : rules.optOutScope msg = some .conversation
  · simp [hscope]
  · cases hresume : resumeRequested rules msg with
    | true => cases previously <;> simp [hscope]
    | false => cases previously <;> simp [hscope]

/-- What a turn finds and leaves, where the ledger can be read: it finds the conversation paused if
its row is there or a pause above stands since before the branch point, and leaves it as the message
chooses, or as it was. -/
lemma apply_spec {u : UserId} {uid : Text} (hu : validUserId (some u) = some uid)
    (pauses : List Pause) (cid : Id) (msg : Text) {lineage : List LineageEntry}
    (hlineage : lineage ≠ []) (now : Instant) :
    ∃ previously, (applyConversationMemoryTurn rules (some pauses) u cid msg lineage now
        ).previouslyPaused = some previously ∧
      (previously = true ↔ (memoryPausedAt pauses uid cid).isSome ∨ ∃ e ∈ lineage.tail,
        ∃ pausedAt, memoryPausedAt pauses uid e.conversationId = some pausedAt ∧
          standsBefore pausedAt e.before) ∧
      (applyConversationMemoryTurn rules (some pauses) u cid msg lineage now).turn.paused =
        some ((choiceOf rules msg).getD previously) ∧
      ∃ pauses', (applyConversationMemoryTurn rules (some pauses) u cid msg lineage now).ledger =
          some pauses' ∧
        memoryPausedAt pauses' uid cid = (if (choiceOf rules msg).getD previously then
          some ((memoryPausedAt pauses uid cid).getD now) else none) ∧
        (∀ uid' cid', ¬ (uid' = uid ∧ cid' = cid) →
          memoryPausedAt pauses' uid' cid' = memoryPausedAt pauses uid' cid') ∧
        ∀ p ∈ pauses', p ∈ pauses ∨ p.conversationId = cid := by
  obtain ⟨above, habove, hiff⟩ := pausedAbove_spec hu pauses lineage.tail
  have hown : conversationMemoryPaused (some pauses) u cid =
      some (memoryPausedAt pauses uid cid).isSome := by rw [conversationMemoryPaused, hu]; rfl
  have hset : ∀ ps paused, setConversationMemoryPaused (some ps) u cid paused now =
      some (setMemoryPaused ps uid cid paused now) := by
    intro ps paused
    rw [setConversationMemoryPaused, hu]
    rfl
  simp only [applyConversationMemoryTurn, hown, pausedBeforeFork, habove]
  cases hrow : memoryPausedAt pauses uid cid with
  | some pausedAt =>
    refine ⟨true, by simp, by simp, by simp [conversationMemoryTurn_paused], ?_⟩
    simp only [Option.isSome_some, Option.some.injEq, Bool.true_eq_false, false_and, if_false,
      conversationMemoryTurn_paused]
    cases hfinal : (choiceOf rules msg).getD true with
    | true => exact ⟨pauses, by simp, by simp [hrow], fun _ _ _ => rfl, fun p hp => .inl hp⟩
    | false =>
      refine ⟨setMemoryPaused pauses uid cid false now, by simp [hset], ?_, fun _ _ hne =>
        memoryPausedAt_set_other hne _ _, fun p hp => mem_setMemoryPaused hp⟩
      exact memoryPausedAt_set_self _ _
  | none =>
    refine ⟨above, by simp [hlineage], by simp [hiff],
      by simp [hlineage, conversationMemoryTurn_paused], ?_⟩
    simp only [Option.isSome_none, ne_eq, hlineage, not_false_eq_true, and_self, if_true,
      true_and, Option.some.injEq, conversationMemoryTurn_paused]
    cases above with
    | true =>
      have hset_true : memoryPausedAt (setMemoryPaused pauses uid cid true now) uid cid =
          some ((memoryPausedAt pauses uid cid).getD now) := memoryPausedAt_set_self true now
      cases hfinal : (choiceOf rules msg).getD true with
      | true =>
        refine ⟨setMemoryPaused pauses uid cid true now, by simp [hset], ?_, fun _ _ hne =>
          memoryPausedAt_set_other hne _ _, fun p hp => mem_setMemoryPaused hp⟩
        rw [hset_true, hrow, if_pos rfl]
      | false =>
        refine ⟨setMemoryPaused (setMemoryPaused pauses uid cid true now) uid cid false now,
          by simp [hset], memoryPausedAt_set_self _ _, fun _ _ hne => ?_, fun p hp => ?_⟩
        · rw [memoryPausedAt_set_other hne, memoryPausedAt_set_other hne]
        · rcases mem_setMemoryPaused hp with hp | hp
          · exact mem_setMemoryPaused hp
          · exact .inr hp
    | false =>
      cases hfinal : (choiceOf rules msg).getD false with
      | true =>
        refine ⟨setMemoryPaused pauses uid cid true now, by simp [hset], ?_, fun _ _ hne =>
          memoryPausedAt_set_other hne _ _, fun p hp => mem_setMemoryPaused hp⟩
        rw [memoryPausedAt_set_self, hrow]
      | false => exact ⟨pauses, by simp, by simp [hrow], fun _ _ _ => rfl, fun p hp => .inl hp⟩

/-- Where the ledger cannot be read, nothing is kept of the turn and nothing is written. -/
lemma apply_unreadable {u : UserId} {uid : Text} (hu : validUserId (some u) = some uid) (cid : Id)
    (msg : Text) (lineage : List LineageEntry) (now : Instant) :
    (applyConversationMemoryTurn rules none u cid msg lineage now).turn.withhold = true ∧
      (applyConversationMemoryTurn rules none u cid msg lineage now).previouslyPaused = none ∧
      (applyConversationMemoryTurn rules none u cid msg lineage now).ledger = none := by
  have hown : conversationMemoryPaused none u cid = none := by
    rw [conversationMemoryPaused, hu]
    rfl
  have hset : ∀ paused, setConversationMemoryPaused none u cid paused now = none := by
    intro paused
    rw [setConversationMemoryPaused, hu]
    rfl
  simp only [applyConversationMemoryTurn, hown, reduceCtorEq, false_and, if_false, hset]
  refine ⟨?_, trivial, ?_⟩
  · by_cases hscope : rules.optOutScope msg = some .conversation <;>
      simp [conversationMemoryTurn, hscope]
  · split <;> simp

/-! ### What a step does to the state of a conversation -/

section Steps

variable {w w' : World} {choices : List Choice} {u : UserId}

/-- The way up from an old conversation stays as it was. -/
lemma climbs₁_evolves (he : Evolves w w') (hl : Lineage w) (hf : Flight w.nextId w.db)
    (hf' : Flight w'.nextId w'.db) {t : Turn} {e e₁ : LineageEntry}
    (hold : e.conversationId < w.nextId) :
    w'.Climbs₁ u t e e₁ ↔ w.Climbs₁ u t e e₁ := by
  constructor
  · rintro ⟨ht, hu, rfl, o, ho, hou, hid, hparent, hfork⟩
    obtain ⟨new, hnew, -, hroots⟩ := he.origins
    have ho : o ∈ w.db.origins := by
      rw [hnew] at ho
      refine (List.mem_append.1 ho).resolve_right fun ho => ?_
      exact absurd (hid ▸ hold) (not_lt.2 (hroots o ho).1)
    obtain ⟨t₀, ht₀, hid₀, hut, -⟩ := hl.forks o ho _ _ hparent hfork
    obtain rfl := hf'.turnIds.eq (he.completed t₀ ht₀ hut.completed) ht hid₀
    exact ⟨ht₀, hu, rfl, o, ho, hou, hid, hparent, hfork⟩
  · rintro ⟨ht, hu, rfl, o, ho, hou, hid, hparent, hfork⟩
    obtain ⟨t₀, ht₀, hid₀, hut, -⟩ := hl.forks o ho _ _ hparent hfork
    obtain rfl := hf.turnIds.eq ht₀ ht hid₀
    exact ⟨he.completed t₀ ht hut.completed, hu, rfl, o, he.origin_old ho, hou, hid, hparent, hfork⟩

lemma chooses_evolves (he : Evolves w w') (hl : Lineage w) (hf : Flight w.nextId w.db)
    (hf' : Flight w'.nextId w'.db) {e n : LineageEntry} (hold : e.conversationId < w.nextId) :
    Chooses w' choices u e n ↔ Chooses w choices u e n := by
  constructor
  · intro h
    induction h with
    | here h => exact .here h
    | above hnone hup _ ih =>
      have hup := (climbs₁_evolves he hl hf hf' hold).1 hup
      exact .above hnone hup (ih ((hup.lt hl).trans hold))
  · intro h
    induction h with
    | here h => exact .here h
    | above hnone hup _ ih =>
      exact .above hnone ((climbs₁_evolves he hl hf hf' hold).2 hup) (ih ((hup.lt hl).trans hold))

lemma stateOf_evolves (he : Evolves w w') (hl : Lineage w) (hf : Flight w.nextId w.db)
    (hf' : Flight w'.nextId w'.db) {e : LineageEntry} (hold : e.conversationId < w.nextId) {b : Bool} :
    StateOf w' choices u e b ↔ StateOf w choices u e b := by
  simp only [StateOf, chooses_evolves he hl hf hf' hold]

/-- A choice that an entry does not see: one of another conversation, or of a later turn. -/
def Unseen (c : Choice) (e : LineageEntry) : Prop :=
  e.conversationId ≠ c.conversationId ∨ ∃ b, e.before = some b ∧ b < c.startedAt

lemma ownChoice_unseen {c : Choice} {e : LineageEntry} (h : Unseen c e) :
    ownChoice (choices ++ [c]) e = ownChoice choices e := by
  have hnot : ¬ (c.conversationId = e.conversationId ∧ standsBefore c.startedAt e.before) := by
    rintro ⟨hid, hstands⟩
    rcases h with hne | ⟨b, hb, hlt⟩
    · exact hne hid.symm
    · exact absurd (hstands b hb) (not_le.2 hlt)
  simp [ownChoice, List.filter_append, hnot]

lemma ownChoice_seen {c : Choice} {e : LineageEntry} (h : ¬ Unseen c e) :
    ownChoice (choices ++ [c]) e = some c.paused := by
  have hsees : c.conversationId = e.conversationId ∧ standsBefore c.startedAt e.before := by
    refine ⟨?_, fun b hb => ?_⟩
    · by_contra hne
      exact h (.inl fun heq => hne heq.symm)
    · by_contra hlt
      exact h (.inr ⟨b, hb, not_le.1 hlt⟩)
  simp [ownChoice, List.filter_append, hsees]

/-- A branch does not see what is chosen in a turn that is running. -/
lemma unseen_above (hl : Lineage w) (hf : Flight w.nextId w.db) {r t : Turn}
    (hr : r ∈ w.db.turns) (hrun : r.status = .running) {e e₁ : LineageEntry}
    (hup : w.Climbs₁ u t e e₁) (paused : Bool) :
    Unseen ⟨r.conversationId, r.startedAt, paused⟩ e₁ := by
  obtain ⟨ht, hu, rfl, o, ho, hou, hid, hparent, hfork⟩ := hup
  by_cases hconv : t.conversationId = r.conversationId
  · obtain ⟨t₀, ht₀, hid₀, hut, -⟩ := hl.forks o ho _ _ hparent hfork
    obtain rfl := hf.turnIds.eq ht₀ ht hid₀
    -- the branch was left at a completed turn
    have hne : t₀.id ≠ r.id := by
      intro heq
      obtain rfl := hf.turnIds.eq ht₀ hr heq
      rw [hut.completed] at hrun
      cases hrun
    have huser : t₀.userId = r.userId := by
      obtain ⟨o₁, ho₁, hid₁, hu₁⟩ := hl.housed t₀ ht₀
      obtain ⟨o₂, ho₂, hid₂, hu₂⟩ := hl.housed r hr
      obtain rfl := hl.originIds.eq ho₁ ho₂ (hid₁.trans (hconv.trans hid₂.symm))
      exact hu₁.symm.trans hu₂
    exact .inr ⟨_, rfl, hl.order r hr hrun t₀ ht₀ hne huser hconv⟩
  · exact .inl hconv

lemma chooses_unseen (hl : Lineage w) (hf : Flight w.nextId w.db) {r : Turn} (hr : r ∈ w.db.turns)
    (hrun : r.status = .running) {paused : Bool} {e n : LineageEntry}
    (he : Unseen ⟨r.conversationId, r.startedAt, paused⟩ e) (b : Bool) :
    (Chooses w (choices ++ [⟨r.conversationId, r.startedAt, paused⟩]) u e n ∧
        ownChoice (choices ++ [⟨r.conversationId, r.startedAt, paused⟩]) n = some b) ↔
      Chooses w choices u e n ∧ ownChoice choices n = some b := by
  constructor
  · rintro ⟨h, hb⟩
    induction h with
    | here h =>
      rw [ownChoice_unseen he] at h hb
      exact ⟨.here h, hb⟩
    | above hnone hup _ ih =>
      rw [ownChoice_unseen he] at hnone
      obtain ⟨hrest, hb⟩ := ih (unseen_above hl hf hr hrun hup paused) hb
      exact ⟨.above hnone hup hrest, hb⟩
  · rintro ⟨h, hb⟩
    induction h with
    | here h =>
      rw [← ownChoice_unseen he] at h hb
      exact ⟨.here h, hb⟩
    | above hnone hup _ ih =>
      rw [← ownChoice_unseen he] at hnone
      obtain ⟨hrest, hb⟩ := ih (unseen_above hl hf hr hrun hup paused) hb
      exact ⟨.above hnone hup hrest, hb⟩

lemma stateOf_unseen (hl : Lineage w) (hf : Flight w.nextId w.db) {r : Turn} (hr : r ∈ w.db.turns)
    (hrun : r.status = .running) {paused : Bool} {e : LineageEntry}
    (he : Unseen ⟨r.conversationId, r.startedAt, paused⟩ e)
    (h : StateOf w choices u e true) :
    StateOf w (choices ++ [⟨r.conversationId, r.startedAt, paused⟩]) u e true := by
  rcases h with ⟨n, hn⟩ | ⟨-, hfalse⟩
  · exact .inl ⟨n, (chooses_unseen hl hf hr hrun he true).2 hn⟩
  · cases hfalse

end Steps

/-! ### The invariant -/

/-- The ledger keeps to the choices: a conversation has a row exactly if its own last choice was to
pause, and a pause that stands since before a bound is the state of the conversation there. -/
structure Consents (s : ConsentWorld) : Prop where
  lineage : Lineage s.store
  coherent : s.store.Coherent
  pausesBelow : ∀ p ∈ s.pauses, p.conversationId < s.store.nextId
  choicesBelow : ∀ c ∈ s.choices, c.conversationId < s.store.nextId
  kept : ∀ o ∈ s.store.db.origins, ∀ uid, validUserId (some o.userId) = some uid →
    ∀ b, ownChoice s.choices ⟨o.id, none⟩ = some b → (memoryPausedAt s.pauses uid o.id).isSome = b
  truthful : ∀ o ∈ s.store.db.origins, ∀ uid, validUserId (some o.userId) = some uid →
    ∀ before, s.Standing uid ⟨o.id, before⟩ →
      StateOf s.store s.choices o.userId ⟨o.id, before⟩ true

lemma consents_empty : Consents .empty where
  lineage := lineage_empty
  coherent := World.coherent_empty
  pausesBelow := fun p hp => by cases hp
  choicesBelow := fun c hc => by cases hc
  kept := fun o ho => by cases ho
  truthful := fun o ho => by cases ho

/-- The steps of the store keep the invariant. -/
lemma Consents.store {s : ConsentWorld} (h : Consents s) {w' : World}
    (hmove : Move .growing s.store w') : Consents { s with store := w' } := by
  have he := hmove.evolves h.coherent h.lineage
  have hcoherent := h.coherent.move hmove
  have hold : ∀ o ∈ w'.db.origins, o.id < s.store.nextId → o ∈ s.store.db.origins := by
    intro o ho hlt
    obtain ⟨new, hnew, -, hroots⟩ := he.origins
    rw [hnew] at ho
    refine (List.mem_append.1 ho).resolve_right fun ho => ?_
    exact absurd hlt (not_lt.2 (hroots o ho).1)
  constructor
  case lineage => exact h.lineage.evolve h.coherent.flight he
  case coherent => exact hcoherent
  case pausesBelow => exact fun p hp => (h.pausesBelow p hp).trans_le he.nextId
  case choicesBelow => exact fun c hc => (h.choicesBelow c hc).trans_le he.nextId
  case kept =>
    intro o ho uid hu b hb
    refine h.kept o (hold o ho ?_) uid hu b hb
    -- a conversation with a choice was there
    obtain ⟨c, hc, -⟩ := Option.map_eq_some_iff.1 hb
    obtain ⟨hmem, hsees⟩ := List.mem_filter.1 (List.mem_of_getLast? hc)
    have hid : c.conversationId = o.id := (of_decide_eq_true hsees).1
    exact hid ▸ h.choicesBelow c hmem
  case truthful =>
    intro o ho uid hu before hstanding
    obtain ⟨pausedAt, hrow, -⟩ := id hstanding
    have hlt : o.id < s.store.nextId := by
      obtain ⟨p, hp, -⟩ := Option.map_eq_some_iff.1 hrow
      have hid : p.conversationId = o.id := (selectOne_holds hp).2
      exact hid ▸ h.pausesBelow p (selectOne_mem hp)
    rw [stateOf_evolves he h.lineage h.coherent.flight hcoherent.flight hlt]
    exact h.truthful o (hold o ho hlt) uid hu before hstanding

section Decide

variable {rules} {s : ConsentWorld} {u : UserId} {cid : Id} {t : Turn} {uid : Text}

lemma ConsentWorld.running_spec (ht : s.running u cid = some t) :
    t ∈ s.store.db.turns ∧ t.userId = u ∧ t.conversationId = cid ∧ t.status = .running :=
  ⟨selectOne_mem ht, selectOne_holds (p := fun t : Turn => t.userId = u ∧ t.conversationId = cid ∧
    t.status = .running) ht⟩

/-- The conversation of a running turn. -/
lemma Consents.house (h : Consents s) (ht : s.running u cid = some t) :
    ∃ o ∈ s.store.db.origins, o.id = cid ∧ o.userId = u := by
  obtain ⟨hmem, rfl, rfl, -⟩ := ConsentWorld.running_spec ht
  exact h.lineage.housed t hmem

lemma Consents.lineage_ne_nil (h : Consents s) (ht : s.running u cid = some t) :
    getBranchLineage s.store.db u cid ≠ [] := by
  have hself : (⟨cid, none⟩ : LineageEntry) ∈ getBranchLineage s.store.db u cid :=
    (mem_lineageWalk (e := ⟨cid, none⟩) h.lineage h.coherent.flight
      (fun c hc => absurd hc List.not_mem_nil) (h.house ht)).2 ⟨0, by decide, .refl _⟩
  exact List.ne_nil_of_mem hself

/-- A conversation that branches off no pause that stands, and has made no choice, is paused if a
pause above it stands. -/
lemma Consents.inherits (h : Consents s) (hu : validUserId (some u) = some uid)
    (hnone : ownChoice s.choices ⟨cid, none⟩ = none)
    (hfree : ∀ n, Chooses s.store s.choices u ⟨cid, none⟩ n → ownChoice s.choices n = some false →
      ∀ e ∈ (getBranchLineage s.store.db u cid).tail, ∀ m, s.store.Climbs u (m + 1) n e →
        ¬ s.Standing uid e)
    (hhouse : ∃ o ∈ s.store.db.origins, o.id = cid ∧ o.userId = u) {e : LineageEntry}
    (he : e ∈ (getBranchLineage s.store.db u cid).tail) (hstanding : s.Standing uid e) :
    StateOf s.store s.choices u ⟨cid, none⟩ true := by
  obtain ⟨m, -, hclimb⟩ := (mem_tail_getBranchLineage h.lineage h.coherent.flight hhouse).1 he
  cases hclimb with
  | @up _ f _ e₁ _ hstep hrest =>
    -- the pause that stands is the state of its conversation at the branch point
    obtain ⟨o, ho, hid, hou⟩ := hrest.housed h.lineage (hstep.housed h.lineage)
    have htrue : StateOf s.store s.choices u e true := by
      have := h.truthful o ho uid (hou ▸ hu) e.before (hid ▸ hstanding)
      rwa [hid, hou] at this
    rcases htrue with ⟨n, hn, hpaused⟩ | ⟨-, hfalse⟩
    · rcases Chooses.of_climbs hrest hn with hn₁ | ⟨n', k, hn', hclimb'⟩
      · exact .inl ⟨n, .above hnone hstep hn₁, hpaused⟩
      · -- a nearer conversation has chosen, and not to resume
        have hn' := Chooses.above hnone hstep hn'
        obtain ⟨b, hb⟩ := Option.isSome_iff_exists.1 hn'.chosen
        cases b with
        | true => exact .inl ⟨n', hn', hb⟩
        | false => exact absurd hstanding (hfree n' hn' hb e he k hclimb')
    · cases hfalse

/-- The choice a message makes is the last one of its conversation. -/
lemma ownChoice_decided (choices : List Choice) (cid : Id) (startedAt : Instant) (paused : Bool) :
    ownChoice (choices ++ [⟨cid, startedAt, paused⟩]) ⟨cid, none⟩ = some paused := by
  refine ownChoice_seen ?_
  rintro (hne | ⟨b, hb, -⟩)
  · exact hne rfl
  · cases hb

/-- A readable ledger tells a turn the state of its conversation. -/
lemma Consents.found (h : Consents s) (ht : s.running u cid = some t)
    (hu : validUserId (some u) = some uid)
    (hfree : memoryPausedAt s.pauses uid cid = none →
      ∀ n, Chooses s.store s.choices u ⟨cid, none⟩ n →
        (ownChoice s.choices n = some true →
          ∃ e ∈ (getBranchLineage s.store.db u cid).tail, s.Standing uid e) ∧
        (ownChoice s.choices n = some false → ∀ e ∈ (getBranchLineage s.store.db u cid).tail,
          ∀ m, s.store.Climbs u (m + 1) n e → ¬ s.Standing uid e))
    {previously : Bool}
    (hprev : previously = true ↔ (memoryPausedAt s.pauses uid cid).isSome ∨
      ∃ e ∈ (getBranchLineage s.store.db u cid).tail, s.Standing uid e) :
    StateOf s.store s.choices u ⟨cid, none⟩ previously := by
  obtain ⟨o, ho, rfl, rfl⟩ := h.house ht
  cases hrow : memoryPausedAt s.pauses uid o.id with
  | some pausedAt =>
    obtain rfl : previously = true := hprev.2 (.inl (by rw [hrow]; rfl))
    exact h.truthful o ho uid hu none ⟨pausedAt, hrow, fun _ hb => nomatch hb⟩
  | none =>
    have hfree := hfree hrow
    simp only [hrow, Option.isSome_none, Bool.false_eq_true, false_or] at hprev
    cases previously with
    | true =>
      obtain ⟨e, he, hstanding⟩ := hprev.1 rfl
      refine h.inherits hu ?_ (fun n hn => (hfree n hn).2) ⟨o, ho, rfl, rfl⟩ he hstanding
      -- a choice of its own was to resume, and then nothing above stands
      cases hown : ownChoice s.choices ⟨o.id, none⟩ with
      | none => rfl
      | some b =>
        have hb := h.kept o ho uid hu b hown
        rw [hrow] at hb
        obtain rfl : b = false := hb.symm
        obtain ⟨m, -, hclimb⟩ := (mem_tail_getBranchLineage h.lineage h.coherent.flight
          ⟨o, ho, rfl, rfl⟩).1 he
        exact absurd hstanding
          ((hfree ⟨o.id, none⟩ (.here (by rw [hown]; rfl))).2 hown e he m hclimb)
    | false =>
      obtain ⟨b, hb⟩ := exists_stateOf s.store s.choices o.userId ⟨o.id, none⟩
      cases b with
      | false => exact hb
      | true =>
        rcases hb with ⟨n, hn, hpaused⟩ | ⟨-, hfalse⟩
        · exact absurd (hprev.2 ((hfree n hn).1 hpaused)) Bool.false_ne_true
        · cases hfalse

/-- What a turn leaves is the state of its conversation after it. -/
lemma stateOf_decided (rules : ConsentRules) {previously : Bool}
    (hfound : StateOf s.store s.choices u ⟨cid, none⟩ previously) (msg : Text) (startedAt : Instant) :
    StateOf s.store (s.choices ++ ((choiceOf rules msg).map fun paused =>
      (⟨cid, startedAt, paused⟩ : Choice)).toList) u ⟨cid, none⟩
        ((choiceOf rules msg).getD previously) := by
  cases choiceOf rules msg with
  | none => simpa using hfound
  | some paused => exact .own (ownChoice_decided s.choices cid startedAt paused)

/-- Without a choice at all there is none within a bound. -/
lemma ownChoice_bounded {choices : List Choice} (h : ownChoice choices ⟨cid, none⟩ = none)
    (before : Option Instant) : ownChoice choices ⟨cid, before⟩ = none := by
  rw [ownChoice, Option.map_eq_none_iff, List.getLast?_eq_none_iff, List.filter_eq_nil_iff] at h ⊢
  intro c hc hsees
  refine h c hc (decide_eq_true ⟨(of_decide_eq_true hsees).1, ?_⟩)
  exact fun b hb => nomatch hb

/-- The row a turn leaves stands for the state of its conversation. -/
lemma Consents.truthful_here (h : Consents s) (ht : s.running u cid = some t)
    (hu : validUserId (some u) = some uid) {now : Instant} (hstart : t.startedAt ≤ now) {msg : Text}
    {previously : Bool} (hfound : StateOf s.store s.choices u ⟨cid, none⟩ previously)
    {pauses' : List Pause}
    (hself : memoryPausedAt pauses' uid cid = if (choiceOf rules msg).getD previously then
      some ((memoryPausedAt s.pauses uid cid).getD now) else none)
    {pausedAt : Instant} (hrow : memoryPausedAt pauses' uid cid = some pausedAt)
    {before : Option Instant} (hstands : standsBefore pausedAt before) :
    StateOf s.store (s.choices ++ ((choiceOf rules msg).map fun paused =>
      (⟨cid, t.startedAt, paused⟩ : Choice)).toList) u ⟨cid, before⟩ true := by
  obtain ⟨htmem, htu, hconv, hrun⟩ := ConsentWorld.running_spec ht
  obtain ⟨o, ho, rfl, rfl⟩ := h.house ht
  -- a row that was there keeps its time
  have hkept : ∀ at₀, memoryPausedAt s.pauses uid o.id = some at₀ → pausedAt = at₀ := by
    intro at₀ hat
    rw [hself, hat] at hrow
    split at hrow
    · exact (Option.some.inj hrow).symm
    · cases hrow
  have hold : ∀ at₀, memoryPausedAt s.pauses uid o.id = some at₀ →
      StateOf s.store s.choices o.userId ⟨o.id, before⟩ true := by
    intro at₀ hat
    exact h.truthful o ho uid hu before ⟨at₀, hat, hkept at₀ hat ▸ hstands⟩
  cases hchoice : choiceOf rules msg with
  | some paused =>
    cases paused with
    | false =>
      rw [hself, hchoice] at hrow
      cases hrow
    | true =>
      by_cases hseen : Unseen ⟨o.id, t.startedAt, true⟩ ⟨o.id, before⟩
      · cases hat : memoryPausedAt s.pauses uid o.id with
        | some at₀ =>
          have hseen : Unseen ⟨t.conversationId, t.startedAt, true⟩ ⟨o.id, before⟩ :=
            hconv.symm ▸ hseen
          have hstate := stateOf_unseen h.lineage h.coherent.flight htmem hrun hseen (hold at₀ hat)
          rwa [hconv] at hstate
        | none =>
          -- the pause begins now, after the bound
          rw [hself, hchoice, hat] at hrow
          obtain rfl : now = pausedAt := Option.some.inj hrow
          rcases hseen with hne | ⟨b, hb, hlt⟩
          · exact absurd rfl hne
          · exact absurd ((hstart.trans (hstands b hb)).trans_lt hlt) (lt_irrefl _)
      · exact .own (ownChoice_seen hseen)
  | none =>
    simp only [Option.map_none, Option.toList_none, List.append_nil]
    cases hat : memoryPausedAt s.pauses uid o.id with
    | some at₀ => exact hold at₀ hat
    | none =>
      rw [hself, hchoice, Option.getD_none] at hrow
      cases previously with
      | false => cases hrow
      | true =>
        -- the pause was inherited, at every bound alike
        rcases hfound with ⟨n, hn, hpaused⟩ | ⟨-, hfalse⟩
        · cases hn with
          | here =>
            have hrow := h.kept o ho uid hu true hpaused
            rw [hat] at hrow
            cases hrow
          | above hnone hup hrest =>
            exact .inl ⟨n, .above (ownChoice_bounded hnone before) hup hrest, hpaused⟩
        · cases hfalse

/-- The decisions of turns keep the invariant. -/
lemma Consents.decide (h : Consents s) {now : Instant} {msg : Text} {readable : Bool}
    (hmeets : s.Meets rules (.decide now u cid msg readable)) :
    Consents (s.act rules (.decide now u cid msg readable)) := by
  rw [ConsentWorld.act]
  cases ht : s.running u cid with
  | none => exact h
  | some t =>
    obtain ⟨hstart, hreads, uid, hu, hfree⟩ := hmeets t ht
    obtain ⟨htmem, htu, hconv, hrun⟩ := ConsentWorld.running_spec ht
    obtain ⟨o, ho, hid, hou⟩ := h.house ht
    have hbelow : cid < s.store.nextId := hconv ▸ h.lineage.turnsBelow htmem
    cases readable with
    | false =>
      -- nothing is written, and nothing was chosen
      have hnone : choiceOf rules msg = none := by
        cases hchoice : choiceOf rules msg with
        | none => rfl
        | some b => exact absurd (hreads (by rw [hchoice]; rfl)) Bool.false_ne_true
      have hledger := (apply_unreadable rules hu cid msg (getBranchLineage s.store.db u cid) now).2.2
      simp only [ConsentWorld.decision, hnone, Bool.false_eq_true, if_false, hledger]
      simpa using h
    | true =>
      obtain ⟨previously, -, hprev, -, pauses', hledger, hself, hother, hmem⟩ := apply_spec rules hu
        s.pauses cid msg (h.lineage_ne_nil ht) now
      have hfound := h.found ht hu hfree hprev
      simp only [ConsentWorld.decision, if_true, hledger, Option.getD_some]
      -- the conversations other than this one
      have hne : ∀ o' ∈ s.store.db.origins, o'.id ≠ cid → ∀ uid',
          memoryPausedAt pauses' uid' o'.id = memoryPausedAt s.pauses uid' o'.id :=
        fun o' _ hne uid' => hother uid' o'.id fun hkey => hne hkey.2
      have hthis : ∀ o' ∈ s.store.db.origins, o'.id = cid → o'.userId = u := by
        intro o' ho' hid'
        rw [h.lineage.originIds.eq ho' ho (hid'.trans hid.symm), hou]
      constructor
      case lineage => exact h.lineage
      case coherent => exact h.coherent
      case pausesBelow =>
        intro p hp
        rcases hmem p hp with hp | hp
        · exact h.pausesBelow p hp
        · exact hp ▸ hbelow
      case choicesBelow =>
        intro c hc
        rcases List.mem_append.1 hc with hc | hc
        · exact h.choicesBelow c hc
        · obtain ⟨paused, -, rfl⟩ := Option.map_eq_some_iff.1 (Option.mem_toList.1 hc)
          exact hbelow
      case kept =>
        intro o' ho' uid' hu' b hb
        by_cases hid' : o'.id = cid
        · obtain rfl : uid' = uid := by
            rw [hthis o' ho' hid', hu] at hu'
            exact (Option.some.inj hu').symm
          have hstate := stateOf_decided rules hfound msg t.startedAt
          rw [hid'] at hb ⊢
          have hfinal := StateOf.unique h.lineage h.coherent.flight hstate (.own hb)
          rw [hself, hfinal]
          cases b <;> rfl
        · rw [hne o' ho' hid']
          refine h.kept o' ho' uid' hu' b ?_
          rw [← hb]
          cases choiceOf rules msg with
          | none => simp
          | some paused => exact (ownChoice_unseen (.inl hid')).symm
      case truthful =>
        intro o' ho' uid' hu' before hstanding
        obtain ⟨pausedAt, hrow, hstands⟩ := hstanding
        by_cases hid' : o'.id = cid
        · obtain rfl : uid' = uid := by
            rw [hthis o' ho' hid', hu] at hu'
            exact (Option.some.inj hu').symm
          subst hid'
          rw [hthis o' ho' rfl]
          exact h.truthful_here ht hu hstart hfound hself hrow hstands
        · have hold : StateOf s.store s.choices o'.userId ⟨o'.id, before⟩ true := by
            refine h.truthful o' ho' uid' hu' before ⟨pausedAt, ?_, hstands⟩
            rw [← hne o' ho' hid']
            exact hrow
          cases choiceOf rules msg with
          | none => simpa using hold
          | some paused =>
            subst hconv
            exact stateOf_unseen h.lineage h.coherent.flight htmem hrun (.inl hid') hold

end Decide

/-! ### Every run -/

lemma consents_after {rules : ConsentRules} {as : List ConsentAction}
    (has : Runs.Along (ConsentWorld.act rules) (ConsentWorld.Meets rules) .empty as) :
    Consents (ConsentWorld.after rules as) := by
  refine Runs.run_preserves_along ?_ consents_empty has
  intro s a hs ha
  cases a with
  | store a =>
    refine Moves.preserve (I := fun w => Consents { s with store := w }) ?_ (act_moves ha) hs
    exact fun w w' hw hmove => hw.store hmove
  | decide now u cid msg readable => exact hs.decide ha

/-- Two messages of the tests, and all others. -/
def plainConsent : ConsentRules where
  optOutScope msg :=
    if msg = Text.ofString "From now on, don't remember anything I tell you." then
      some .conversation
    else none
  resumes msg := msg = Text.ofString "OK, you can remember things again."

/-- A user opts out in the first turn of a conversation and branches it after the second. -/
def branchedPause : List ConsentAction :=
  [.store (.startRequestTurn sampleProcess 0 sampleStart),
    .decide 0 sampleStart.userId 1 (Text.ofString "From now on, don't remember anything I tell you.")
      true,
    .store (.finalizeRequestTurn 1 sampleStart.userId 0 (sampleAnswer 0)),
    .store (.startRequestTurn sampleProcess 2 { sampleStart with
      conversationId := some 1, requestId := Text.ofString "r2" }),
    .store (.finalizeRequestTurn 3 sampleStart.userId 2 (sampleAnswer 2)),
    .store (.planFork sampleStart.userId 1 none none none),
    .store (.commitBranch 4 0),
    .store (.startRequestTurn sampleProcess 5 { sampleStart with
      conversationId := some 4, requestId := Text.ofString "r3" })]

/-- The user resumes in the first turn of the branch, and the branch goes on. -/
def resumedBranch : List ConsentAction :=
  branchedPause ++
    [.decide 5 sampleStart.userId 4 (Text.ofString "OK, you can remember things again.") true,
      .store (.finalizeRequestTurn 6 sampleStart.userId 7 (sampleAnswer 7)),
      .store (.startRequestTurn sampleProcess 7 { sampleStart with
        conversationId := some 4, requestId := Text.ofString "r4" })]

end RentCompass.Memory
