import RentCompass.Store.Moves

/-!
# Single-flight turns

The leases and the running turns of the store name each other, in every state any interleaving
leads to. The invariant `Flight` also counts answers: a turn has at most one assistant message,
and none while it runs. A statement that ends turns keeps it as long as it deletes the leases of
exactly the turns it ends (`Flight.endTurns`); every transaction is an instance of that rule, of
the deletion rule or of the two rules that add turns.
-/

namespace RentCompass.Store

open Rows

/-- The turn an assistant message answers. -/
def Message.answered (m : Message) : Option Id := if m.role = .assistant then m.turnId else none

/-- The single-flight invariant; ids below `n` have been drawn. -/
structure Flight (n : Id) (db : Db) : Prop where
  turnIds : Keyed (·.id) db.turns
  turnsBelow : ∀ t ∈ db.turns, t.id < n
  leaseKeys : Keyed (fun l : Lease => (l.userId, l.conversationId)) db.leases
  held : ∀ l ∈ db.leases, ∃ t ∈ db.turns, t.id = l.turnId ∧ t.userId = l.userId ∧
    t.conversationId = l.conversationId ∧ t.status = .running
  holds : ∀ t ∈ db.turns, t.status = .running → ∃ l ∈ db.leases, l.turnId = t.id ∧
    l.userId = t.userId ∧ l.conversationId = t.conversationId
  answers : (db.messages.filterMap Message.answered).Nodup
  answersBelow : ∀ m ∈ db.messages, ∀ tid, m.answered = some tid → tid < n
  unanswered : ∀ t ∈ db.turns, t.status = .running → ∀ m ∈ db.messages, m.answered ≠ some t.id

namespace Flight

variable {n : Id} {db db' : Db}

lemma empty (n : Id) : Flight n .empty where
  turnIds := keyed_nil
  turnsBelow := by simp [Db.empty]
  leaseKeys := keyed_nil
  held := by simp [Db.empty]
  holds := by simp [Db.empty]
  answers := by simp [Db.empty]
  answersBelow := by simp [Db.empty]
  unanswered := by simp [Db.empty]

lemma mono {n' : Id} (h : Flight n db) (hn : n ≤ n') : Flight n' db :=
  { h with
    turnsBelow := fun t ht => lt_of_lt_of_le (h.turnsBelow t ht) hn
    answersBelow := fun m hm tid ht => lt_of_lt_of_le (h.answersBelow m hm tid ht) hn }

/-- The invariant looks at three tables only. -/
lemma congr (h : Flight n db) (ht : db'.turns = db.turns) (hl : db'.leases = db.leases)
    (hm : db'.messages = db.messages) : Flight n db' where
  turnIds := ht ▸ h.turnIds
  turnsBelow := ht ▸ h.turnsBelow
  leaseKeys := hl ▸ h.leaseKeys
  held := by rw [ht, hl]; exact h.held
  holds := by rw [ht, hl]; exact h.holds
  answers := hm ▸ h.answers
  answersBelow := hm ▸ h.answersBelow
  unanswered := by rw [ht, hm]; exact h.unanswered

/-- The turn of a lease is one turn. -/
lemma turn_of_lease (h : Flight n db) {t : Turn} {l : Lease} (ht : t ∈ db.turns)
    (hl : l ∈ db.leases) (he : t.id = l.turnId) :
    t.userId = l.userId ∧ t.conversationId = l.conversationId ∧ t.status = .running := by
  obtain ⟨t', ht', hid, hu, hc, hr⟩ := h.held l hl
  have : t = t' := h.turnIds.eq ht ht' (he.trans hid.symm)
  subst this
  exact ⟨hu, hc, hr⟩

/-! ### Rules for statements -/

/-- Turns are ended and the leases of exactly these turns deleted. Messages may be added, as long
as they answer no turn that goes on. -/
lemma endTurns_answering (h : Flight n db) {p : Turn → Prop} [DecidablePred p] {f : Turn → Turn}
    {q : Lease → Prop} [DecidablePred q]
    (hid : ∀ t, (f t).id = t.id) (hend : ∀ t, (f t).status ≠ .running)
    (hpq : ∀ t ∈ db.turns, ∀ l ∈ db.leases, t.id = l.turnId → (p t ↔ q l))
    (ht : db'.turns = updateWhere p f db.turns) (hl : db'.leases = deleteWhere q db.leases)
    (hanswers : (db'.messages.filterMap Message.answered).Nodup)
    (hbelow : ∀ m ∈ db'.messages, ∀ tid, m.answered = some tid → tid < n)
    (hun : ∀ t ∈ db.turns, t.status = .running → ¬ p t → ∀ m ∈ db'.messages,
      m.answered ≠ some t.id) : Flight n db' where
  turnIds := ht ▸ h.turnIds.updateWhere fun t _ _ => hid t
  turnsBelow := by
    intro t hmem
    rw [ht] at hmem
    rcases mem_updateWhere_cases hmem with ⟨hold, -⟩ | ⟨t₀, ht₀, -, rfl⟩
    · exact h.turnsBelow t hold
    · rw [hid t₀]
      exact h.turnsBelow t₀ ht₀
  leaseKeys := hl ▸ h.leaseKeys.deleteWhere
  held := by
    intro l hmem
    rw [hl, mem_deleteWhere] at hmem
    obtain ⟨t, htmem, he, hrest⟩ := h.held l hmem.1
    have hnp : ¬ p t := fun hp => hmem.2 ((hpq t htmem l hmem.1 he).1 hp)
    exact ⟨t, ht ▸ mem_updateWhere_of_not htmem hnp, he, hrest⟩
  holds := by
    intro t hmem hrun
    rw [ht] at hmem
    rcases mem_updateWhere_cases hmem with ⟨hmem, hnp⟩ | ⟨t₀, -, -, rfl⟩
    · obtain ⟨l, hlmem, he, hrest⟩ := h.holds t hmem hrun
      have hnq : ¬ q l := fun hq => hnp ((hpq t hmem l hlmem he.symm).2 hq)
      exact ⟨l, by rw [hl, mem_deleteWhere]; exact ⟨hlmem, hnq⟩, he, hrest⟩
    · exact absurd hrun (hend t₀)
  answers := hanswers
  answersBelow := hbelow
  unanswered := by
    intro t hmem hrun
    rw [ht] at hmem
    rcases mem_updateWhere_cases hmem with ⟨hmem, hnp⟩ | ⟨t₀, -, -, rfl⟩
    · exact hun t hmem hrun hnp
    · exact absurd hrun (hend t₀)

/-- Turns are ended and the leases of exactly these turns deleted. -/
lemma endTurns (h : Flight n db) {p : Turn → Prop} [DecidablePred p] {f : Turn → Turn}
    {q : Lease → Prop} [DecidablePred q]
    (hid : ∀ t, (f t).id = t.id) (hend : ∀ t, (f t).status ≠ .running)
    (hpq : ∀ t ∈ db.turns, ∀ l ∈ db.leases, t.id = l.turnId → (p t ↔ q l))
    (ht : db'.turns = updateWhere p f db.turns) (hl : db'.leases = deleteWhere q db.leases)
    (hm : db'.messages = db.messages) : Flight n db' :=
  h.endTurns_answering hid hend hpq ht hl (hm ▸ h.answers) (hm ▸ h.answersBelow)
    fun t htm hrun _ => hm ▸ h.unanswered t htm hrun

/-- Turns are marked failed and the leases of exactly these turns deleted. -/
lemma failTurns (h : Flight n db) {p : Turn → Prop} [DecidablePred p] {q : Lease → Prop}
    [DecidablePred q] {now : Instant}
    (hpq : ∀ t ∈ db.turns, ∀ l ∈ db.leases, t.id = l.turnId → (p t ↔ q l))
    (ht : db'.turns = updateWhere p
      (fun t => { t with status := .failed, completedAt := some now }) db.turns)
    (hl : db'.leases = deleteWhere q db.leases) (hm : db'.messages = db.messages) :
    Flight n db' := by
  refine h.endTurns ?_ ?_ hpq ht hl hm
  · intro t
    rfl
  · intro t hr
    cases hr

/-- Turns are deleted with the leases of exactly these turns. -/
lemma deleteTurns (h : Flight n db) {p : Turn → Prop} [DecidablePred p] {q : Lease → Prop}
    [DecidablePred q] {r : Message → Prop} [DecidablePred r]
    (hpq : ∀ t ∈ db.turns, ∀ l ∈ db.leases, t.id = l.turnId → (p t ↔ q l))
    (ht : db'.turns = deleteWhere p db.turns) (hl : db'.leases = deleteWhere q db.leases)
    (hm : db'.messages = deleteWhere r db.messages) : Flight n db' where
  turnIds := ht ▸ h.turnIds.deleteWhere
  turnsBelow := fun t hmem => h.turnsBelow t (mem_of_mem_deleteWhere (ht ▸ hmem))
  leaseKeys := hl ▸ h.leaseKeys.deleteWhere
  held := by
    intro l hmem
    rw [hl, mem_deleteWhere] at hmem
    obtain ⟨t, htmem, he, hrest⟩ := h.held l hmem.1
    have hnp : ¬ p t := fun hp => hmem.2 ((hpq t htmem l hmem.1 he).1 hp)
    exact ⟨t, by rw [ht, mem_deleteWhere]; exact ⟨htmem, hnp⟩, he, hrest⟩
  holds := by
    intro t hmem hrun
    rw [ht, mem_deleteWhere] at hmem
    obtain ⟨l, hlmem, he, hrest⟩ := h.holds t hmem.1 hrun
    have hnq : ¬ q l := fun hq => hmem.2 ((hpq t hmem.1 l hlmem he.symm).2 hq)
    exact ⟨l, by rw [hl, mem_deleteWhere]; exact ⟨hlmem, hnq⟩, he, hrest⟩
  answers := by
    rw [hm]
    exact h.answers.sublist (List.filter_sublist.filterMap _)
  answersBelow := fun m hmem => h.answersBelow m (mem_of_mem_deleteWhere (hm ▸ hmem))
  unanswered := fun t htm hrun m hmm =>
    h.unanswered t (mem_of_mem_deleteWhere (ht ▸ htm)) hrun m (mem_of_mem_deleteWhere (hm ▸ hmm))

/-- Turns that do not run are added under new ids, with messages that answer new turns only. -/
lemma addTurns (h : Flight n db) {n' : Id} {ts : List Turn} {ms : List Message}
    (hn : n ≤ n') (hids : Keyed (·.id) ts) (hnew : ∀ t ∈ ts, n ≤ t.id ∧ t.id < n')
    (hstatus : ∀ t ∈ ts, t.status ≠ .running)
    (hms : (ms.filterMap Message.answered).Nodup)
    (hmsNew : ∀ m ∈ ms, ∀ tid, m.answered = some tid → n ≤ tid ∧ tid < n')
    (ht : db'.turns = db.turns ++ ts) (hl : db'.leases = db.leases)
    (hm : db'.messages = db.messages ++ ms) : Flight n' db' where
  turnIds := by
    rw [ht]
    refine h.turnIds.append hids fun t htm t' htm' => ?_
    exact (lt_of_lt_of_le (h.turnsBelow t htm) (hnew t' htm').1).ne
  turnsBelow := by
    intro t hmem
    rw [ht, List.mem_append] at hmem
    rcases hmem with hmem | hmem
    · exact lt_of_lt_of_le (h.turnsBelow t hmem) hn
    · exact (hnew t hmem).2
  leaseKeys := hl ▸ h.leaseKeys
  held := by
    intro l hmem
    obtain ⟨t, htm, hrest⟩ := h.held l (hl ▸ hmem)
    exact ⟨t, by rw [ht]; exact List.mem_append_left _ htm, hrest⟩
  holds := by
    intro t hmem hrun
    rw [ht, List.mem_append] at hmem
    rcases hmem with hmem | hmem
    · rw [hl]; exact h.holds t hmem hrun
    · exact absurd hrun (hstatus t hmem)
  answers := by
    rw [hm, List.filterMap_append, List.nodup_append]
    refine ⟨h.answers, hms, fun a ha b hb hab => ?_⟩
    obtain ⟨m, hmm, hma⟩ := List.mem_filterMap.1 ha
    obtain ⟨m', hmm', hmb⟩ := List.mem_filterMap.1 hb
    have hlt : a < b := lt_of_lt_of_le (h.answersBelow m hmm a hma) (hmsNew m' hmm' b hmb).1
    exact hlt.ne hab
  answersBelow := by
    intro m hmem tid htid
    rw [hm, List.mem_append] at hmem
    rcases hmem with hmem | hmem
    · exact lt_of_lt_of_le (h.answersBelow m hmem tid htid) hn
    · exact (hmsNew m hmem tid htid).2
  unanswered := by
    intro t htm hrun m hmm
    rw [ht, List.mem_append] at htm
    rw [hm, List.mem_append] at hmm
    rcases htm with htm | htm
    · rcases hmm with hmm | hmm
      · exact h.unanswered t htm hrun m hmm
      · intro he
        exact absurd (h.turnsBelow t htm) (not_lt.2 (hmsNew m hmm _ he).1)
    · exact absurd hrun (hstatus t htm)

/-- A running turn is added together with its lease, in a conversation that has none. -/
lemma addRunning (h : Flight n db) {p : Process} {a : StartArgs} {now : Instant} {tid cid : Id}
    (htid : n ≤ tid) (hfree : db.leaseOf a.userId cid = none) :
    Flight (tid + 1) (db.insertTurn p a now tid cid) where
  turnIds := by
    refine h.turnIds.append_one fun t htm => ?_
    exact (lt_of_lt_of_le (h.turnsBelow t htm) htid).ne
  turnsBelow := by
    intro t hmem
    rcases List.mem_append.1 hmem with hmem | hmem
    · exact (lt_of_lt_of_le (h.turnsBelow t hmem) htid).trans (Nat.lt_succ_self tid)
    · rw [List.mem_singleton.1 hmem]
      exact Nat.lt_succ_self tid
  leaseKeys := by
    refine h.leaseKeys.append_one fun l hlm hkey => ?_
    rw [Db.leaseOf, selectOne_eq_none] at hfree
    simp only [Prod.mk.injEq] at hkey
    exact hfree l hlm hkey
  held := by
    intro l hmem
    rcases List.mem_append.1 hmem with hmem | hmem
    · obtain ⟨t, htm, hrest⟩ := h.held l hmem
      exact ⟨t, List.mem_append_left _ htm, hrest⟩
    · rw [List.mem_singleton.1 hmem]
      exact ⟨_, List.mem_append_right _ (List.mem_singleton_self _), rfl, rfl, rfl, rfl⟩
  holds := by
    intro t hmem hrun
    rcases List.mem_append.1 hmem with hmem | hmem
    · obtain ⟨l, hlm, hrest⟩ := h.holds t hmem hrun
      exact ⟨l, List.mem_append_left _ hlm, hrest⟩
    · rw [List.mem_singleton.1 hmem]
      exact ⟨_, List.mem_append_right _ (List.mem_singleton_self _), rfl, rfl, rfl⟩
  answers := by
    have : ((db.insertTurn p a now tid cid).messages).filterMap Message.answered
        = db.messages.filterMap Message.answered := by
      simp [Db.insertTurn, Db.insertMessage, userMessage, Message.answered]
    rw [this]
    exact h.answers
  answersBelow := by
    intro m hmem t' ht'
    rcases List.mem_append.1 hmem with hmem | hmem
    · have hlt := lt_of_lt_of_le (h.answersBelow m hmem t' ht') htid
      exact hlt.trans (Nat.lt_succ_self tid)
    · rw [List.mem_singleton.1 hmem] at ht'
      simp [Message.answered, userMessage] at ht'
  unanswered := by
    intro t htm hrun m hmm
    rcases List.mem_append.1 hmm with hmm | hmm
    · rcases List.mem_append.1 htm with htm | htm
      · exact h.unanswered t htm hrun m hmm
      · rw [List.mem_singleton.1 htm]
        intro he
        exact absurd (h.answersBelow m hmm tid he) (not_lt.2 htid)
    · rw [List.mem_singleton.1 hmm]
      simp [Message.answered, userMessage]

end Flight

/-! ### Plans of branches -/

/-- What a plan holds from its reads: an edit has the completed turns it copies. -/
def BranchPlan.Sound (plan : BranchPlan) : Prop :=
  match plan.kind with
  | .fork .. => True
  | .edit _ srcTurns _ _ => ∀ t ∈ srcTurns, t.status = .completed

/-- A branch copies completed turns. -/
lemma BranchPlan.Sound.srcTurns {plan : BranchPlan} (h : plan.Sound) (db : Db) :
    ∀ t ∈ plan.srcTurns db, t.status = .completed := by
  unfold BranchPlan.srcTurns
  unfold BranchPlan.Sound at h
  cases hk : plan.kind with
  | fork afterTurnId forkTurn => exact fun t ht => (mem_completedTurns.1 ht).2.2.2.1
  | edit turnId srcTurns cutoff anchor =>
    rw [hk] at h
    exact h

/-- What the reads of a fork lead to. -/
lemma forkConversationPlan_ok {db : Db} {u : UserId} {source : Id} {afterTurnId : Option Id}
    {title key : Option Text} {plan : BranchPlan}
    (h : forkConversationPlan db u source afterTurnId title key = .ok (.plan plan)) :
    ∃ src forkTurn, db.conversationOf u source = some src ∧
      resolveForkTurn db u source afterTurnId = .ok forkTurn ∧
      plan = { userId := u, source := src, title := title, idempotencyKey := key,
               kind := .fork afterTurnId forkTurn } := by
  simp only [forkConversationPlan, bind, Except.bind, pure, Except.pure] at h
  split at h
  · cases h
  split at h
  · simp at h
  split at h
  · cases h
  · next src hsrc =>
    split at h
    · cases h
    · next forkTurn hfork =>
      cases h
      exact ⟨src, forkTurn, hsrc, hfork, rfl⟩

/-- What the reads of an edit lead to. -/
lemma branchForEditPlan_ok {db : Db} {u : UserId} {source turnId : Id} {title key : Option Text}
    {plan : BranchPlan}
    (h : branchForEditPlan db u source turnId title key = .ok (.plan plan)) :
    ∃ src edited, db.conversationOf u source = some src ∧ db.turnOf u turnId = some edited ∧
      edited.conversationId = source ∧
      plan = { userId := u, source := src, title := title, idempotencyKey := key,
               kind := .edit turnId (completedTurns db u source (· < edited.startedAt))
                 (editCutoff edited (completedTurns db u source (· < edited.startedAt)))
                 (resolveSlotAnchor db u src turnId) } := by
  simp only [branchForEditPlan, bind, Except.bind, pure, Except.pure] at h
  split at h
  · cases h
  split at h
  · simp at h
  split at h
  · cases h
  · next src hsrc =>
    split at h
    · cases h
    · next edited hedited =>
      split at h
      · cases h
      · next hconv =>
        cases h
        exact ⟨src, edited, hsrc, hedited, by simpa using hconv, rfl⟩

/-- The plans a move leaves are sound. -/
lemma Move.plans {T : Terms} {w w' : World} (h : ∀ plan ∈ w.plans, plan.Sound)
    (hmove : Move T w w') : ∀ plan ∈ w'.plans, plan.Sound := by
  cases hmove with
  | quiet hsame => exact fun plan hplan => h plan (hsame.plans plan hplan)
  | plan hread =>
    intro plan hplan
    rcases List.mem_append.1 hplan with hplan | hplan
    · exact h plan hplan
    · rw [List.mem_singleton.1 hplan]
      rcases hread with ⟨u, source, afterTurnId, title, key, hread⟩ | ⟨u, source, tid, title, key,
        hread⟩
      · obtain ⟨src, forkTurn, -, -, rfl⟩ := forkConversationPlan_ok hread
        trivial
      · obtain ⟨src, edited, -, -, -, rfl⟩ := branchForEditPlan_ok hread
        exact fun t ht => (mem_completedTurns.1 ht).2.2.2.1
  | _ => exact h

/-! ### Copies of a branch -/

lemma mem_copiedTurns {fresh : Id} {u : UserId} {child : Id} {messages : List (Nat × Nat)}
    {srcTurns : List Turn} {t : Turn} (h : t ∈ copiedTurns fresh u child messages srcTurns) :
    ∃ (i : Nat) (t₀ : Turn), srcTurns[i]? = some t₀ ∧
      t = { t₀ with id := fresh + i, userId := u, conversationId := child,
                    userMessageId := t₀.userMessageId.bind (List.lookup · messages),
                    assistantMessageId := t₀.assistantMessageId.bind (List.lookup · messages) } := by
  obtain ⟨⟨t₀, i⟩, hmem, rfl⟩ := List.mem_map.1 h
  exact ⟨i, t₀, List.mk_mem_zipIdx_iff_getElem?.1 hmem, rfl⟩

/-- A copied message answers the copy of the turn that the message answers, if that is copied. -/
lemma answered_copiedMessages (next : Nat) (u : UserId) (child : Id) (turns : List (Id × Id))
    (ms : List Message) :
    (copiedMessages next u child turns ms).filterMap Message.answered
      = (ms.filterMap Message.answered).filterMap (List.lookup · turns) := by
  have hcopy : ∀ mi : Message × Nat, Message.answered
      { mi.1 with id := next + mi.2, userId := u, conversationId := child,
                  turnId := mi.1.turnId.bind (List.lookup · turns) }
      = mi.1.answered.bind (List.lookup · turns) := by
    intro mi
    by_cases hrole : mi.1.role = .assistant <;> simp [Message.answered, hrole]
  rw [copiedMessages, List.filterMap_map, List.filterMap_filterMap]
  conv_rhs => rw [← List.zipIdx_map_fst 0 ms, List.filterMap_map]
  exact List.filterMap_congr fun mi _ => hcopy mi

namespace Flight

variable {n : Id} {db : Db}

/-- The copies of a branch answer copies of turns only, and no copy twice. -/
lemma addBranch (h : Flight n db) (u : UserId) (source child : Id) {srcTurns : List Turn}
    (cutoff : Option Nat) (hdone : ∀ t ∈ srcTurns, t.status = .completed) :
    Flight (n + 1 + srcTurns.length)
      (db.addBranch (n + 1) u source child srcTurns cutoff) := by
  have hcopies : ∀ tid ∈ ((inheritedMessages db u source srcTurns cutoff).filterMap
      Message.answered).filterMap (List.lookup · (turnMap (n + 1) srcTurns)),
      n ≤ tid ∧ tid < n + 1 + srcTurns.length := by
    intro tid htid
    obtain ⟨old, -, hlook⟩ := List.mem_filterMap.1 htid
    obtain ⟨hle, hlt⟩ := lookup_renumber_lt hlook
    exact ⟨(Nat.le_succ n).trans hle, hlt⟩
  refine h.addTurns ((Nat.le_add_right n 1).trans (Nat.le_add_right _ _))
    (keyed_copies (fun _ _ => rfl) srcTurns) ?_ ?_ ?_ ?_ rfl rfl rfl
  · intro t ht
    obtain ⟨i, t₀, hi, rfl⟩ := mem_copiedTurns ht
    obtain ⟨hlt, -⟩ := List.getElem?_eq_some_iff.1 hi
    exact ⟨(Nat.le_add_right n 1).trans (Nat.le_add_right _ _), Nat.add_lt_add_left hlt _⟩
  · intro t ht
    obtain ⟨i, t₀, hi, rfl⟩ := mem_copiedTurns ht
    rw [hdone t₀ (List.mem_of_getElem? hi)]
    simp
  · rw [answered_copiedMessages]
    refine (h.answers.sublist (List.filter_sublist.filterMap _)).filterMap ?_
    intro a a' b hb hb'
    exact lookup_renumber_inj hb hb'
  · intro m hm tid htid
    refine hcopies tid ?_
    rw [← answered_copiedMessages db.nextMessageId u child]
    exact List.mem_filterMap.2 ⟨m, hm, htid⟩

/-! ### Every move keeps the invariant -/

/-- Closing the one running turn of that name with an answer. -/
lemma closeTurn (h : Flight n db) {u : UserId} {tid : Id} {turn : Turn} {m : Message}
    {status : TurnStatus} {mid : Nat} {now : Instant} (hturn : db.turnOf u tid = some turn)
    (hrun : turn.status = .running) (hstatus : status ≠ .running)
    (hm : m.answered = some tid) :
    Flight n (((db.insertMessage m).closeTurn u tid status mid now).releaseTurn u tid) := by
  have hmem := selectOne_mem hturn
  obtain ⟨hu, hid⟩ := selectOne_holds hturn
  have hanswers : (((db.insertMessage m).messages).filterMap Message.answered)
      = db.messages.filterMap Message.answered ++ [tid] := by
    have hm' : Message.answered { m with id := db.nextMessageId } = some tid := hm
    simp [Db.insertMessage, List.filterMap_append, hm']
  have hfresh : ∀ m' ∈ db.messages, m'.answered ≠ some tid := hid ▸ h.unanswered turn hmem hrun
  refine h.endTurns_answering (p := fun t => t.userId = u ∧ t.id = tid ∧ t.status = .running)
    (f := fun t => { t with status := status, completedAt := some now,
                            assistantMessageId := some mid })
    (q := fun l => l.userId = u ∧ l.turnId = tid) (fun _ => rfl) (fun _ => hstatus) ?_ rfl rfl ?_ ?_ ?_
  · intro t ht l hl he
    obtain ⟨hu', -, hr⟩ := h.turn_of_lease ht hl he
    rw [hu', he]
    exact ⟨fun hp => ⟨hp.1, hp.2.1⟩, fun hq => ⟨hq.1, hq.2, hr⟩⟩
  · show ((db.insertMessage m).messages.filterMap Message.answered).Nodup
    rw [hanswers, List.nodup_append]
    refine ⟨h.answers, by simp, fun a ha b hb hab => ?_⟩
    obtain ⟨m', hm', ha⟩ := List.mem_filterMap.1 ha
    rw [hab, List.mem_singleton.1 hb] at ha
    exact hfresh m' hm' ha
  · intro m' hm' t ht
    rcases List.mem_append.1 hm' with hm' | hm'
    · exact h.answersBelow m' hm' t ht
    · rw [List.mem_singleton.1 hm'] at ht
      have : tid = t := Option.some.inj (hm.symm.trans ht)
      rw [← this, ← hid]
      exact h.turnsBelow turn hmem
  · intro t ht hr hp m' hm'
    rcases List.mem_append.1 hm' with hm' | hm'
    · exact h.unanswered t ht hr m' hm'
    · rw [List.mem_singleton.1 hm']
      intro he
      have htid : t.id = tid := (Option.some.inj (hm.symm.trans he)).symm
      have : t = turn := h.turnIds.eq ht hmem (htid.trans hid.symm)
      subst this
      exact hp ⟨hu, hid, hr⟩

theorem move {T : Terms} {w w' : World} (h : Flight w.nextId w.db)
    (hplans : ∀ plan ∈ w.plans, plan.Sound) (hmove : Move T w w') :
    Flight w'.nextId w'.db := by
  cases hmove with
  | quiet hsame => exact (h.congr hsame.turns hsame.leases hsame.messages).mono hsame.nextId
  | plan hread => exact h
  | converse u title agentArch agentVersion strict now =>
    have hinsert : Flight w.nextId
        (createConversation now w.nextId u title agentArch agentVersion strict w.db) :=
      h.congr rfl rfl rfl
    exact hinsert.mono (Nat.le_succ _)
  | dropConversations hT conversations => exact h.congr rfl rfl rfl
  | abandon u tid now =>
    refine h.failTurns ?_ rfl rfl rfl
    intro t ht l hl he
    obtain ⟨hu, -, hr⟩ := h.turn_of_lease ht hl he
    rw [hu, he]
    exact ⟨fun hp => ⟨hp.1, hp.2.1⟩, fun hq => ⟨hq.1, hq.2, hr⟩⟩
  | @evict u cid l now hl =>
    refine h.failTurns ?_ rfl rfl rfl
    have hlm := selectOne_mem hl
    obtain ⟨hlu, hlc⟩ := selectOne_holds hl
    intro t ht l' hl' he
    obtain ⟨hu, hc, hr⟩ := h.turn_of_lease ht hl' he
    constructor
    · rintro ⟨htu, hid, -⟩
      obtain ⟨-, hc', -⟩ := h.turn_of_lease ht hlm hid
      exact ⟨hu ▸ htu, hc ▸ hc'.trans hlc⟩
    · rintro ⟨hlu', hlc'⟩
      have : l' = l := h.leaseKeys.eq hl' hlm (by simp [hlu, hlc, hlu', hlc'])
      subst this
      exact ⟨hu.trans hlu, he, hr⟩
  | start p a now cid created hcreated hexists hfree hnamed hkey hticks =>
    cases created with
    | true =>
      have hrelease : Flight w.nextId ((w.db.insertConversation (rootConversation a.userId
          a.createTitle a.agentArch a.agentVersion a.strict cid now)).releaseRequest a.userId
          a.key) := h.congr rfl rfl rfl
      exact (hrelease.addRunning le_rfl hfree).mono (Nat.le_succ _)
    | false =>
      have hrelease : Flight w.nextId (w.db.releaseRequest a.userId a.key) := h.congr rfl rfl rfl
      exact (hrelease.addRunning le_rfl hfree).mono (Nat.le_succ _)
  | finish hturn hrun hstatus hT hm =>
    refine h.closeTurn hturn hrun hstatus ?_
    subst hm
    exact congrArg some (selectOne_holds hturn).2
  | failTurn hT now u tid =>
    refine h.failTurns ?_ rfl rfl rfl
    intro t ht l hl he
    rw [(h.turn_of_lease ht hl he).1, he]
  | deleteConversation hT u cid =>
    refine h.deleteTurns ?_ rfl rfl rfl
    intro t ht l hl he
    obtain ⟨hu, hc, -⟩ := h.turn_of_lease ht hl he
    rw [hu, hc]
  | deleteUser hT u =>
    refine h.deleteTurns ?_ rfl rfl rfl
    intro t ht l hl he
    rw [(h.turn_of_lease ht hl he).1]
  | erase hT u now =>
    refine h.failTurns ?_ rfl rfl rfl
    intro t ht l hl he
    obtain ⟨hu, -, hr⟩ := h.turn_of_lease ht hl he
    constructor
    · rintro ⟨htu, -, -⟩
      exact hu ▸ htu
    · intro hlu
      refine ⟨hu.trans hlu, ?_, hr⟩
      exact List.mem_map.2 ⟨l, by simp [Db.leasesOf, hl, hlu], he.symm⟩
  | @branch plan hplan now =>
    have hinsert : Flight w.nextId (w.db.insertConversation (plan.child w.nextId now)) :=
      h.congr rfl rfl rfl
    exact hinsert.addBranch plan.userId plan.source.id w.nextId plan.cutoff
      ((hplans plan hplan).srcTurns _)

end Flight

/-! ### Where turns come from -/

/-- Where a turn comes from in one move. -/
lemma Move.turnOrigin {T : Terms} {w w' : World} (hmove : Move T w w') {t' : Turn}
    (ht' : t' ∈ w'.db.turns) :
    w.nextId ≤ t'.id ∨ ∃ t ∈ w.db.turns, t.id = t'.id ∧ t.userId = t'.userId ∧
      (t'.status = .completed → t.status = .completed ∨ T.completes t'.id) ∧
      (t'.status = .running → t.status = .running) := by
  have hupdate : ∀ {p : Turn → Prop} [DecidablePred p] {f : Turn → Turn},
      t' ∈ updateWhere p f w.db.turns →
      (∀ t, (f t).id = t.id ∧ (f t).userId = t.userId ∧ (f t).status ≠ .running) →
      (∀ t, p t → (f t).status = .completed → T.completes t.id) →
      ∃ t ∈ w.db.turns, t.id = t'.id ∧ t.userId = t'.userId ∧
        (t'.status = .completed → t.status = .completed ∨ T.completes t'.id) ∧
        (t'.status = .running → t.status = .running) := by
    intro p _ f hmem hkeep hdone
    rcases mem_updateWhere_cases hmem with ⟨hold, -⟩ | ⟨t, ht, hp, rfl⟩
    · exact ⟨t', hold, rfl, rfl, .inl, fun h => h⟩
    · exact ⟨t, ht, (hkeep t).1.symm, (hkeep t).2.1.symm,
        fun h => .inr ((hkeep t).1 ▸ hdone t hp h), fun h => absurd h (hkeep t).2.2⟩
  have hkept : t' ∈ w.db.turns → ∃ t ∈ w.db.turns, t.id = t'.id ∧ t.userId = t'.userId ∧
      (t'.status = .completed → t.status = .completed ∨ T.completes t'.id) ∧
      (t'.status = .running → t.status = .running) :=
    fun h => ⟨t', h, rfl, rfl, .inl, fun h => h⟩
  cases hmove with
  | quiet hsame => exact .inr (hkept (hsame.turns ▸ ht'))
  | plan => exact .inr (hkept ht')
  | converse => exact .inr (hkept ht')
  | dropConversations => exact .inr (hkept ht')
  | abandon => exact .inr (hupdate ht' (fun _ => ⟨rfl, rfl, by simp⟩) fun _ _ h => by cases h)
  | evict => exact .inr (hupdate ht' (fun _ => ⟨rfl, rfl, by simp⟩) fun _ _ h => by cases h)
  | start p a now cid created hcreated hexists hfree hnamed hkey hticks =>
    have hmem : t' ∈ w.db.turns ++ [freshTurn a now w.nextId cid w.db.nextMessageId] := by
      cases created <;> exact ht'
    rcases List.mem_append.1 hmem with h | h
    · exact .inr (hkept h)
    · rw [List.mem_singleton.1 h]
      exact .inl le_rfl
  | finish hturn hrun hstatus hT hm =>
    exact .inr (hupdate ht' (fun _ => ⟨rfl, rfl, hstatus⟩) fun t hp h => hp.2.1 ▸ hT h)
  | branch hplan now =>
    rcases List.mem_append.1 ht' with h | h
    · exact .inr (hkept h)
    · obtain ⟨i, t₀, -, rfl⟩ := mem_copiedTurns h
      exact .inl ((Nat.le_add_right _ 1).trans (Nat.le_add_right _ _))
  | failTurn => exact .inr (hupdate ht' (fun _ => ⟨rfl, rfl, by simp⟩) fun _ _ h => by cases h)
  | erase => exact .inr (hupdate ht' (fun _ => ⟨rfl, rfl, by simp⟩) fun _ _ h => by cases h)
  | deleteConversation => exact .inr (hkept (mem_of_mem_deleteWhere ht'))
  | deleteUser => exact .inr (hkept (mem_of_mem_deleteWhere ht'))

/-- What one move adds to the history of completed turns. -/
lemma Move.completedGrow {T : Terms} {w w' : World} (hmove : Move T w w') :
    w.history.completed ⊆ w'.history.completed ∧
      ∀ tid ∈ w'.history.completed, tid ∈ w.history.completed ∨ T.completes tid := by
  cases hmove with
  | quiet hsame =>
    rw [hsame.completed]
    exact ⟨fun _ h => h, fun _ h => .inl h⟩
  | @finish now u tid f turn m recommendations metadata hturn hrun hstatus hT hm =>
    refine ⟨fun _ h => List.mem_append_left _ h, fun tid' h => ?_⟩
    rcases List.mem_append.1 h with h | h
    · exact .inl h
    · split at h
      · next hdone =>
        rw [List.mem_singleton.1 h]
        exact .inr (hT hdone)
      · cases h
  | _ => exact ⟨fun _ h => h, fun _ h => .inl h⟩

/-! ### Every run -/

/-- The invariant of the system: single flight, sound plans, and leases that
`start_request_turn` inserted. -/
structure World.Coherent (w : World) : Prop where
  flight : Flight w.nextId w.db
  plans : ∀ plan ∈ w.plans, plan.Sound
  leases : ∀ l ∈ w.db.leases, ∃ s ∈ w.history.started, s.turnId = l.turnId ∧ s.userId = l.userId

/-- Every lease is one that a start inserted. -/
lemma Move.leases {T : Terms} {w w' : World}
    (h : ∀ l ∈ w.db.leases, ∃ s ∈ w.history.started, s.turnId = l.turnId ∧ s.userId = l.userId)
    (hmove : Move T w w') :
    ∀ l ∈ w'.db.leases, ∃ s ∈ w'.history.started, s.turnId = l.turnId ∧ s.userId = l.userId := by
  cases hmove with
  | quiet hsame =>
    rw [hsame.leases, hsame.started]
    exact h
  | start p a now cid created hcreated hexists hfree hnamed hkey hticks =>
    intro l hl
    have hl' : l ∈ w.db.leases ++ [freshLease p a now w.nextId cid] := by
      cases created <;> exact hl
    rcases List.mem_append.1 hl' with hl | hl
    · obtain ⟨s, hs, hrest⟩ := h l hl
      exact ⟨s, List.mem_append_left _ hs, hrest⟩
    · rw [List.mem_singleton.1 hl]
      exact ⟨_, List.mem_append_right _ (List.mem_singleton_self _), rfl, rfl⟩
  | plan => exact h
  | converse => exact h
  | dropConversations => exact h
  | branch => exact h
  | abandon => exact fun l hl => h l (mem_of_mem_deleteWhere hl)
  | evict => exact fun l hl => h l (mem_of_mem_deleteWhere hl)
  | finish => exact fun l hl => h l (mem_of_mem_deleteWhere hl)
  | failTurn => exact fun l hl => h l (mem_of_mem_deleteWhere hl)
  | deleteConversation => exact fun l hl => h l (mem_of_mem_deleteWhere hl)
  | deleteUser => exact fun l hl => h l (mem_of_mem_deleteWhere hl)
  | erase => exact fun l hl => h l (mem_of_mem_deleteWhere hl)

lemma World.coherent_empty : World.empty.Coherent where
  flight := Flight.empty 0
  plans := by simp [World.empty]
  leases := by simp [World.empty, Db.empty]

lemma World.Coherent.move {T : Terms} {w w' : World} (h : w.Coherent) (hmove : Move T w w') :
    w'.Coherent where
  flight := h.flight.move h.plans hmove
  plans := hmove.plans h.plans
  leases := hmove.leases h.leases

lemma World.Coherent.act {w : World} (h : w.Coherent) (a : Action) : (w.act a).Coherent :=
  Moves.preserve (fun _ _ hw hm => hw.move hm) (act_moves (w.meets_any a)) h

theorem coherent_after (as : List Action) : (World.after as).Coherent :=
  Runs.run_preserves (fun _ a h => h.act a) World.coherent_empty as

/-- The turn `tid` has failed, or has failed and is gone. -/
def World.Failed (tid : Id) (w : World) : Prop :=
  tid < w.nextId ∧ ∀ t ∈ w.db.turns, t.id = tid → t.status = .failed

/-- Nothing revives a failed turn. -/
lemma Move.failed {T : Terms} {w w' : World} {tid : Id} (h : w.Failed tid)
    (hmove : Move T w w') :
    w'.Failed tid := by
  obtain ⟨hlt, hfailed⟩ := h
  have hupdate : ∀ {p : Turn → Prop} [DecidablePred p] {f : Turn → Turn},
      (∀ t, (f t).id = t.id) → (∀ t, p t → t.status = .running ∨ (f t).status = .failed) →
      ∀ t ∈ updateWhere p f w.db.turns, t.id = tid → t.status = .failed := by
    intro p _ f hid hf t ht htid
    rcases mem_updateWhere_cases ht with ⟨hold, -⟩ | ⟨t₀, hold, hp, rfl⟩
    · exact hfailed t hold htid
    · rcases hf t₀ hp with hr | hr
      · rw [hfailed t₀ hold ((hid t₀).symm.trans htid)] at hr
        cases hr
      · exact hr
  cases hmove with
  | quiet hsame => exact ⟨lt_of_lt_of_le hlt hsame.nextId, by rw [hsame.turns]; exact hfailed⟩
  | plan => exact ⟨hlt, hfailed⟩
  | converse => exact ⟨hlt.trans (Nat.lt_succ_self _), hfailed⟩
  | dropConversations => exact ⟨hlt, hfailed⟩
  | start p a now cid created hcreated hexists hfree hnamed hkey hticks =>
    refine ⟨hlt.trans (Nat.lt_add_of_pos_right Nat.two_pos), fun t ht htid => ?_⟩
    have ht' : t ∈ w.db.turns ++ [freshTurn a now w.nextId cid w.db.nextMessageId] := by
      cases created <;> exact ht
    rcases List.mem_append.1 ht' with ht | ht
    · exact hfailed t ht htid
    · rw [List.mem_singleton.1 ht] at htid
      exact absurd hlt (htid ▸ lt_irrefl _)
  | branch hplan now =>
    refine ⟨hlt.trans_le ((Nat.le_add_right _ 1).trans (Nat.le_add_right _ _)), fun t ht htid => ?_⟩
    rcases List.mem_append.1 ht with ht | ht
    · exact hfailed t ht htid
    · obtain ⟨i, t₀, -, rfl⟩ := mem_copiedTurns ht
      have hge : w.nextId ≤ w.nextId + 1 + i :=
        (Nat.le_add_right _ 1).trans (Nat.le_add_right _ _)
      exact absurd hlt (htid ▸ not_lt.2 hge)
  | abandon => exact ⟨hlt, hupdate (fun _ => rfl) fun t _ => .inr rfl⟩
  | evict => exact ⟨hlt, hupdate (fun _ => rfl) fun t _ => .inr rfl⟩
  | finish => exact ⟨hlt, hupdate (fun _ => rfl) fun t hp => .inl hp.2.2⟩
  | failTurn => exact ⟨hlt, hupdate (fun _ => rfl) fun t _ => .inr rfl⟩
  | deleteConversation => exact ⟨hlt, fun t ht => hfailed t (mem_of_mem_deleteWhere ht)⟩
  | deleteUser => exact ⟨hlt, fun t ht => hfailed t (mem_of_mem_deleteWhere ht)⟩
  | erase => exact ⟨hlt, hupdate (fun _ => rfl) fun t _ => .inr rfl⟩

lemma World.Failed.run {w : World} {tid : Id} (hw : w.Coherent) (h : w.Failed tid)
    (as : List Action) : (Runs.run World.act w as).Failed tid :=
  Runs.run_preserves_under (fun _ a h => h.act a)
    (fun w a _ hf => Moves.preserve (fun _ _ hf hm => hm.failed hf) (act_moves (w.meets_any a)) hf)
    hw h as

/-- After any interleaving, at most one turn of a conversation runs; the running turns and the
leases name each other; a turn that has failed is never completed; and no turn has two assistant
messages. -/
theorem turns_single_flight (as : List Action) :
    (∀ u cid, (World.after as).db.turns.countP
      (fun t => t.userId = u ∧ t.conversationId = cid ∧ t.status = .running) ≤ 1) ∧
    (∀ t ∈ (World.after as).db.turns, t.status = .running →
      ∃ l, (World.after as).db.leaseOf t.userId t.conversationId = some l ∧ l.turnId = t.id) ∧
    (∀ l ∈ (World.after as).db.leases,
      (∃ t ∈ (World.after as).db.turns, t.id = l.turnId ∧ t.userId = l.userId ∧
        t.conversationId = l.conversationId ∧ t.status = .running) ∧
      ∃ s ∈ (World.after as).history.started, s.turnId = l.turnId ∧ s.userId = l.userId) ∧
    (∀ t ∈ (World.after as).db.turns, t.status = .failed → ∀ as',
      ∀ t' ∈ (Runs.run World.act (World.after as) as').db.turns, t'.id = t.id →
        t'.status ≠ .completed) ∧
    ∀ tid, (World.after as).db.messages.countP
      (fun m => m.role = .assistant ∧ m.turnId = some tid) ≤ 1 := by
  have hw := coherent_after as
  have hlease : ∀ t ∈ (World.after as).db.turns, t.status = .running →
      ∃ l, (World.after as).db.leaseOf t.userId t.conversationId = some l ∧ l.turnId = t.id := by
    intro t ht hr
    obtain ⟨l, hl, htid, hu, hc⟩ := hw.flight.holds t ht hr
    refine ⟨l, selectOne_eq_some hl ⟨hu, hc⟩ fun l' hl' hkey => ?_, htid⟩
    exact hw.flight.leaseKeys.eq hl' hl (by simp [hkey, hu, hc])
  refine ⟨fun u cid => ?_, hlease, fun l hl => ⟨hw.flight.held l hl, hw.leases l hl⟩, ?_, ?_⟩
  · refine hw.flight.turnIds.countP_le_one fun t ht t' ht' => ?_
    rintro ⟨rfl, rfl, hr⟩ ⟨hu, hc, hr'⟩
    obtain ⟨l, hl, htid⟩ := hlease t ht hr
    obtain ⟨l', hl', htid'⟩ := hlease t' ht' hr'
    rw [hu, hc, hl] at hl'
    rw [← htid, ← htid', Option.some.inj hl']
  · intro t ht hfailed as' t' ht' hid
    have hf : (World.after as).Failed t.id := by
      refine ⟨hw.flight.turnsBelow t ht, fun t₁ ht₁ hid₁ => ?_⟩
      rw [hw.flight.turnIds.eq ht₁ ht hid₁]
      exact hfailed
    rw [(hf.run hw as').2 t' ht' hid]
    simp
  · intro tid
    have hcount := List.nodup_iff_count_le_one.1 hw.flight.answers tid
    rw [List.count_filterMap] at hcount
    refine le_of_eq_of_le (List.countP_congr fun m _ => ?_) hcount
    by_cases hrole : m.role = .assistant <;> simp [Message.answered, hrole]

end RentCompass.Store
