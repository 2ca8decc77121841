import RentCompass.Store.SingleFlight

/-!
# Request ids

A request id names one turn at a time. The invariant `Requests` ties the rows of `turn_requests`
to the history: the latest start under an id is the turn the id names, for as long as the row of
that turn exists, and an earlier start under the id has failed and was never delivered.
-/

namespace RentCompass.Store

open Rows

/-- The latest start under a request id. -/
def History.latest (h : History) (u : UserId) (rid : Text) : Option Start :=
  (h.started.filter fun s => s.userId = u ∧ s.requestId = rid).getLast?

lemma History.latest_append (h : History) (s : Start) (u : UserId) (rid : Text) :
    History.latest { h with started := h.started ++ [s] } u rid
      = if s.userId = u ∧ s.requestId = rid then some s else h.latest u rid := by
  by_cases hs : s.userId = u ∧ s.requestId = rid <;> simp [History.latest, List.filter_append, hs]

/-- The message that answers a turn, when there is one, is a message of the conversation. -/
def World.Answers (w : World) : Prop :=
  ∀ t ∈ w.db.turns, ∀ mid, t.assistantMessageId = some mid →
    ∃ m ∈ w.db.messages, m.id = mid ∧ m.userId = t.userId ∧ m.conversationId = t.conversationId

/-- The turn `t` was asked with the text `content`. -/
def World.Asked (w : World) (t : Turn) (content : Text) : Prop :=
  ∃ m ∈ w.db.messages, t.userMessageId = some m.id ∧ m.userId = t.userId ∧
    m.conversationId = t.conversationId ∧ m.content = safeText content

/-- The turn `t` is over and holds an answer other than a notice of its cancellation. -/
def World.Delivered (w : World) (t : Turn) : Prop :=
  t.status ≠ .running ∧ ∃ m ∈ w.db.messages, t.assistantMessageId = some m.id ∧
    m.userId = t.userId ∧ m.conversationId = t.conversationId ∧ m.isCancellation = false

/-- A row of `turn_requests` lets the id name the turn. -/
def World.Names (w : World) (u : UserId) (rid : Text) (t : Turn) : Prop :=
  ∃ r ∈ w.db.turnRequests, r.turnId = t.id ∧ r.userId = u ∧ r.requestId = rid

/-- The invariant of the request ids. -/
structure Requests (w : World) : Prop where
  requestKeys : Keyed (fun r : TurnRequest => (r.userId, r.requestId)) w.db.turnRequests
  named : ∀ r ∈ w.db.turnRequests, ∃ t ∈ w.db.turns, t.id = r.turnId ∧ t.userId = r.userId ∧
    t.conversationId = r.conversationId
  messageIds : Keyed (fun m : Message => m.id) w.db.messages
  messagesBelow : ∀ m ∈ w.db.messages, m.id < w.db.nextMessageId
  answers : w.Answers
  startedBelow : ∀ s ∈ w.history.started, s.turnId < w.nextId
  startedKeys : ∀ s ∈ w.history.started, s.requestId ≠ []
  deliveredBelow : ∀ tid ∈ w.history.delivered, tid < w.nextId
  asked : ∀ s ∈ w.history.started, ∀ t ∈ w.db.turns, t.id = s.turnId →
    t.userId = s.userId ∧ w.Asked t s.userContent
  delivered : ∀ tid ∈ w.history.delivered, ∀ t ∈ w.db.turns, t.id = tid → w.Delivered t
  released : ∀ s ∈ w.history.started, ∀ t ∈ w.db.turns, t.id = s.turnId →
    w.Names s.userId s.requestId t ∨
      t.status = .failed ∧ neverDelivered w.db s.userId t = true
  latest : ∀ u rid s, w.history.latest u rid = some s → ∀ t ∈ w.db.turns, t.id = s.turnId →
    w.Names u rid t

/-! ### Rows that a move keeps -/

/-- The turn `t'` is what a move makes of `t`: only a running turn gets an answer, and a turn
that is over stays as it is or becomes failed. -/
structure Turn.Kept (t t' : Turn) : Prop where
  id : t'.id = t.id
  userId : t'.userId = t.userId
  conversationId : t'.conversationId = t.conversationId
  userMessageId : t'.userMessageId = t.userMessageId
  assistantMessageId : t.status ≠ .running → t'.assistantMessageId = t.assistantMessageId
  status : t.status ≠ .running → t'.status = t.status ∨ t'.status = .failed

lemma Turn.Kept.refl (t : Turn) : t.Kept t :=
  ⟨rfl, rfl, rfl, rfl, fun _ => rfl, fun _ => .inl rfl⟩

/-- The turns of `w'` are kept from `w` or new, and a kept turn keeps the messages of its
conversation. -/
structure Frame (w w' : World) : Prop where
  turns : ∀ t' ∈ w'.db.turns, (∃ t ∈ w.db.turns, t.Kept t') ∨ w.nextId ≤ t'.id
  messages : ∀ t' ∈ w'.db.turns, t'.id < w.nextId → ∀ m ∈ w.db.messages, m.userId = t'.userId →
    m.conversationId = t'.conversationId → m ∈ w'.db.messages

section Frame

variable {w w' : World} (hf : Frame w w')

include hf

/-- A turn with an old id is kept. -/
lemma Frame.kept {t' : Turn} (ht' : t' ∈ w'.db.turns) (hlt : t'.id < w.nextId) :
    ∃ t ∈ w.db.turns, t.Kept t' :=
  (hf.turns t' ht').resolve_right (not_le.2 hlt)

lemma Frame.asked {t t' : Turn} (ht' : t' ∈ w'.db.turns) (hlt : t'.id < w.nextId)
    (hk : t.Kept t') {content : Text} (h : w.Asked t content) : w'.Asked t' content := by
  obtain ⟨m, hm, hid, hu, hc, hcontent⟩ := h
  rw [← hk.userId] at hu
  rw [← hk.conversationId] at hc
  exact ⟨m, hf.messages t' ht' hlt m hm hu hc, hk.userMessageId.trans hid, hu, hc, hcontent⟩

lemma Frame.delivered {t t' : Turn} (ht' : t' ∈ w'.db.turns) (hlt : t'.id < w.nextId)
    (hk : t.Kept t') (h : w.Delivered t) : w'.Delivered t' := by
  obtain ⟨hrun, m, hm, hid, hu, hc, hanswer⟩ := h
  rw [← hk.userId] at hu
  rw [← hk.conversationId] at hc
  refine ⟨?_, m, hf.messages t' ht' hlt m hm hu hc, (hk.assistantMessageId hrun).trans hid, hu, hc,
    hanswer⟩
  rcases hk.status hrun with h | h
  · rw [h]
    exact hrun
  · rw [h]
    simp

/-- A failed turn that was never delivered stays so. -/
lemma Frame.neverDelivered (hanswers : w.Answers)
    (hids : Keyed (fun m : Message => m.id) w.db.messages)
    (hids' : Keyed (fun m : Message => m.id) w'.db.messages) {t t' : Turn}
    (ht : t ∈ w.db.turns) (ht' : t' ∈ w'.db.turns) (hlt : t'.id < w.nextId) (hk : t.Kept t')
    {u : UserId} (hfailed : t.status = .failed)
    (h : Store.neverDelivered w.db u t = true) :
    t'.status = .failed ∧ Store.neverDelivered w'.db u t' = true := by
  have hrun : t.status ≠ .running := by
    rw [hfailed]
    simp
  constructor
  · rcases hk.status hrun with h | h
    · exact h.trans hfailed
    · exact h
  · unfold Store.neverDelivered at h ⊢
    rw [hk.assistantMessageId hrun]
    split
    · rfl
    · next mid hmid =>
      rw [hmid] at h
      obtain ⟨m, hm, hcancel⟩ := Option.any_eq_true _ _ |>.1 h
      have hmem := selectOne_mem hm
      obtain ⟨hu, hid⟩ := selectOne_holds hm
      obtain ⟨m₁, hm₁, hid₁, hu₁, hc₁⟩ := hanswers t ht mid hmid
      have hsame : m = m₁ := hids.eq hmem hm₁ (hid.trans hid₁.symm)
      subst hsame
      have hmem' : m ∈ w'.db.messages := hf.messages t' ht' hlt m hmem
        (hu₁.trans hk.userId.symm) (hc₁.trans hk.conversationId.symm)
      have hfound : w'.db.messageOf u mid = some m :=
        selectOne_eq_some hmem' ⟨hu, hid⟩ fun m' hm' hp => hids'.eq hm' hmem' (hp.2.trans hid.symm)
      rw [hfound]
      exact hcancel

end Frame

/-! ### Rules for moves -/

namespace Requests

variable {w w' : World}

/-- A move that starts no turn keeps the invariant when it keeps the rows and the request ids of
the turns that stay, and every turn it lets be delivered has an answer. -/
lemma frame (h : Requests w) (hf : Frame w w')
    (hids : Keyed (fun m : Message => m.id) w'.db.messages)
    (hbelow : ∀ m ∈ w'.db.messages, m.id < w'.db.nextMessageId) (hanswers : w'.Answers)
    (hkeys : Keyed (fun r : TurnRequest => (r.userId, r.requestId)) w'.db.turnRequests)
    (hnamed : ∀ r ∈ w'.db.turnRequests, ∃ t ∈ w'.db.turns, t.id = r.turnId ∧
      t.userId = r.userId ∧ t.conversationId = r.conversationId)
    (hkeep : ∀ r ∈ w.db.turnRequests, ∀ t ∈ w'.db.turns, t.id = r.turnId → t.id < w.nextId →
      r ∈ w'.db.turnRequests)
    (hn : w.nextId ≤ w'.nextId) (hs : w'.history.started = w.history.started)
    (hd : ∀ tid ∈ w'.history.delivered, tid ∈ w.history.delivered ∨
      tid < w.nextId ∧ ∀ t ∈ w'.db.turns, t.id = tid → w'.Delivered t) : Requests w' where
  requestKeys := hkeys
  named := hnamed
  messageIds := hids
  messagesBelow := hbelow
  answers := hanswers
  startedBelow := fun s hsm => lt_of_lt_of_le (h.startedBelow s (hs ▸ hsm)) hn
  startedKeys := fun s hsm => h.startedKeys s (hs ▸ hsm)
  deliveredBelow := by
    intro tid htid
    rcases hd tid htid with hold | ⟨hlt, -⟩
    · exact lt_of_lt_of_le (h.deliveredBelow tid hold) hn
    · exact lt_of_lt_of_le hlt hn
  asked := by
    intro s hsm t' ht' hid
    rw [hs] at hsm
    have hlt : t'.id < w.nextId := hid ▸ h.startedBelow s hsm
    obtain ⟨t, ht, hk⟩ := hf.kept ht' hlt
    obtain ⟨hu, hasked⟩ := h.asked s hsm t ht (hk.id.symm.trans hid)
    exact ⟨hk.userId.trans hu, hf.asked ht' hlt hk hasked⟩
  delivered := by
    intro tid htid t' ht' hid
    rcases hd tid htid with hold | ⟨-, hnew⟩
    · have hlt : t'.id < w.nextId := hid ▸ h.deliveredBelow tid hold
      obtain ⟨t, ht, hk⟩ := hf.kept ht' hlt
      exact hf.delivered ht' hlt hk (h.delivered tid hold t ht (hk.id.symm.trans hid))
    · exact hnew t' ht' hid
  released := by
    intro s hsm t' ht' hid
    rw [hs] at hsm
    have hlt : t'.id < w.nextId := hid ▸ h.startedBelow s hsm
    obtain ⟨t, ht, hk⟩ := hf.kept ht' hlt
    rcases h.released s hsm t ht (hk.id.symm.trans hid) with ⟨r, hr, hrid, hrest⟩ | ⟨hfail, hnever⟩
    · exact .inl ⟨r, hkeep r hr t' ht' (hk.id.trans hrid.symm) hlt, hrid.trans hk.id.symm, hrest⟩
    · exact .inr (hf.neverDelivered h.answers h.messageIds hids ht ht' hlt hk hfail hnever)
  latest := by
    intro u rid s hlatest t' ht' hid
    have hlatest' : w.history.latest u rid = some s := by
      rw [History.latest, ← hs]
      exact hlatest
    have hsm : s ∈ w.history.started := List.mem_of_mem_filter (List.mem_of_getLast? hlatest')
    have hlt : t'.id < w.nextId := hid ▸ h.startedBelow s hsm
    obtain ⟨t, ht, hk⟩ := hf.kept ht' hlt
    obtain ⟨r, hr, hrid, hrest⟩ := h.latest u rid s hlatest' t ht (hk.id.symm.trans hid)
    exact ⟨r, hkeep r hr t' ht' (hk.id.trans hrid.symm) hlt, hrid.trans hk.id.symm, hrest⟩

/-- Turns are marked failed, and nothing else the invariant looks at changes. -/
lemma failTurns (h : Requests w) {p : Turn → Prop} [DecidablePred p] {now : Instant}
    (ht : w'.db.turns = updateWhere p
      (fun t => { t with status := .failed, completedAt := some now }) w.db.turns)
    (hm : w'.db.messages = w.db.messages) (hr : w'.db.turnRequests = w.db.turnRequests)
    (hk : w'.db.nextMessageId = w.db.nextMessageId) (hn : w.nextId ≤ w'.nextId)
    (hs : w'.history.started = w.history.started)
    (hd : w'.history.delivered = w.history.delivered) : Requests w' := by
  have hback : ∀ t' ∈ w'.db.turns, ∃ t ∈ w.db.turns, t.Kept t' ∧
      t'.assistantMessageId = t.assistantMessageId := by
    intro t' ht'
    rw [ht] at ht'
    rcases mem_updateWhere_cases ht' with ⟨hold, -⟩ | ⟨t, hold, -, rfl⟩
    · exact ⟨t', hold, .refl t', rfl⟩
    · exact ⟨t, hold, ⟨rfl, rfl, rfl, rfl, fun _ => rfl, fun _ => .inr rfl⟩, rfl⟩
  refine h.frame ⟨?_, ?_⟩ (hm ▸ h.messageIds) ?_ ?_ (hr ▸ h.requestKeys) ?_ ?_ hn hs ?_
  · intro t' ht'
    obtain ⟨t, hold, hkept, -⟩ := hback t' ht'
    exact .inl ⟨t, hold, hkept⟩
  · intro t' _ _ m hmem _ _
    rw [hm]
    exact hmem
  · rw [hm, hk]
    exact h.messagesBelow
  · intro t' ht' mid hmid
    obtain ⟨t, hold, hkept, hassistant⟩ := hback t' ht'
    obtain ⟨m, hmem, hid, hu, hc⟩ := h.answers t hold mid (hassistant.symm.trans hmid)
    exact ⟨m, hm ▸ hmem, hid, hu.trans hkept.userId.symm, hc.trans hkept.conversationId.symm⟩
  · intro r hrm
    rw [hr] at hrm
    obtain ⟨t, hold, hid, hu, hc⟩ := h.named r hrm
    rw [ht]
    by_cases hp : p t
    · exact ⟨_, mem_updateWhere.2 ⟨t, hold, (if_pos hp).symm⟩, hid, hu, hc⟩
    · exact ⟨t, mem_updateWhere_of_not hold hp, hid, hu, hc⟩
  · intro r hrm t' _ _ _
    rw [hr]
    exact hrm
  · intro tid htid
    exact .inl (hd ▸ htid)

/-- The rows of a condition on user and conversation are deleted. -/
lemma deleteRows (h : Requests w) (hids : Keyed (fun t : Turn => t.id) w.db.turns)
    {c : UserId → Id → Prop} [∀ u cid, Decidable (c u cid)]
    (ht : w'.db.turns = deleteWhere (fun t => c t.userId t.conversationId) w.db.turns)
    (hm : w'.db.messages = deleteWhere (fun m => c m.userId m.conversationId) w.db.messages)
    (hr : w'.db.turnRequests
      = deleteWhere (fun r => c r.userId r.conversationId) w.db.turnRequests)
    (hk : w'.db.nextMessageId = w.db.nextMessageId) (hn : w.nextId ≤ w'.nextId)
    (hs : w'.history.started = w.history.started)
    (hd : w'.history.delivered = w.history.delivered) : Requests w' := by
  have hstay : ∀ t ∈ w'.db.turns, t ∈ w.db.turns ∧ ¬ c t.userId t.conversationId := by
    intro t htm
    rw [ht] at htm
    exact mem_deleteWhere.1 htm
  refine h.frame ⟨?_, ?_⟩ (hm ▸ h.messageIds.deleteWhere) ?_ ?_ (hr ▸ h.requestKeys.deleteWhere)
    ?_ ?_ hn hs ?_
  · intro t htm
    exact .inl ⟨t, (hstay t htm).1, .refl t⟩
  · intro t htm _ m hmem hu hc
    rw [hm, mem_deleteWhere, hu, hc]
    exact ⟨hmem, (hstay t htm).2⟩
  · intro m hmem
    rw [hm] at hmem
    rw [hk]
    exact h.messagesBelow m (mem_of_mem_deleteWhere hmem)
  · intro t htm mid hmid
    obtain ⟨m, hmem, hid, hu, hc⟩ := h.answers t (hstay t htm).1 mid hmid
    refine ⟨m, ?_, hid, hu, hc⟩
    rw [hm, mem_deleteWhere, hu, hc]
    exact ⟨hmem, (hstay t htm).2⟩
  · intro r hrm
    rw [hr, mem_deleteWhere] at hrm
    obtain ⟨t, htm, hid, hu, hc⟩ := h.named r hrm.1
    refine ⟨t, ?_, hid, hu, hc⟩
    rw [ht, mem_deleteWhere, hu, hc]
    exact ⟨htm, hrm.2⟩
  · intro r hrm t htm hid _
    obtain ⟨t₀, ht₀, hid₀, hu, hc⟩ := h.named r hrm
    have hsame : t = t₀ := hids.eq (hstay t htm).1 ht₀ (hid.trans hid₀.symm)
    subst hsame
    rw [hr, mem_deleteWhere, ← hu, ← hc]
    exact ⟨hrm, (hstay t htm).2⟩
  · intro tid htid
    exact .inl (hd ▸ htid)

lemma isCancellation_assistantMessage (turn : Turn) (f : FinalizeArgs)
    (recommendations metadata : Option Json) (now : Instant) (mid : Nat) :
    Message.isCancellation { assistantMessage turn f recommendations metadata now with id := mid }
      = !f.answers := by
  by_cases htype : f.responseType = some errorType <;>
    by_cases htext : (safeText f.assistantContent).strip ∈ cancelledTurnTexts <;>
    simp [Message.isCancellation, FinalizeArgs.answers, assistantMessage, htype, htext]

/-- The turn a request id names is the one `get_request_turn` finds. -/
lemma getRequestTurn (h : Requests w) (hids : Keyed (fun t : Turn => t.id) w.db.turns)
    {u : UserId} {rid : Text} {t : Turn} (ht : t ∈ w.db.turns) (hu : t.userId = u)
    (hn : w.Names u rid t) : Store.getRequestTurn w.db u rid = some t := by
  obtain ⟨r, hr, hrid, hru, hrkey⟩ := hn
  have hrow : selectOne (fun r : TurnRequest => r.userId = u ∧ r.requestId = rid)
      w.db.turnRequests = some r := by
    refine selectOne_eq_some hr ⟨hru, hrkey⟩ fun r' hr' hp => ?_
    exact h.requestKeys.eq hr' hr (by simp [hp, hru, hrkey])
  rw [Store.getRequestTurn, hrow]
  refine selectOne_eq_some ht ⟨hrid.symm, hu.trans hru.symm⟩ fun t' ht' hp => ?_
  exact hids.eq ht' ht (hp.1.trans hrid)

/-- An inserted message gets a new key. -/
lemma insertMessage_ids (h : Requests w) (m : Message) :
    Keyed (fun m : Message => m.id) (w.db.insertMessage m).messages ∧
      ∀ m' ∈ (w.db.insertMessage m).messages, m'.id < w.db.nextMessageId + 1 := by
  constructor
  · refine h.messageIds.append_one fun m' hm' => ?_
    exact (h.messagesBelow m' hm').ne
  · intro m' hm'
    rcases List.mem_append.1 hm' with hm' | hm'
    · exact Nat.lt_succ_of_lt (h.messagesBelow m' hm')
    · rw [List.mem_singleton.1 hm']
      exact Nat.lt_succ_self _

lemma finish (h : Requests w) (hf : Flight w.nextId w.db) {now : Instant} {u : UserId} {tid : Id}
    {f : FinalizeArgs} {turn : Turn} {recommendations metadata : Option Json}
    (hturn : w.db.turnOf u tid = some turn) (hrun : turn.status = .running)
    (hstatus : f.status ≠ .running) : Requests { w with
      db := ((w.db.insertMessage { assistantMessage turn f recommendations metadata now with
        id := w.db.nextMessageId }).closeTurn u tid f.status w.db.nextMessageId now).releaseTurn u tid
      history := w.history.finish tid f } := by
  have hmem := selectOne_mem hturn
  obtain ⟨hu, hid⟩ := selectOne_holds hturn
  -- the one row the update meets is the running turn
  have hback : ∀ t' ∈ ((w.db.insertMessage { assistantMessage turn f recommendations metadata now
      with id := w.db.nextMessageId }).closeTurn u tid f.status w.db.nextMessageId now).turns,
      (t' ∈ w.db.turns ∧ ¬ t'.id = tid) ∨ t' = { turn with
        status := f.status, completedAt := some now,
        assistantMessageId := some w.db.nextMessageId } := by
    intro t' ht'
    rcases mem_updateWhere_cases ht' with ⟨hold, hnot⟩ | ⟨t, hold, hp, rfl⟩
    · refine .inl ⟨hold, fun he => hnot ?_⟩
      rw [hf.turnIds.eq hold hmem (he.trans hid.symm)]
      exact ⟨hu, hid, hrun⟩
    · rw [hf.turnIds.eq hold hmem (hp.2.1.trans hid.symm)]
      exact .inr rfl
  obtain ⟨hids, hbelow⟩ := h.insertMessage_ids
    { assistantMessage turn f recommendations metadata now with id := w.db.nextMessageId }
  refine h.frame ⟨?_, ?_⟩ hids hbelow ?_ h.requestKeys ?_ (fun r hr _ _ _ _ => hr) le_rfl rfl ?_
  · intro t' ht'
    rcases hback t' ht' with ⟨hold, -⟩ | rfl
    · exact .inl ⟨t', hold, .refl t'⟩
    · exact .inl ⟨turn, hmem, rfl, rfl, rfl, rfl, fun hr => absurd hrun hr,
        fun hr => absurd hrun hr⟩
  · intro t' _ _ m hm _ _
    exact List.mem_append_left _ hm
  · intro t' ht' mid hmid
    rcases hback t' ht' with ⟨hold, -⟩ | rfl
    · obtain ⟨m, hm, hrest⟩ := h.answers t' hold mid hmid
      exact ⟨m, List.mem_append_left _ hm, hrest⟩
    · exact ⟨_, List.mem_append_right _ (List.mem_singleton_self _), Option.some.inj hmid, rfl, rfl⟩
  · intro r hr
    obtain ⟨t, htm, hrest⟩ := h.named r hr
    by_cases hp : t.userId = u ∧ t.id = tid ∧ t.status = .running
    · exact ⟨_, mem_updateWhere.2 ⟨t, htm, (if_pos hp).symm⟩, hrest⟩
    · exact ⟨t, mem_updateWhere_of_not htm hp, hrest⟩
  · intro tid' htid'
    rcases List.mem_append.1 htid' with hold | hnew
    · exact .inl hold
    · split at hnew
      · next hanswers =>
        rw [List.mem_singleton.1 hnew]
        refine .inr ⟨hid ▸ hf.turnsBelow turn hmem, fun t' ht' hid' => ?_⟩
        rcases hback t' ht' with ⟨-, hne⟩ | rfl
        · exact absurd hid' hne
        · refine ⟨hstatus, _, List.mem_append_right _ (List.mem_singleton_self _), rfl, rfl, rfl, ?_⟩
          rw [isCancellation_assistantMessage, hanswers]
          rfl
      · cases hnew

lemma branch (h : Requests w) (plan : BranchPlan) (now : Instant) :
    Requests (w.addPlan plan now) := by
  refine h.frame ⟨?_, ?_⟩ ?_ ?_ ?_ h.requestKeys ?_ (fun r hr _ _ _ _ => hr)
    ((Nat.le_add_right _ 1).trans (Nat.le_add_right _ _)) rfl fun tid htid => .inl htid
  · intro t' ht'
    rcases List.mem_append.1 ht' with hold | hnew
    · exact .inl ⟨t', hold, .refl t'⟩
    · obtain ⟨i, t₀, -, rfl⟩ := mem_copiedTurns hnew
      exact .inr ((Nat.le_add_right _ 1).trans (Nat.le_add_right _ _))
  · intro t' _ _ m hm _ _
    exact List.mem_append_left _ hm
  · refine h.messageIds.append (keyed_copies (fun _ _ => rfl) _) fun m hm m' hm' => ?_
    obtain ⟨⟨m₀, i⟩, -, rfl⟩ := List.mem_map.1 hm'
    exact (lt_of_lt_of_le (h.messagesBelow m hm) (Nat.le_add_right _ _)).ne
  · intro m hm
    rcases List.mem_append.1 hm with hm | hm
    · exact lt_of_lt_of_le (h.messagesBelow m hm) (Nat.le_add_right _ _)
    · obtain ⟨⟨m₀, i⟩, hi, rfl⟩ := List.mem_map.1 hm
      obtain ⟨hlt, -⟩ := List.getElem?_eq_some_iff.1 (List.mk_mem_zipIdx_iff_getElem?.1 hi)
      exact Nat.add_lt_add_left hlt _
  · intro t' ht' mid hmid
    rcases List.mem_append.1 ht' with hold | hnew
    · obtain ⟨m, hm, hrest⟩ := h.answers t' hold mid hmid
      exact ⟨m, List.mem_append_left _ hm, hrest⟩
    · obtain ⟨i, t₀, -, rfl⟩ := mem_copiedTurns hnew
      obtain ⟨mid₀, -, hlook⟩ := Option.bind_eq_some_iff.1 hmid
      obtain ⟨j, m₀, hj, -, rfl⟩ := lookup_renumber hlook
      exact ⟨_, List.mem_append_right _ (List.mem_map.2
        ⟨(m₀, j), List.mk_mem_zipIdx_iff_getElem?.2 hj, rfl⟩), rfl, rfl, rfl⟩
  · intro r hr
    obtain ⟨t, htm, hrest⟩ := h.named r hr
    exact ⟨t, List.mem_append_left _ htm, hrest⟩

lemma start (h : Requests w) (hf : Flight w.nextId w.db) (p : Process) (a : StartArgs)
    (now : Instant) (cid : Id)
    (hnamed : ∀ t, Store.getRequestTurn w.db a.userId a.key = some t →
      t.status = .failed ∧ neverDelivered w.db a.userId t = true)
    (hkey : Text.strip a.requestId ≠ []) : Requests (w.beginTurn p a now cid false) := by
  have hturns : ∀ t ∈ (w.beginTurn p a now cid false).db.turns, t ∈ w.db.turns ∨
      t = freshTurn a now w.nextId cid w.db.nextMessageId :=
    fun t ht => (List.mem_append.1 ht).imp_right List.mem_singleton.1
  have hframe : Frame w (w.beginTurn p a now cid false) := by
    refine ⟨fun t ht => ?_, fun t _ _ m hm _ _ => List.mem_append_left _ hm⟩
    rcases hturns t ht with hold | rfl
    · exact .inl ⟨t, hold, .refl t⟩
    · exact .inr le_rfl
  have hold : ∀ t ∈ (w.beginTurn p a now cid false).db.turns, t.id < w.nextId → t ∈ w.db.turns := by
    intro t ht hlt
    rcases hturns t ht with hold | rfl
    · exact hold
    · exact absurd hlt (lt_irrefl _)
  obtain ⟨hids, hbelow⟩ := h.insertMessage_ids (userMessage a now w.nextId cid)
  -- a row of another id stays
  have hrequests : ∀ {u rid t}, w.Names u rid t → ¬ (u = a.userId ∧ rid = a.key) →
      (w.beginTurn p a now cid false).Names u rid t := by
    rintro u rid t ⟨r, hr, hid, hu, hrid⟩ hne
    refine ⟨r, List.mem_append_left _ (mem_deleteWhere.2 ⟨hr, fun hp => hne ?_⟩), hid, hu, hrid⟩
    exact ⟨hu.symm.trans hp.1, hrid.symm.trans hp.2⟩
  have hnew : ∀ t, t.id = w.nextId → (w.beginTurn p a now cid false).Names a.userId a.key t := by
    intro t hid
    exact ⟨_, List.mem_append_right _ (List.mem_singleton_self _), hid.symm, rfl, rfl⟩
  exact
  { requestKeys := by
      refine h.requestKeys.deleteWhere.append_one fun r hr hkeys => ?_
      simp only [Prod.mk.injEq] at hkeys
      exact (mem_deleteWhere.1 hr).2 hkeys
    named := by
      intro r hr
      rcases List.mem_append.1 hr with hr | hr
      · obtain ⟨t, ht, hrest⟩ := h.named r (mem_of_mem_deleteWhere hr)
        exact ⟨t, List.mem_append_left _ ht, hrest⟩
      · rw [List.mem_singleton.1 hr]
        exact ⟨_, List.mem_append_right _ (List.mem_singleton_self _), rfl, rfl, rfl⟩
    messageIds := hids
    messagesBelow := hbelow
    answers := by
      intro t ht mid hmid
      rcases hturns t ht with ht | rfl
      · obtain ⟨m, hm, hrest⟩ := h.answers t ht mid hmid
        exact ⟨m, List.mem_append_left _ hm, hrest⟩
      · cases hmid
    startedBelow := by
      intro s hs
      rcases List.mem_append.1 hs with hs | hs
      · exact (h.startedBelow s hs).trans (Nat.lt_add_of_pos_right Nat.two_pos)
      · rw [List.mem_singleton.1 hs]
        exact Nat.lt_add_of_pos_right Nat.two_pos
    startedKeys := by
      intro s hs
      rcases List.mem_append.1 hs with hs | hs
      · exact h.startedKeys s hs
      · rw [List.mem_singleton.1 hs]
        exact safeText_ne_nil hkey
    deliveredBelow := fun tid htid =>
      (h.deliveredBelow tid htid).trans (Nat.lt_add_of_pos_right Nat.two_pos)
    asked := by
      intro s hs t ht hid
      rcases List.mem_append.1 hs with hs | hs
      · have hlt : t.id < w.nextId := hid ▸ h.startedBelow s hs
        obtain ⟨hu, hasked⟩ := h.asked s hs t (hold t ht hlt) hid
        exact ⟨hu, hframe.asked ht hlt (.refl t) hasked⟩
      · rw [List.mem_singleton.1 hs] at hid ⊢
        rcases hturns t ht with hmem | rfl
        · exact absurd (hf.turnsBelow t hmem) (hid ▸ lt_irrefl _)
        · exact ⟨rfl, _, List.mem_append_right _ (List.mem_singleton_self _), rfl, rfl, rfl, rfl⟩
    delivered := by
      intro tid htid t ht hid
      have hlt : t.id < w.nextId := hid ▸ h.deliveredBelow tid htid
      exact hframe.delivered ht hlt (.refl t) (h.delivered tid htid t (hold t ht hlt) hid)
    released := by
      intro s hs t ht hid
      rcases List.mem_append.1 hs with hs | hs
      · have hlt : t.id < w.nextId := hid ▸ h.startedBelow s hs
        have hmem := hold t ht hlt
        have hkeep : t.status = .failed → neverDelivered w.db s.userId t = true →
            t.status = .failed ∧
              neverDelivered (w.beginTurn p a now cid false).db s.userId t = true :=
          hframe.neverDelivered h.answers h.messageIds hids hmem ht hlt (.refl t)
        rcases h.released s hs t hmem hid with hname | ⟨hfail, hnever⟩
        · by_cases hsame : s.userId = a.userId ∧ s.requestId = a.key
          · -- the turn that the id named gives the id up
            rw [hsame.1, hsame.2] at hname
            have hu : t.userId = a.userId := (h.asked s hs t hmem hid).1.trans hsame.1
            obtain ⟨hfail, hnever⟩ := hnamed t (h.getRequestTurn hf.turnIds hmem hu hname)
            exact .inr (hkeep hfail (by rw [hsame.1]; exact hnever))
          · exact .inl (hrequests hname hsame)
        · exact .inr (hkeep hfail hnever)
      · rw [List.mem_singleton.1 hs] at hid ⊢
        exact .inl (hnew t hid)
    latest := by
      intro u rid s hlatest t ht hid
      have happend := w.history.latest_append (a.record w.nextId) u rid
      replace hlatest := happend.symm.trans hlatest
      split at hlatest
      · next hsame =>
        obtain ⟨rfl, rfl⟩ := hsame
        rw [← Option.some.inj hlatest] at hid
        exact hnew t hid
      · next hne =>
        have hs : s ∈ w.history.started := List.mem_of_mem_filter (List.mem_of_getLast? hlatest)
        have hlt : t.id < w.nextId := hid ▸ h.startedBelow s hs
        refine hrequests (h.latest u rid s hlatest t (hold t ht hlt) hid) fun hp => hne ?_
        exact ⟨hp.1.symm, hp.2.symm⟩ }

/-- Nothing the invariant looks at changes. -/
lemma congr (h : Requests w) (ht : w'.db.turns = w.db.turns)
    (hm : w'.db.messages = w.db.messages) (hr : w'.db.turnRequests = w.db.turnRequests)
    (hk : w'.db.nextMessageId = w.db.nextMessageId) (hn : w.nextId ≤ w'.nextId)
    (hs : w'.history.started = w.history.started)
    (hd : w'.history.delivered = w.history.delivered) : Requests w' := by
  have hnone : w'.db.turns = updateWhere (fun _ : Turn => False)
      (fun t => { t with status := .failed, completedAt := some 0 }) w.db.turns := by
    rw [ht, updateWhere_eq_self (by simp)]
  exact h.failTurns hnone hm hr hk hn hs hd

theorem move {T : Terms} (h : Requests w) (hf : Flight w.nextId w.db) (hmove : Move T w w') :
    Requests w' := by
  cases hmove with
  | quiet hsame =>
    exact h.congr hsame.turns hsame.messages hsame.turnRequests hsame.nextMessageId hsame.nextId
      hsame.started hsame.delivered
  | plan hread => exact h.congr rfl rfl rfl rfl le_rfl rfl rfl
  | converse u title agentArch agentVersion strict now =>
    exact h.congr rfl rfl rfl rfl (Nat.le_succ _) rfl rfl
  | dropConversations hT conversations => exact h.congr rfl rfl rfl rfl le_rfl rfl rfl
  | abandon u tid now => exact h.failTurns rfl rfl rfl rfl le_rfl rfl rfl
  | evict now hl => exact h.failTurns rfl rfl rfl rfl le_rfl rfl rfl
  | failTurn hT now u tid => exact h.failTurns rfl rfl rfl rfl le_rfl rfl rfl
  | erase hT u now => exact h.failTurns rfl rfl rfl rfl le_rfl rfl rfl
  | start p a now cid created hcreated hexists hfree hnamed hkey hticks =>
    cases created with
    | true =>
      have hinsert : Requests { w with db := w.db.insertConversation (rootConversation a.userId
          a.createTitle a.agentArch a.agentVersion a.strict cid now) } :=
        h.congr rfl rfl rfl rfl le_rfl rfl rfl
      exact hinsert.start (hf.congr rfl rfl rfl) p a now cid hnamed hkey
    | false => exact h.start hf p a now cid hnamed hkey
  | finish hturn hrun hstatus hT hm =>
    subst hm
    exact h.finish hf hturn hrun hstatus
  | deleteConversation hT u cid =>
    exact h.deleteRows (c := fun u' cid' => u' = u ∧ cid' = cid) hf.turnIds rfl rfl rfl rfl le_rfl
      rfl rfl
  | deleteUser hT u =>
    exact h.deleteRows (c := fun u' _ => u' = u) hf.turnIds rfl rfl rfl rfl le_rfl rfl rfl
  | branch hplan now => exact h.branch _ now

/-! ### What the invariant says about a start -/

/-- A delivered turn is not taken for one that never was. -/
lemma neverDelivered_eq_false (h : Requests w) {t : Turn} {u : UserId} (hu : t.userId = u)
    (hd : w.Delivered t) : neverDelivered w.db u t = false := by
  obtain ⟨-, m, hm, hid, hmu, -, hanswer⟩ := hd
  have hfound : w.db.messageOf u m.id = some m :=
    selectOne_eq_some hm ⟨hmu.trans hu, rfl⟩ fun m' hm' hp => h.messageIds.eq hm' hm hp.2
  rw [neverDelivered, hid]
  simp [hfound, hanswer]

/-- The comparison with the stored message is the comparison with the text of the start. -/
lemma requestMessageDiffers_eq (h : Requests w) {t : Turn} {u : UserId} (hu : t.userId = u)
    {asked content : Text} (ha : w.Asked t asked) :
    requestMessageDiffers w.db u t content = decide (safeText asked ≠ content) := by
  obtain ⟨m, hm, hid, hmu, -, hcontent⟩ := ha
  have hfound : w.db.messageOf u m.id = some m :=
    selectOne_eq_some hm ⟨hmu.trans hu, rfl⟩ fun m' hm' hp => h.messageIds.eq hm' hm hp.2
  rw [requestMessageDiffers, hid]
  simp [hfound, hcontent]

lemma startRequestTurn_eq {p : Process} {now : Instant} {fresh : Id} {a : StartArgs} {db : Db}
    (hkey : a.key ≠ []) (hlease : 1 ≤ a.leaseSeconds) (hfree : db.erasing a.userId = false) :
    startRequestTurn p now fresh a db = transaction db (match replayBranch p now a db with
      | .error e => .error e
      | .ok (.replayed turn, db₁) =>
        .ok ({ turn := turn, replayed := true, conversationCreated := false }, db₁)
      | .ok (.start cid, db₁) => startFresh p now fresh a cid db₁) := by
  have hid : Text.strip a.requestId ≠ [] := by
    intro hempty
    exact hkey (by rw [StartArgs.key, hempty]; rfl)
  rw [startRequestTurn, if_neg hid, if_neg (by omega), startBody, hfree]
  simp only [Bool.false_eq_true, if_false]
  all_goals rfl

/-- A delivered turn is replayed, and nothing is written. -/
theorem replay (h : Requests w) (hf : Flight w.nextId w.db) {s : Start} {t : Turn}
    (hs : s ∈ w.history.started) (hd : s.turnId ∈ w.history.delivered) (ht : t ∈ w.db.turns)
    (hid : t.id = s.turnId) {p : Process} {now : Instant} {a : StartArgs}
    (hu : a.userId = s.userId) (hkey : a.key = s.requestId) (hsame : a.userContent = s.userContent)
    (hstorable : a.userContent.Storable) (hlease : 1 ≤ a.leaseSeconds)
    (hfree : w.db.erasing a.userId = false) :
    startRequestTurn p now w.nextId a w.db
      = (.ok { turn := t, replayed := true, conversationCreated := false }, w.db) := by
  obtain ⟨htu, hasked⟩ := h.asked s hs t ht hid
  have htu' : t.userId = a.userId := htu.trans hu.symm
  have hdelivered : w.Delivered t := h.delivered _ hd t ht hid
  have hnever := h.neverDelivered_eq_false htu' hdelivered
  have hname : w.Names a.userId a.key t := by
    rcases h.released s hs t ht hid with hname | ⟨-, hnever'⟩
    · rw [hu, hkey]
      exact hname
    · rw [← hu, hnever] at hnever'
      cases hnever'
  have hdiff : requestMessageDiffers w.db a.userId t a.userContent = false := by
    rw [h.requestMessageDiffers_eq htu' hasked, ← hsame, safeText_of_storable hstorable]
    simp
  have hbranch : replayBranch p now a w.db = .ok (.replayed t, w.db) := by
    simp only [replayBranch, h.getRequestTurn hf.turnIds ht htu' hname, hdiff, endAbandoned,
      if_neg hdelivered.1, hnever]
    simp
  rw [startRequestTurn_eq (hkey ▸ h.startedKeys s hs) hlease hfree, hbranch]
  rfl

/-- A call with another message than the latest start under the id raises. -/
theorem reused (h : Requests w) (hf : Flight w.nextId w.db) {p : Process} {now : Instant}
    {a : StartArgs} {s : Start} {t : Turn} (hs : w.history.latest a.userId a.key = some s)
    (ht : t ∈ w.db.turns) (hid : t.id = s.turnId) (hdiff : a.userContent ≠ safeText s.userContent)
    (hlease : 1 ≤ a.leaseSeconds) (hfree : w.db.erasing a.userId = false) :
    startRequestTurn p now w.nextId a w.db
      = (.error (.idempotencyKeyReused (Text.strip a.requestId)), w.db) := by
  have hmem := List.mem_of_getLast? hs
  obtain ⟨hsm, hkeys⟩ := List.mem_filter.1 hmem
  obtain ⟨hsu, hskey⟩ : s.userId = a.userId ∧ s.requestId = a.key := by simpa using hkeys
  obtain ⟨htu, hasked⟩ := h.asked s hsm t ht hid
  have htu' : t.userId = a.userId := htu.trans hsu
  have hnamed := h.getRequestTurn hf.turnIds ht htu' (h.latest _ _ s hs t ht hid)
  have hdiffers : requestMessageDiffers w.db a.userId t a.userContent = true := by
    rw [h.requestMessageDiffers_eq htu' hasked]
    simpa using Ne.symm hdiff
  have hbranch : replayBranch p now a w.db
      = .error (.idempotencyKeyReused (Text.strip a.requestId)) := by
    simp only [replayBranch, hnamed, hdiffers, if_true]
  rw [startRequestTurn_eq (hskey ▸ h.startedKeys s hsm) hlease hfree, hbranch]
  rfl

/-- Of two turns under one id whose rows are there, an earlier one has failed undelivered. -/
lemma failed_of_ne_latest (h : Requests w) {s s' : Start}
    (hs : s ∈ w.history.started) (hs' : w.history.latest s.userId s.requestId = some s')
    (hne : s.turnId ≠ s'.turnId) {t t' : Turn} (ht : t ∈ w.db.turns) (hid : t.id = s.turnId)
    (ht' : t' ∈ w.db.turns) (hid' : t'.id = s'.turnId) :
    t.status = .failed ∧ s.turnId ∉ w.history.delivered := by
  have htu := (h.asked s hs t ht hid).1
  rcases h.released s hs t ht hid with hname | ⟨hfail, hnever⟩
  · have hname' := h.latest _ _ s' hs' t' ht' hid'
    obtain ⟨r, hr, hrid, hru, hrkey⟩ := hname
    obtain ⟨r', hr', hrid', hru', hrkey'⟩ := hname'
    have hrow : r = r' := h.requestKeys.eq hr hr' (by simp [hru, hrkey, hru', hrkey'])
    rw [hrow] at hrid
    exact absurd (hid.symm.trans (hrid.symm.trans (hrid'.trans hid'))) hne
  · refine ⟨hfail, fun hd => ?_⟩
    rw [h.neverDelivered_eq_false htu (h.delivered _ hd t ht hid)] at hnever
    cases hnever

end Requests

/-! ### Every run -/

lemma requests_empty : Requests World.empty where
  requestKeys := keyed_nil
  named := by simp [World.empty, Db.empty]
  messageIds := keyed_nil
  messagesBelow := by simp [World.empty, Db.empty]
  answers := by simp [World.Answers, World.empty, Db.empty]
  startedBelow := by simp [World.empty]
  startedKeys := by simp [World.empty]
  deliveredBelow := by simp [World.empty]
  asked := by simp [World.empty]
  delivered := by simp [World.empty]
  released := by simp [World.empty]
  latest := by simp [History.latest, World.empty]

lemma Requests.act {w : World} (h : Requests w) (hw : w.Coherent) (a : Action) :
    Requests (w.act a) :=
  (Moves.preserve (I := fun w => w.Coherent ∧ Requests w)
    (fun _ _ hw hm => ⟨hw.1.move hm, hw.2.move hw.1.flight hm⟩) (act_moves (w.meets_any a))
    ⟨hw, h⟩).2

theorem requests_after (as : List Action) : Requests (World.after as) :=
  Runs.run_preserves_under (fun _ a hw => hw.act a) (fun _ a hw h => h.act hw a)
    World.coherent_empty requests_empty as

/-- Both chat handlers finalise an answer of type `error` as failed, never as completed. -/
def Action.CompletesNoError : Action → Prop
  | .finalizeRequestTurn _ _ _ f => f.status = .completed → f.responseType ≠ some errorType
  | _ => True

/-- A completed turn was delivered. -/
def World.CompletedDelivered (w : World) : Prop :=
  ∀ tid ∈ w.history.completed, tid ∈ w.history.delivered

lemma World.CompletedDelivered.finalize {w : World} (h : w.CompletedDelivered) (now : Instant)
    (u : UserId) (tid : Id) {f : FinalizeArgs}
    (hf : f.status = .completed → f.responseType ≠ some errorType) :
    (w.finalize now u tid f).CompletedDelivered := by
  intro tid' htid'
  rcases List.mem_append.1 htid' with hold | hnew
  · exact List.mem_append_left _ (h tid' hold)
  · refine List.mem_append_right _ ?_
    by_cases hc : w.closes now u tid f ∧ f.status = .completed
    · rw [if_pos hc] at hnew
      have hanswers : f.answers = true := by simp [FinalizeArgs.answers, hf hc.2]
      rw [if_pos ⟨hc.1, hanswers⟩]
      exact hnew
    · rw [if_neg hc] at hnew
      cases hnew

lemma World.CompletedDelivered.act {w : World} (h : w.CompletedDelivered) {a : Action}
    (ha : a.CompletesNoError) : (w.act a).CompletedDelivered := by
  cases a with
  | finalizeRequestTurn now u tid f => exact h.finalize now u tid ha
  | closeOrphan now i =>
    simp only [World.act]
    split
    · exact h
    · next o _ =>
      have herased : World.CompletedDelivered { w with orphans := w.orphans.eraseIdx i } := h
      exact herased.finalize now o.userId o.turnId fun hc => TurnStatus.noConfusion hc
  | planFork u source afterTurnId title key =>
    simp only [World.act, World.plan]
    split <;> exact h
  | planEdit u source turnId title key =>
    simp only [World.act, World.plan]
    split <;> exact h
  | commitBranch now i =>
    simp only [World.act, World.commit]
    split <;> exact h
  | writeRetry i error maxAttempts now =>
    simp only [World.act]
    split <;> exact h
  | claimJob worker now leaseSeconds =>
    simp only [World.act]
    split <;> exact h
  | _ => exact h

lemma completedDelivered_after {as : List Action} (has : ∀ a ∈ as, a.CompletesNoError) :
    (World.after as).CompletedDelivered :=
  Runs.run_preserves_along (fun _ _ h ha => h.act ha) (by simp [World.CompletedDelivered,
    World.empty]) (Runs.along_of_forall World.act _ has)

/-- A request id that is given to a fresh turn had its earlier turns fail undelivered. -/
theorem Requests.release {w : World} (h : Requests w) (hw : w.Coherent) {p : Process}
    {now : Instant} {a : StartArgs} {s : StartedTurn} {db : Db}
    (hstart : startRequestTurn p now w.nextId a w.db = (.ok s, db)) (hs : s.replayed = false)
    {s₀ : Start} (hs₀ : s₀ ∈ w.history.started) (hu : s₀.userId = a.userId)
    (hkey : s₀.requestId = a.key) {t : Turn} (ht : t ∈ db.turns) (hid : t.id = s₀.turnId) :
    t.status = .failed ∧ s₀.turnId ∉ w.history.delivered := by
  obtain ⟨rfl, hhistory, ht', hid', -, -⟩ := start_fresh hstart hs
  have h' : Requests (w.start p now a) := h.act hw (.startRequestTurn p now a)
  have hmem : s₀ ∈ (w.start p now a).history.started := by
    rw [hhistory]
    exact List.mem_append_left _ hs₀
  have hlatest : (w.start p now a).history.latest s₀.userId s₀.requestId
      = some (a.record w.nextId) := by
    rw [hhistory, History.latest_append]
    exact if_pos ⟨hu.symm, hkey.symm⟩
  have hne : s₀.turnId ≠ (a.record w.nextId).turnId := (h.startedBelow s₀ hs₀).ne
  have hfailed := h'.failed_of_ne_latest hmem hlatest hne ht hid ht' hid'
  rw [hhistory] at hfailed
  exact hfailed

lemma sampleRun_completesNoError : ∀ a ∈ sampleRun, a.CompletesNoError := by
  intro a ha
  simp only [sampleRun, List.mem_cons, List.not_mem_nil, or_false] at ha
  rcases ha with rfl | rfl
  · trivial
  · intro _
    decide

end RentCompass.Store
