import RentCompass.Store.Changes

/-!
# The rows a branch adds

`_materialize_branch` adds the copies of the inherited turns, of their messages and of their
snapshots, and takes nothing away: under ids drawn for it, no snapshot stands in the place of
another one. A copy refers to a copied message exactly where its turn refers to an inherited one.
-/

namespace RentCompass.Store

open Rows

/-- The snapshot a copied turn gets, from the snapshots there are. -/
def copiedSnapshot (now : Instant) (u : UserId) (child : Id) (snapshots : List TurnSnapshot)
    (tt : Id × Id) : Option TurnSnapshot :=
  (selectOne (fun s : TurnSnapshot => s.userId = u ∧ s.turnId = tt.1) snapshots).map fun snap =>
    { snap with turnId := tt.2, userId := u, conversationId := child,
                snapshotJson := { snap.snapshotJson with turnId := some tt.2 }, createdAt := now }

lemma copySnapshot_snapshots (now : Instant) (u : UserId) (child : Id) (db : Db) (tt : Id × Id)
    (hfresh : ∀ s ∈ db.snapshots, s.turnId ≠ tt.2) :
    (copySnapshot now u child db tt).snapshots =
      db.snapshots ++ (copiedSnapshot now u child db.snapshots tt).toList := by
  unfold copySnapshot copiedSnapshot
  cases selectOne (fun s : TurnSnapshot => s.userId = u ∧ s.turnId = tt.1) db.snapshots with
  | none => simp
  | some snap =>
    simp only [Db.putSnapshot, Option.map_some, Option.toList_some]
    rw [deleteWhere_eq_self hfresh]

/-- A copy made earlier is not taken for the snapshot of a turn that is still to be copied. -/
lemma copiedSnapshot_append {now : Instant} {u : UserId} {child : Id}
    {snapshots added : List TurnSnapshot} {tt : Id × Id} (h : ∀ s ∈ added, s.turnId ≠ tt.1) :
    copiedSnapshot now u child (snapshots ++ added) tt
      = copiedSnapshot now u child snapshots tt := by
  have hnone : added.find? (fun s => decide (s.userId = u ∧ s.turnId = tt.1)) = none := by
    rw [List.find?_eq_none]
    exact fun s hs hsel => h s hs (by simpa using (of_decide_eq_true hsel).2)
  simp only [copiedSnapshot, selectOne, List.find?_append, hnone, Option.or_none]

lemma turnId_of_copiedSnapshot {now : Instant} {u : UserId} {child : Id}
    {snapshots : List TurnSnapshot} {tt : Id × Id} {s : TurnSnapshot}
    (h : s ∈ (copiedSnapshot now u child snapshots tt).toList) :
    s.key = (tt.2, u, child) := by
  obtain ⟨snap, -, rfl⟩ := Option.map_eq_some_iff.1 (Option.mem_toList.1 h)
  rfl

/-- Under fresh ids the copies of the snapshots stand behind the snapshots there were. -/
lemma foldl_copySnapshot_snapshots (now : Instant) (u : UserId) (child : Id)
    (tts : List (Id × Id)) (db : Db) (hnodup : (tts.map Prod.snd).Nodup)
    (hfresh : ∀ s ∈ db.snapshots, ∀ tt ∈ tts, s.turnId ≠ tt.2)
    (hapart : ∀ tt ∈ tts, ∀ tt' ∈ tts, tt.1 ≠ tt'.2) :
    (tts.foldl (copySnapshot now u child) db).snapshots =
      db.snapshots ++ tts.flatMap fun tt =>
        (copiedSnapshot now u child db.snapshots tt).toList := by
  induction tts generalizing db with
  | nil => simp
  | cons tt tts ih =>
    have hstep := copySnapshot_snapshots now u child db tt fun s hs => hfresh s hs tt (by simp)
    obtain ⟨hnotin, hrest⟩ := List.nodup_cons.1 hnodup
    have hcopy : ∀ s ∈ (copiedSnapshot now u child db.snapshots tt).toList, s.turnId = tt.2 :=
      fun s hs => congrArg Prod.fst (turnId_of_copiedSnapshot hs)
    rw [List.foldl_cons, ih _ hrest, hstep, List.flatMap_cons, List.append_assoc]
    · congr 2
      refine List.flatMap_congr fun tt' htt' => ?_
      rw [copiedSnapshot_append fun s hs => ?_]
      rw [hcopy s hs]
      exact (hapart tt' (by simp [htt']) tt (by simp)).symm
    · intro s hs tt' htt'
      rw [hstep] at hs
      rcases List.mem_append.1 hs with hs | hs
      · exact hfresh s hs tt' (by simp [htt'])
      · rw [hcopy s hs]
        exact fun heq => hnotin (heq ▸ List.mem_map_of_mem htt')
    · exact fun tt₁ h₁ tt₂ h₂ => hapart tt₁ (by simp [h₁]) tt₂ (by simp [h₂])

lemma turnMap_snd (fresh : Id) (srcTurns : List Turn) :
    (turnMap fresh srcTurns).map Prod.snd = List.range' fresh srcTurns.length := by
  have h : (turnMap fresh srcTurns).map Prod.snd
      = (List.range' 0 srcTurns.length).map (fresh + ·) := by
    rw [turnMap, renumber, List.map_map, ← List.zipIdx_map_snd 0 srcTurns, List.map_map]
    rfl
  rw [h, List.map_add_range']
  rfl

/-- What a branch transaction that commits leaves. -/
structure Db.Branched (now : Instant) (n : Id) (plan : BranchPlan) (db db' : Db) : Prop where
  conversations : db'.conversations = db.conversations ++ [plan.child n now]
  turns : db'.turns = db.turns ++ copiedTurns (n + 1) plan.userId n
    (messageMap db.nextMessageId
      (inheritedMessages db plan.userId plan.source.id (plan.srcTurns db) plan.cutoff))
    (plan.srcTurns db)
  messages : db'.messages = db.messages ++ copiedMessages db.nextMessageId plan.userId n
    (turnMap (n + 1) (plan.srcTurns db))
    (inheritedMessages db plan.userId plan.source.id (plan.srcTurns db) plan.cutoff)
  nextMessageId : db'.nextMessageId = db.nextMessageId +
    (inheritedMessages db plan.userId plan.source.id (plan.srcTurns db) plan.cutoff).length
  snapshots : ∀ d : Db, d.snapshots = db.snapshots →
    db'.snapshots = ((turnMap (n + 1) (plan.srcTurns db)).foldl
      (copySnapshot now plan.userId n) d).snapshots
  leases : db'.leases = db.leases
  turnRequests : db'.turnRequests = db.turnRequests
  jobs : db'.jobs = db.jobs
  favorites : db'.favorites = db.favorites
  answered : ∀ t ∈ copiedTurns (n + 1) plan.userId n
    (messageMap db.nextMessageId
      (inheritedMessages db plan.userId plan.source.id (plan.srcTurns db) plan.cutoff))
    (plan.srcTurns db), t.status = .completed → t.assistantMessageId.isSome

/-- The snapshots a fold of copies leaves depend on the snapshots alone. -/
lemma foldl_copySnapshot_congr (now : Instant) (u : UserId) (child : Id) (tts : List (Id × Id))
    {db db' : Db} (h : db.snapshots = db'.snapshots) :
    (tts.foldl (copySnapshot now u child) db).snapshots
      = (tts.foldl (copySnapshot now u child) db').snapshots := by
  induction tts generalizing db db' with
  | nil => exact h
  | cons tt tts ih =>
    refine ih ?_
    simp only [copySnapshot, h]
    split
    · exact h
    · simp [Db.putSnapshot, h]

lemma commitBranch_branched {now : Instant} {n : Id} {plan : BranchPlan} {db db' : Db}
    {c : Conversation} (h : commitBranch now n plan db = (.ok c, db')) :
    Db.Branched now n plan db db' := by
  rcases commitBranch_cases now n plan db with ⟨e, h'⟩ | ⟨db₂, hmat, h'⟩
  · rw [h] at h'
    cases h'
  · rw [h] at h'
    simp only [Prod.mk.injEq] at h'
    obtain ⟨-, rfl⟩ := h'
    obtain ⟨rows, hrows⟩ := recordForkRequest_fields db₂ plan n now
    rw [hrows]
    unfold materializeBranch at hmat
    dsimp only at hmat
    split at hmat
    · cases hmat
    next hanswered =>
    obtain rfl := Except.ok.inj hmat
    obtain ⟨snapshots, hsnapshots⟩ := foldl_copySnapshot_fields now plan.userId n
      (turnMap (n + 1) (plan.srcTurns db))
      { db.insertConversation (plan.child n now) with
        messages := db.messages ++ copiedMessages db.nextMessageId plan.userId n
          (turnMap (n + 1) (plan.srcTurns db))
          (inheritedMessages db plan.userId plan.source.id (plan.srcTurns db) plan.cutoff)
        nextMessageId := db.nextMessageId +
          (inheritedMessages db plan.userId plan.source.id (plan.srcTurns db) plan.cutoff).length
        turns := db.turns ++ copiedTurns (n + 1) plan.userId n
          (messageMap db.nextMessageId
            (inheritedMessages db plan.userId plan.source.id (plan.srcTurns db) plan.cutoff))
          (plan.srcTurns db) }
    constructor
    case conversations =>
      have h := congrArg Db.conversations hsnapshots
      exact h
    case turns =>
      have h := congrArg Db.turns hsnapshots
      exact h
    case messages =>
      have h := congrArg Db.messages hsnapshots
      exact h
    case nextMessageId =>
      have h := congrArg Db.nextMessageId hsnapshots
      exact h
    case snapshots => exact fun d hd => foldl_copySnapshot_congr now plan.userId n _ hd.symm
    case leases =>
      have h := congrArg Db.leases hsnapshots
      exact h
    case turnRequests =>
      have h := congrArg Db.turnRequests hsnapshots
      exact h
    case jobs =>
      have h := congrArg Db.jobs hsnapshots
      exact h
    case favorites =>
      have h := congrArg Db.favorites hsnapshots
      exact h
    case answered =>
      intro t ht hdone
      by_contra hnone
      refine hanswered (List.any_eq_true.2 ⟨t, ht, ?_⟩)
      simpa [hdone] using hnone

@[simp] lemma srcTurns_insertConversation (plan : BranchPlan) (db : Db) (c : Conversation) :
    plan.srcTurns (db.insertConversation c) = plan.srcTurns db := by
  unfold BranchPlan.srcTurns
  cases plan.kind <;> rfl

/-- Each inherited turn has its copy. -/
lemma exists_copiedTurn (fresh : Id) (u : UserId) (child : Id) (messages : List (Nat × Nat))
    {srcTurns : List Turn} {i : Nat} {t : Turn} (hi : srcTurns[i]? = some t) :
    { t with id := fresh + i, userId := u, conversationId := child,
             userMessageId := t.userMessageId.bind (List.lookup · messages),
             assistantMessageId := t.assistantMessageId.bind (List.lookup · messages) } ∈
      copiedTurns fresh u child messages srcTurns :=
  List.mem_map.2 ⟨(t, i), List.mk_mem_zipIdx_iff_getElem?.2 hi, rfl⟩

/-- The message a copied turn refers to is the copy of an inherited message. -/
lemma mem_copiedMessages_of_lookup {next mid : Nat} {u : UserId} {child : Id}
    {turns : List (Id × Id)} {ms : List Message} {mid' : Nat}
    (h : (messageMap next ms).lookup mid = some mid') :
    ∃ m ∈ ms, m.id = mid ∧ ∃ m' ∈ copiedMessages next u child turns ms,
      m' = { m with id := mid', userId := u, conversationId := child,
                    turnId := m.turnId.bind (List.lookup · turns) } := by
  obtain ⟨j, m, hj, hid, rfl⟩ := lookup_renumber h
  exact ⟨m, List.mem_of_getElem? hj, hid, _,
    List.mem_map.2 ⟨(m, j), List.mk_mem_zipIdx_iff_getElem?.2 hj, rfl⟩, rfl⟩

lemma mem_copiedMessages {next : Nat} {u : UserId} {child : Id} {turns : List (Id × Id)}
    {ms : List Message} {m' : Message} (h : m' ∈ copiedMessages next u child turns ms) :
    ∃ (i : Nat) (m : Message), ms[i]? = some m ∧
      m' = { m with id := next + i, userId := u, conversationId := child,
                    turnId := m.turnId.bind (List.lookup · turns) } := by
  obtain ⟨⟨m, i⟩, hmem, rfl⟩ := List.mem_map.1 h
  exact ⟨i, m, List.mk_mem_zipIdx_iff_getElem?.1 hmem, rfl⟩

/-- The numbers of copied turns are the ones drawn for them. -/
lemma mem_turnMap {fresh : Id} {srcTurns : List Turn} {a b : Id} :
    (a, b) ∈ turnMap fresh srcTurns ↔ ∃ i t, srcTurns[i]? = some t ∧ t.id = a ∧ b = fresh + i :=
  mem_renumber

namespace Db.Branched

variable {now : Instant} {n : Id} {plan : BranchPlan} {db db' : Db}

/-- Ids drawn for a branch stand for no turn there was, so the copied snapshots are added behind
the snapshots there were. -/
lemma snapshots_eq (h : Db.Branched now n plan db db') (hsnapshots : ∀ s ∈ db.snapshots, s.turnId < n)
    (hturns : ∀ t ∈ plan.srcTurns db, t.id < n) :
    db'.snapshots = db.snapshots ++ (turnMap (n + 1) (plan.srcTurns db)).flatMap fun tt =>
      (copiedSnapshot now plan.userId n db.snapshots tt).toList := by
  have hnew : ∀ tt ∈ turnMap (n + 1) (plan.srcTurns db), n < tt.2 := by
    rintro ⟨a, b⟩ htt
    obtain ⟨i, t, -, -, rfl⟩ := mem_turnMap.1 htt
    exact lt_of_lt_of_le (Nat.lt_succ_self n) (Nat.le_add_right _ i)
  have hold : ∀ tt ∈ turnMap (n + 1) (plan.srcTurns db), tt.1 < n := by
    rintro ⟨a, b⟩ htt
    obtain ⟨i, t, hi, rfl, -⟩ := mem_turnMap.1 htt
    exact hturns t (List.mem_of_getElem? hi)
  rw [h.snapshots db rfl, foldl_copySnapshot_snapshots]
  · rw [turnMap_snd]
    exact List.nodup_range'
  · exact fun s hs tt htt => ((hsnapshots s hs).trans (hnew tt htt)).ne
  · exact fun tt htt tt' htt' => ((hold tt htt).trans (hnew tt' htt')).ne

lemma kin_eq (h : Db.Branched now n plan db db') : db'.kin = db.kin ++ [(plan.child n now).kin] := by
  simp [Db.kin, h.conversations]

end Db.Branched

end RentCompass.Store
