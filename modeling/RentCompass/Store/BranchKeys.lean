import RentCompass.Store.Origins

/-!
# Branch calls under an idempotency key

`fork_conversation` and `branch_for_edit`, one statement at a time: the key is looked up, the source
and the turn are read, and one transaction makes the child and records the key. Calls of several
processes interleave at every statement, with each other and with everything else the store does.
-/

namespace RentCompass.Store

open Rows

/-- What a branch call is asked for. -/
inductive BranchRequest where
  | fork (source : Id) (afterTurnId : Option Id)
  | edit (source turnId : Id)

def BranchRequest.source : BranchRequest → Id
  | .fork source _ => source
  | .edit source _ => source

def BranchRequest.isEdit : BranchRequest → Bool
  | .fork .. => false
  | .edit .. => true

/-- The fingerprint the key is recorded with. -/
def BranchRequest.fingerprint : BranchRequest → Text
  | .fork source afterTurnId => forkFingerprint "fork" source afterTurnId
  | .edit source turnId => forkFingerprint "edit" source (some turnId)

/-- The next statement of a branch call, with what it has read. -/
inductive BranchStage where
  | lookUp
  | readChild (row : ForkRequest)
  | readSource
  | readTurn (src : Conversation)
  | readInherited (src : Conversation) (edited : Turn)
  | readBoundary (src : Conversation) (edited : Turn) (srcTurns : List Turn)
  | readFirstFresh (src : Conversation) (edited : Turn) (srcTurns : List Turn)
      (boundary : Option Instant)
  | write (plan : BranchPlan)
  | readBack (child : Id)
  | returned (child : Conversation)
  | raised

structure BranchCall where
  userId : UserId
  key : Option Text
  title : Option Text
  request : BranchRequest
  stage : BranchStage

/-- A key that is looked up and recorded. -/
def BranchCall.keyed (c : BranchCall) : Option Text := c.key.filter (· ≠ [])

/-- The row a key is recorded in. -/
def Db.forkRequestOf (db : Db) (u : UserId) (key : Text) : Option ForkRequest :=
  selectOne (fun r : ForkRequest => r.userId = u ∧ r.idempotencyKey = key) db.forkRequests

/-- The answer to a key that is recorded, once its child was read. -/
def BranchCall.replay (c : BranchCall) (row : ForkRequest) : Option Conversation → BranchStage
  | none => .readSource
  | some child =>
    if child.parentConversationId ≠ some c.request.source ∨
        (decide (child.forkReason = some editReason) ≠ c.request.isEdit) ∨
        row.requestFingerprint.any (· ≠ c.request.fingerprint) then .raised
    else .returned child

/-- What a fork plans once its turn is resolved. -/
def BranchCall.forkPlan (c : BranchCall) (src : Conversation) (afterTurnId : Option Id)
    (forkTurn : Turn) : BranchPlan where
  userId := c.userId
  source := src
  title := c.title
  idempotencyKey := c.key
  kind := .fork afterTurnId forkTurn

/-- What an edit plans once its anchor is resolved. -/
def BranchCall.editPlan (c : BranchCall) (src : Conversation) (edited : Turn)
    (srcTurns : List Turn) (anchor : Id) : BranchPlan where
  userId := c.userId
  source := src
  title := c.title
  idempotencyKey := c.key
  kind := .edit edited.id srcTurns (editCutoff edited srcTurns) anchor

/-- One read of a branch call. -/
def BranchCall.read (c : BranchCall) (db : Db) : BranchStage :=
  match c.stage with
  | .lookUp =>
    match c.keyed.bind (db.forkRequestOf c.userId) with
    | none => .readSource
    | some row => .readChild row
  | .readChild row => c.replay row (db.conversationOf c.userId row.conversationId)
  | .readSource =>
    match db.conversationOf c.userId c.request.source with
    | none => .raised
    | some src => .readTurn src
  | .readTurn src =>
    match c.request with
    | .fork source afterTurnId =>
      match resolveForkTurn db c.userId source afterTurnId with
      | .error _ => .raised
      | .ok forkTurn => .write (c.forkPlan src afterTurnId forkTurn)
    | .edit source turnId =>
      match db.turnOf c.userId turnId with
      | none => .raised
      | some edited => if edited.conversationId ≠ source then .raised else .readInherited src edited
  | .readInherited src edited =>
    .readBoundary src edited
      (completedTurns db c.userId c.request.source (· < edited.startedAt))
  | .readBoundary src edited srcTurns =>
    .readFirstFresh src edited srcTurns
      ((src.forkedFromTurnId.bind fun f => db.turnOf c.userId f).map (·.startedAt))
  | .readFirstFresh src edited srcTurns boundary =>
    let firstFresh := (byStart (db.turns.filter fun t =>
      t.userId = c.userId ∧ t.conversationId = c.request.source ∧
        boundary.all (· < t.startedAt))).head?
    let anchor := match src.editedSlotTurnId with
      | some anchor => if firstFresh.map (·.id) = some edited.id then anchor else edited.id
      | none => edited.id
    .write (c.editPlan src edited srcTurns anchor)
  | .readBack child =>
    match db.conversationOf c.userId child with
    | none => .raised
    | some child => .returned child
  | stage => stage

/-- The world, the branch calls under way or ended, and the children that were made under a key. -/
structure Branching where
  world : World
  calls : List BranchCall
  made : List (UserId × Text × Id)

def Branching.empty : Branching where
  world := .empty
  calls := []
  made := []

/-- The transaction of a plan. -/
def World.commitPlan (w : World) (now : Instant) (plan : BranchPlan) : World :=
  { w with plans := w.plans ++ [plan] }.commit now w.plans.length

/-- The transaction of a branch call. -/
def Branching.write (s : Branching) (i : Nat) (c : BranchCall) (now : Instant) (plan : BranchPlan) :
    Branching :=
  match (commitBranch now s.world.nextId plan s.world.db).1 with
  | .error _ =>
    { s with
      world := s.world.commitPlan now plan
      calls := s.calls.set i { c with stage := .raised } }
  | .ok child =>
    { world := s.world.commitPlan now plan
      calls := s.calls.set i { c with stage := .readBack child.id }
      made := s.made ++ (c.keyed.map fun key => (c.userId, key, child.id)).toList }

inductive BranchStep where
  | act (a : Action)
  | call (u : UserId) (key title : Option Text) (request : BranchRequest)
  | advance (i : Nat) (now : Instant)

/-- One step: an action of anything but a branch call, the arrival of a call or its next
statement. -/
def Branching.step (s : Branching) : BranchStep → Branching
  | .act a => if a.branches then s else { s with world := s.world.act a }
  | .call u key title request =>
    { s with
      calls := s.calls ++
        [{ userId := u, key := key, title := title, request := request, stage := .lookUp }] }
  | .advance i now =>
    match s.calls[i]? with
    | none => s
    | some c =>
      match c.stage with
      | .write plan => s.write i c now plan
      | _ => { s with calls := s.calls.set i { c with stage := c.read s.world.db } }

/-! ### Children and keys -/

/-- The conversation exists. -/
def Db.has (db : Db) (u : UserId) (cid : Id) : Prop := (db.conversationOf u cid).isSome

instance (db : Db) (u : UserId) (cid : Id) : Decidable (db.has u cid) :=
  inferInstanceAs (Decidable ((db.conversationOf u cid).isSome = true))

lemma Db.has_iff {db : Db} {u : UserId} {cid : Id} :
    db.has u cid ↔ ∃ o ∈ db.origins, o.userId = u ∧ o.id = cid := by
  rw [Db.has, Db.conversationOf, selectOne_isSome]
  constructor
  · rintro ⟨c, hc, hu, hid⟩
    exact ⟨c.origin, List.mem_map_of_mem hc, hu, hid⟩
  · rintro ⟨o, ho, hu, hid⟩
    obtain ⟨c, hc, rfl⟩ := List.mem_map.1 ho
    exact ⟨c, hc, hu, hid⟩

/-- What a call holds from its reads and writes: the children of its key were made under it. -/
def BranchCall.Faithful (made : List (UserId × Text × Id)) (c : BranchCall) : Prop :=
  match c.stage with
  | .readChild row => ∀ key ∈ c.keyed, (c.userId, key, row.conversationId) ∈ made
  | .write plan => plan.userId = c.userId ∧ plan.idempotencyKey = c.key
  | .readBack child => ∀ key ∈ c.keyed, (c.userId, key, child) ∈ made
  | .returned child => ∀ key ∈ c.keyed, (c.userId, key, child.id) ∈ made
  | _ => True

lemma BranchCall.Faithful.mono {made made' : List (UserId × Text × Id)} {c : BranchCall}
    (h : c.Faithful made) (hsub : made ⊆ made') : c.Faithful made' := by
  unfold BranchCall.Faithful at h ⊢
  split
  · next hs =>
    simp only [hs] at h
    exact fun key hkey => hsub (h key hkey)
  · next hs =>
    simp only [hs] at h
    exact h
  · next hs =>
    simp only [hs] at h
    exact fun key hkey => hsub (h key hkey)
  · next hs =>
    simp only [hs] at h
    exact fun key hkey => hsub (h key hkey)
  · trivial

/-- The invariant: a child that was made under a key and exists is the one recorded for the key. -/
structure Branching.Recorded (s : Branching) : Prop where
  below : ∀ o ∈ s.world.db.origins, o.id < s.world.nextId
  madeBelow : ∀ x ∈ s.made, x.2.2 < s.world.nextId
  rows : ∀ r ∈ s.world.db.forkRequests, (r.userId, r.idempotencyKey, r.conversationId) ∈ s.made
  named : ∀ u key cid, (u, key, cid) ∈ s.made → s.world.db.has u cid →
    ∃ r, s.world.db.forkRequestOf u key = some r ∧ r.conversationId = cid
  calls : ∀ c ∈ s.calls, c.Faithful s.made

lemma Branching.recorded_empty : Branching.empty.Recorded where
  below := by simp [Branching.empty, World.empty, Db.empty, Db.origins]
  madeBelow := by simp [Branching.empty]
  rows := by simp [Branching.empty, World.empty, Db.empty]
  named := by simp [Branching.empty]
  calls := by simp [Branching.empty]

/-- What the property asks of a state: the children made under a key that exist are one, and a call
that returned under the key returned a child made under it. -/
structure Branching.Idempotent (s : Branching) : Prop where
  one : ∀ u key cid cid', (u, key, cid) ∈ s.made → (u, key, cid') ∈ s.made →
    s.world.db.has u cid → s.world.db.has u cid' → cid = cid'
  returned : ∀ c ∈ s.calls, ∀ key ∈ c.keyed, ∀ child, c.stage = .returned child →
    (c.userId, key, child.id) ∈ s.made

lemma Branching.Recorded.idempotent {s : Branching} (h : s.Recorded) : s.Idempotent where
  one := by
    intro u key cid cid' hmade hmade' hhas hhas'
    obtain ⟨r, hr, rfl⟩ := h.named u key cid hmade hhas
    obtain ⟨r', hr', rfl⟩ := h.named u key cid' hmade' hhas'
    rw [Option.some.inj (hr.symm.trans hr')]
  returned := by
    intro c hc key hkey child hstage
    have hfaithful := h.calls c hc
    simp only [BranchCall.Faithful, hstage] at hfaithful
    exact hfaithful key hkey

/-! ### Reads -/

lemma BranchCall.keyed_of_some {c : BranchCall} {key : Text} (h : key ∈ c.keyed) :
    c.key = some key ∧ key ≠ [] := by
  simpa [BranchCall.keyed, Option.filter_eq_some_iff] using h

/-- A read keeps the call faithful. -/
lemma BranchCall.Faithful.read {made : List (UserId × Text × Id)} {c : BranchCall} {db : Db}
    (h : c.Faithful made)
    (hrows : ∀ r ∈ db.forkRequests, (r.userId, r.idempotencyKey, r.conversationId) ∈ made)
    (hstage : ∀ plan, c.stage ≠ .write plan) :
    BranchCall.Faithful made { c with stage := c.read db } := by
  unfold BranchCall.read
  cases hs : c.stage with
  | lookUp =>
    dsimp only
    split
    · trivial
    · next row hrow =>
      intro key hkey
      obtain ⟨key', hkey', hfound⟩ := Option.bind_eq_some_iff.1 hrow
      have hsame : key' = key := Option.some.inj (hkey'.symm.trans hkey)
      subst hsame
      obtain ⟨hu, hk⟩ := selectOne_holds hfound
      have hmem := hrows row (selectOne_mem hfound)
      rwa [hu, hk] at hmem
  | readChild row =>
    simp only [BranchCall.Faithful, hs] at h
    simp only [BranchCall.replay]
    split
    · trivial
    · next child hchild =>
      split
      · trivial
      · intro key hkey
        have hid : child.id = row.conversationId := (selectOne_holds hchild).2
        rw [hid]
        exact h key hkey
  | readSource =>
    dsimp only
    split <;> trivial
  | readTurn src =>
    dsimp only
    split
    · split
      · trivial
      · exact ⟨rfl, rfl⟩
    · split
      · trivial
      · split <;> trivial
  | readInherited src edited => trivial
  | readBoundary src edited srcTurns => trivial
  | readFirstFresh src edited srcTurns boundary => exact ⟨rfl, rfl⟩
  | write plan => exact absurd hs (hstage plan)
  | readBack child =>
    simp only [BranchCall.Faithful, hs] at h
    dsimp only
    split
    · trivial
    · next row hrow =>
      intro key hkey
      have hid : row.id = child := (selectOne_holds hrow).2
      rw [hid]
      exact h key hkey
  | returned child =>
    simp only [BranchCall.Faithful, hs] at h
    exact h
  | raised => trivial

/-! ### Steps -/

/-- Anything but a branch call keeps the invariant. -/
lemma Branching.Recorded.act {s : Branching} (h : s.Recorded) {a : Action}
    (ha : a.branches = false) : Branching.Recorded { s with world := s.world.act a } where
  below := by
    intro o ho
    rcases act_origins_new s.world a o ho with hold | ⟨-, hlt⟩
    · exact lt_of_lt_of_le (h.below o hold) (act_nextId_le s.world a)
    · exact hlt
  madeBelow := fun x hx => lt_of_lt_of_le (h.madeBelow x hx) (act_nextId_le s.world a)
  rows := by
    intro r hr
    rcases act_forkRequests (w := s.world) ha with hsame | ⟨u, hdel, -⟩
    · exact h.rows r (hsame ▸ hr)
    · rw [hdel] at hr
      exact h.rows r (mem_of_mem_deleteWhere hr)
  named := by
    intro u key cid hmade hhas
    obtain ⟨o, ho, hu, hid⟩ := Db.has_iff.1 hhas
    have hold : o ∈ s.world.db.origins := by
      rcases act_origins_new s.world a o ho with hold | ⟨hge, -⟩
      · exact hold
      · exact absurd (h.madeBelow _ hmade) (not_lt.2 (hid ▸ hge))
    obtain ⟨r, hr, hrid⟩ := h.named u key cid hmade (Db.has_iff.2 ⟨o, hold, hu, hid⟩)
    refine ⟨r, ?_, hrid⟩
    rcases act_forkRequests (w := s.world) ha with hsame | ⟨u', hdel, hgone⟩
    · rw [Db.forkRequestOf, hsame]
      exact hr
    · rw [Db.forkRequestOf, hdel, selectOne_deleteWhere]
      · exact hr
      · rintro r' ⟨hu', -⟩ hdeleted
        exact hgone o ho (hu.trans (hu'.symm.trans hdeleted))
  calls := h.calls

/-- What the transaction of a plan does. -/
lemma commitPlan_cases (w : World) (now : Instant) (plan : BranchPlan) :
    (∃ e, (commitBranch now w.nextId plan w.db).1 = .error e ∧ (w.commitPlan now plan).db = w.db ∧
      w.nextId ≤ (w.commitPlan now plan).nextId) ∨
    ((commitBranch now w.nextId plan w.db).1 = .ok (plan.child w.nextId now) ∧
      (w.commitPlan now plan).db.origins = w.db.origins ++ [(plan.child w.nextId now).origin] ∧
      w.nextId < (w.commitPlan now plan).nextId ∧
      (w.commitPlan now plan).db.forkRequests =
        (w.db.recordForkRequest plan w.nextId now).forkRequests) := by
  have hplan : (w.plans ++ [plan])[w.plans.length]? = some plan := by simp
  rcases commitBranch_cases now w.nextId plan w.db with ⟨e, h⟩ | ⟨db₂, hmat, h⟩
  · refine .inl ⟨e, by rw [h], ?_, ?_⟩
    · simp only [World.commitPlan, World.commit, hplan, h]
    · simp only [World.commitPlan, World.commit, hplan]
      exact (Nat.le_add_right _ 1).trans (Nat.le_add_right _ _)
  · obtain ⟨snapshots, rfl⟩ := materializeBranch_ok hmat
    refine .inr ⟨by rw [h], ?_, ?_, ?_⟩
    · simp only [World.commitPlan, World.commit, hplan, h]
      unfold Db.recordForkRequest
      split <;> simp [Db.origins, Db.addBranch, Db.insertConversation]
    · simp only [World.commitPlan, World.commit, hplan]
      exact lt_of_lt_of_le (Nat.lt_succ_self _) (Nat.le_add_right _ _)
    · simp only [World.commitPlan, World.commit, hplan, h]
      unfold Db.recordForkRequest
      split <;> rfl

/-- A step commits a child under a key whose recorded child exists: another call with the key
committed between the look-up and the transaction of this one. -/
def Branching.Overtaken (s : Branching) : BranchStep → Prop
  | .advance i now => ∃ c plan key r, s.calls[i]? = some c ∧ c.stage = .write plan ∧
      key ∈ c.keyed ∧ s.world.db.forkRequestOf c.userId key = some r ∧
      s.world.db.has c.userId r.conversationId ∧
      (commitBranch now s.world.nextId plan s.world.db).1.isOk = true
  | _ => False

lemma faithful_set {calls : List BranchCall} {made made' : List (UserId × Text × Id)} {i : Nat}
    {c : BranchCall} (h : ∀ c ∈ calls, c.Faithful made) (hsub : made ⊆ made')
    (hc : c.Faithful made') : ∀ c' ∈ calls.set i c, c'.Faithful made' := by
  intro c' hc'
  rcases List.mem_or_eq_of_mem_set hc' with hold | rfl
  · exact (h c' hold).mono hsub
  · exact hc

/-- The transaction of a call that was not overtaken keeps the invariant. -/
lemma Branching.Recorded.write {s : Branching} (h : s.Recorded) {i : Nat} {c : BranchCall}
    {now : Instant} {plan : BranchPlan} (hc : s.calls[i]? = some c) (hstage : c.stage = .write plan)
    (hnot : ¬ s.Overtaken (.advance i now)) : (s.write i c now plan).Recorded := by
  have hcalls := h.calls c (List.mem_of_getElem? hc)
  simp only [BranchCall.Faithful, hstage] at hcalls
  obtain ⟨huser, hkey⟩ := hcalls
  rcases commitPlan_cases s.world now plan with
    ⟨e, he, hdb, hnext⟩ | ⟨hok, horigins, hnext, hforks⟩
  · unfold Branching.write
    rw [he]
    constructor
    · dsimp only
      rw [hdb]
      exact fun o ho => lt_of_lt_of_le (h.below o ho) hnext
    · exact fun x hx => lt_of_lt_of_le (h.madeBelow x hx) hnext
    · dsimp only
      rw [hdb]
      exact h.rows
    · dsimp only
      rw [hdb]
      exact h.named
    · exact faithful_set h.calls (List.Subset.refl _) trivial
  · unfold Branching.write
    rw [hok]
    have hchild : (plan.child s.world.nextId now).origin.id = s.world.nextId := rfl
    have hnamed : ∀ key ∈ c.keyed, (s.world.commitPlan now plan).db.forkRequests =
        deleteWhere (fun r : ForkRequest => r.userId = c.userId ∧ r.idempotencyKey = key)
          s.world.db.forkRequests ++
        [{ userId := c.userId, idempotencyKey := key, conversationId := s.world.nextId,
           createdAt := now, requestFingerprint := some plan.fingerprint }] := by
      intro key hk
      obtain ⟨hsome, hne⟩ := BranchCall.keyed_of_some hk
      rw [hforks, Db.recordForkRequest, hkey, hsome]
      cases key with
      | nil => exact absurd rfl hne
      | cons ch rest =>
        dsimp only
        rw [huser]
    have hunnamed : c.keyed = none →
        (s.world.commitPlan now plan).db.forkRequests = s.world.db.forkRequests := by
      intro hnone
      rw [hforks, Db.recordForkRequest, hkey]
      cases hck : c.key with
      | none => rfl
      | some key =>
        cases key with
        | nil => rfl
        | cons ch rest => simp [BranchCall.keyed, hck] at hnone
    constructor
    · intro o ho
      dsimp only at ho
      rw [horigins] at ho
      rcases List.mem_append.1 ho with ho | ho
      · exact (h.below o ho).trans hnext
      · rw [List.mem_singleton.1 ho]
        exact hnext
    · intro x hx
      rcases List.mem_append.1 hx with hx | hx
      · exact (h.madeBelow x hx).trans hnext
      · obtain ⟨key, -, rfl⟩ := Option.map_eq_some_iff.1 (Option.mem_toList.1 hx)
        exact hnext
    · intro r hr
      dsimp only at hr ⊢
      cases hck : c.keyed with
      | none =>
        rw [hunnamed hck] at hr
        exact List.mem_append_left _ (h.rows r hr)
      | some key =>
        rw [hnamed key hck] at hr
        rcases List.mem_append.1 hr with hr | hr
        · exact List.mem_append_left _ (h.rows r (mem_of_mem_deleteWhere hr))
        · rw [List.mem_singleton.1 hr]
          exact List.mem_append_right _ (List.mem_singleton_self _)
    · intro u key cid hmade hhas
      dsimp only at hmade hhas ⊢
      rw [Db.has_iff, horigins] at hhas
      obtain ⟨o, ho, hu, hid⟩ := hhas
      rcases List.mem_append.1 hmade with hmade | hmade
      · -- an old child: it existed before, so it was the recorded one
        have hold : o ∈ s.world.db.origins := by
          rcases List.mem_append.1 ho with ho | ho
          · exact ho
          · rw [List.mem_singleton.1 ho, hchild] at hid
            exact absurd (h.madeBelow _ hmade) (hid ▸ lt_irrefl _)
        have hhas : s.world.db.has u cid := Db.has_iff.2 ⟨o, hold, hu, hid⟩
        obtain ⟨r, hr, hrid⟩ := h.named u key cid hmade hhas
        refine ⟨r, ?_, hrid⟩
        cases hck : c.keyed with
        | none =>
          rw [Db.forkRequestOf, hunnamed hck]
          exact hr
        | some key' =>
          rw [Db.forkRequestOf, hnamed key' hck]
          by_cases hsame : u = c.userId ∧ key = key'
          · obtain ⟨rfl, rfl⟩ := hsame
            refine absurd ⟨c, plan, key, r, hc, hstage, hck, hr, hrid ▸ hhas, ?_⟩ hnot
            rw [hok]
            rfl
          · refine selectOne_append ?_ _
            rw [selectOne_deleteWhere]
            · exact hr
            · rintro r' ⟨hru, hrk⟩ ⟨hru', hrk'⟩
              exact hsame ⟨hru.symm.trans hru', hrk.symm.trans hrk'⟩
      · obtain ⟨key', hck, hx⟩ := Option.map_eq_some_iff.1 (Option.mem_toList.1 hmade)
        simp only [Prod.mk.injEq] at hx
        obtain ⟨rfl, rfl, rfl⟩ := hx
        rw [Db.forkRequestOf, hnamed key' hck]
        exact ⟨_, selectOne_replaced ⟨rfl, rfl⟩, rfl⟩
    · refine faithful_set h.calls (List.subset_append_left _ _) ?_
      intro key hk
      have hk' : c.keyed = some key := hk
      dsimp only
      rw [hk']
      exact List.mem_append_right _ (List.mem_singleton_self _)

/-- Every step of a call that is not overtaken keeps the invariant. -/
lemma Branching.Recorded.step {s : Branching} (h : s.Recorded) {a : BranchStep}
    (ha : ¬ s.Overtaken a) : (s.step a).Recorded := by
  cases a with
  | act a =>
    simp only [Branching.step]
    split
    · exact h
    · next hnot => exact h.act (by simpa using hnot)
  | call u key title request =>
    refine { h with calls := ?_ }
    intro c hc
    rcases List.mem_append.1 hc with hc | hc
    · exact h.calls c hc
    · rw [List.mem_singleton.1 hc]
      trivial
  | advance i now =>
    simp only [Branching.step]
    split
    · exact h
    · next c hc =>
      split
      · next plan hstage => exact h.write hc hstage ha
      · next hread =>
        refine { h with calls := ?_ }
        exact faithful_set h.calls (List.Subset.refl _)
          ((h.calls c (List.mem_of_getElem? hc)).read h.rows hread)

/-- A call that is overtaken makes a second child. -/
lemma Branching.Recorded.overtaken {s : Branching} (h : s.Recorded) {a : BranchStep}
    (ha : s.Overtaken a) : ¬ (s.step a).Idempotent := by
  cases a with
  | act => exact ha.elim
  | call => exact ha.elim
  | advance i now =>
    obtain ⟨c, plan, key, r, hc, hstage, hk, hr, hhas, hcommit⟩ := ha
    intro hone
    have hfaithful := h.calls c (List.mem_of_getElem? hc)
    simp only [BranchCall.Faithful, hstage] at hfaithful
    have hrow := h.rows r (selectOne_mem hr)
    obtain ⟨hru, hrk⟩ := selectOne_holds hr
    rw [hru, hrk] at hrow
    rcases commitPlan_cases s.world now plan with
      ⟨e, he, -⟩ | ⟨hok, horigins, -, -⟩
    · rw [he] at hcommit
      cases hcommit
    · have hstep : s.step (.advance i now) = s.write i c now plan := by
        simp only [Branching.step, hc, hstage]
      rw [hstep] at hone
      have hmade : (s.write i c now plan).made
          = s.made ++ [(c.userId, key, s.world.nextId)] := by
        have hk' : c.keyed = some key := hk
        simp only [Branching.write, hok, hk']
        rfl
      have hworld : (s.write i c now plan).world.db.origins
          = s.world.db.origins ++ [(plan.child s.world.nextId now).origin] := by
        rw [← horigins]
        simp only [Branching.write, hok]
      obtain ⟨o, ho, hou, hoid⟩ := Db.has_iff.1 hhas
      have hsame := hone.one c.userId key r.conversationId s.world.nextId
        (hmade ▸ List.mem_append_left _ hrow)
        (hmade ▸ List.mem_append_right _ (List.mem_singleton_self _))
        (Db.has_iff.2 ⟨o, hworld ▸ List.mem_append_left _ ho, hou, hoid⟩)
        (Db.has_iff.2 ⟨_, hworld ▸ List.mem_append_right _ (List.mem_singleton_self _),
          hfaithful.1, rfl⟩)
      exact absurd (h.madeBelow _ hrow) (hsame ▸ lt_irrefl _)

/-- In a run of branch calls of any processes, at most one child made under a user and key exists at
a time and every call that returns under the key returns a child made under it, exactly if no call
commits after its key was recorded for a child that exists. -/
theorem branch_key_idempotent (steps : List BranchStep) :
    (∀ n, (Runs.run Branching.step .empty (steps.take n)).Idempotent) ↔
      Runs.Along Branching.step (fun s a => ¬ s.Overtaken a) .empty steps :=
  Runs.along_iff_of_prefixes (fun _ _ h ha => h.step ha) (fun _ h => h.idempotent)
    (fun _ _ h ha => h.overtaken (not_not.1 ha)) Branching.recorded_empty steps

def sampleKey : Text := Text.ofString "k1"

/-- Two processes fork the same turn under the same key; both look the key up before either has
recorded it. -/
def racingForks : List BranchStep :=
  sampleRun.map .act ++
  [.call sampleStart.userId (some sampleKey) none (.fork 1 (some 0)),
   .call sampleStart.userId (some sampleKey) none (.fork 1 (some 0)),
   .advance 0 2, .advance 1 2, .advance 0 2, .advance 0 2, .advance 1 2, .advance 1 2,
   .advance 0 3, .advance 1 4]

/-- Both forks commit: the key has two children. -/
theorem fork_key_made_twice : ¬ (Runs.run Branching.step .empty racingForks).Idempotent := by
  intro h
  have hone := h.one sampleStart.userId sampleKey 2 4 (by decide +kernel) (by decide +kernel)
    (by decide +kernel) (by decide +kernel)
  exact absurd hone (by decide)

end RentCompass.Store
