import RentCompass.Runs
import RentCompass.Text
import Mathlib.Logic.Function.Basic

/-!
# The runtime identity of a checkpoint file

A checkpoint file carries the identity of the runtime that may use it. A process that opens the
file reads the stamp, compares it with its own identity and completes it, each by a statement of
its own. A step is one statement of one process; any process may fail or crash at any time, and
what it has not committed is rolled back.
-/

namespace RentCompass.Agent

/-! ### Identities and stamps -/

structure RuntimeIdentity where
  agentArch : Text
  managerV1Specialists : Text
  deriving DecidableEq

/-- `_IDENTITY_KEYS`. -/
inductive IdentityKey where
  | agentArch
  | managerV1Specialists
  deriving DecidableEq

def identityKeys : List IdentityKey := [.agentArch, .managerV1Specialists]

def RuntimeIdentity.get (id : RuntimeIdentity) : IdentityKey → Text
  | .agentArch => id.agentArch
  | .managerV1Specialists => id.managerV1Specialists

def RuntimeIdentity.Complete (id : RuntimeIdentity) : Prop :=
  ∀ key ∈ identityKeys, (id.get key).strip ≠ []

instance (id : RuntimeIdentity) : Decidable id.Complete :=
  inferInstanceAs (Decidable (∀ key ∈ identityKeys, _))

/-- The rows of `rentcompass_runtime_identity`. -/
structure Stamp where
  agentArch : Option Text
  managerV1Specialists : Option Text
  deriving DecidableEq

def Stamp.get (stamp : Stamp) : IdentityKey → Option Text
  | .agentArch => stamp.agentArch
  | .managerV1Specialists => stamp.managerV1Specialists

/-- `INSERT OR REPLACE`. -/
def Stamp.put (stamp : Stamp) (value : Text) : IdentityKey → Stamp
  | .agentArch => { stamp with agentArch := some value }
  | .managerV1Specialists => { stamp with managerV1Specialists := some value }

def RuntimeIdentity.stamp (id : RuntimeIdentity) : Stamp :=
  ⟨some id.agentArch, some id.managerV1Specialists⟩

/-- No key that is present differs. -/
def Stamp.Agrees (stamp : Stamp) (id : RuntimeIdentity) : Prop :=
  ∀ key ∈ identityKeys, ∀ value ∈ stamp.get key, value = id.get key

instance (stamp : Stamp) (id : RuntimeIdentity) : Decidable (stamp.Agrees id) :=
  inferInstanceAs (Decidable (∀ key ∈ identityKeys, ∀ value ∈ stamp.get key, _))

def Stamp.Complete (stamp : Stamp) : Prop := ∀ key ∈ identityKeys, (stamp.get key).isSome

instance (stamp : Stamp) : Decidable stamp.Complete :=
  inferInstanceAs (Decidable (∀ key ∈ identityKeys, _))

lemma RuntimeIdentity.stamp_complete (id : RuntimeIdentity) : id.stamp.Complete := by
  intro key _
  cases key <;> rfl

lemma RuntimeIdentity.stamp_agrees (id : RuntimeIdentity) : id.stamp.Agrees id := by
  intro key _ value hvalue
  cases key <;> exact (Option.some.inj hvalue).symm

@[simp] lemma Stamp.get_put_self (stamp : Stamp) (value : Text) (key : IdentityKey) :
    (stamp.put value key).get key = some value := by
  cases key <;> rfl

lemma Stamp.get_put_of_ne (stamp : Stamp) (value : Text) {key key' : IdentityKey}
    (h : key' ≠ key) : (stamp.put value key).get key' = stamp.get key' := by
  cases key <;> cases key' <;> first | rfl | exact absurd rfl h

lemma Stamp.eq_of_get {stamp : Stamp} {id : RuntimeIdentity}
    (h : ∀ key ∈ identityKeys, stamp.get key = some (id.get key)) : stamp = id.stamp := by
  have harch : stamp.agentArch = some id.agentArch := h .agentArch (by decide)
  have hspec : stamp.managerV1Specialists = some id.managerV1Specialists :=
    h .managerV1Specialists (by decide)
  cases stamp
  simp_all [RuntimeIdentity.stamp]

/-- A complete stamp agrees with no identity but its own. -/
lemma Stamp.Agrees.eq_of_complete {stamp : Stamp} {id : RuntimeIdentity} (h : stamp.Agrees id)
    (hcomplete : stamp.Complete) : stamp = id.stamp := by
  refine Stamp.eq_of_get fun key hin => ?_
  obtain ⟨value, hvalue⟩ := Option.isSome_iff_exists.1 (hcomplete key hin)
  rw [hvalue, h key hin value hvalue]

lemma RuntimeIdentity.stamp_inj {id id' : RuntimeIdentity} (h : id.stamp = id'.stamp) :
    id = id' := by
  cases id
  cases id'
  simpa [RuntimeIdentity.stamp] using h

/-! ### Processes -/

/-- How far `get_sqlite_checkpointer` has come. -/
inductive OpenPhase where
  | idle
  /-- At `CREATE TABLE IF NOT EXISTS`. -/
  | opened (id : RuntimeIdentity)
  /-- At the `SELECT`. -/
  | created (id : RuntimeIdentity)
  /-- In `executemany`, with keys still to insert; at `commit` when none is left. -/
  | stamping (id : RuntimeIdentity) (rest : List IdentityKey)
  /-- Past `enforce_runtime_identity`. -/
  | enforced (id : RuntimeIdentity)
  deriving DecidableEq

/-- A process: the identity its cached checkpointer was verified for, and its call in progress. -/
structure Opener where
  verified : Option RuntimeIdentity
  phase : OpenPhase
  deriving DecidableEq

def Opener.fresh : Opener := ⟨none, .idle⟩

variable {π : Type} [DecidableEq π]

/-- A checkpoint file, the processes that open it, and what has happened. -/
structure CheckpointWorld (π : Type) where
  fileExists : Bool
  stamp : Stamp
  /-- The open write transaction: whose it is, and the rows it sees. -/
  draft : Option (π × Stamp)
  opener : π → Opener
  /-- The calls that returned a checkpointer. -/
  obtained : List (π × RuntimeIdentity)
  /-- The stamps that have been replaced. -/
  past : List Stamp

/-- A file nobody has opened yet. -/
def CheckpointWorld.fresh (fileExists : Bool) (stamp : Stamp) : CheckpointWorld π :=
  ⟨fileExists, stamp, none, fun _ => .fresh, [], []⟩

inductive CheckpointAct (π : Type) where
  /-- A call; `orphans` tells whether a sibling file is this identity's own. -/
  | request (p : π) (id : RuntimeIdentity) (orphans : Bool)
  | create (p : π)
  | select (p : π)
  | insert (p : π)
  | commit (p : π)
  | ready (p : π)
  /-- An exception: the connection is closed. -/
  | fail (p : π)
  | crash (p : π)

namespace CheckpointWorld

def setPhase (s : CheckpointWorld π) (p : π) (phase : OpenPhase) : CheckpointWorld π :=
  { s with opener := Function.update s.opener p { s.opener p with phase } }

/-- What `p` has not committed is rolled back. -/
def rollback (s : CheckpointWorld π) (p : π) : CheckpointWorld π :=
  { s with draft := s.draft.filter (·.1 ≠ p) }

/-- The rows `p` sees in a write transaction, unless another process holds the lock. -/
def writable (s : CheckpointWorld π) (p : π) : Option Stamp :=
  match s.draft with
  | none => some s.stamp
  | some (q, rows) => if q = p then some rows else none

/-- One statement of one process. -/
def step (s : CheckpointWorld π) : CheckpointAct π → CheckpointWorld π
  | .request p id orphans =>
    match (s.opener p).phase, (s.opener p).verified with
    | .idle, some known =>
      if known = id then { s with obtained := (p, id) :: s.obtained }
      else if id.Complete then s.setPhase p (.opened id)
      else s
    | .idle, none =>
      -- `_guard_unexpected_new_database`
      if s.fileExists = false ∧ orphans then s
      else if id.Complete then s.setPhase p (.opened id)
      else s
    | _, _ => s
  | .create p =>
    match (s.opener p).phase with
    | .opened id => { s.setPhase p (.created id) with fileExists := true }
    | _ => s
  | .select p =>
    match (s.opener p).phase with
    | .created id =>
      if ¬ s.stamp.Agrees id then s.setPhase p .idle
      else if s.stamp = id.stamp then s.setPhase p (.enforced id)
      else s.setPhase p (.stamping id identityKeys)
    | _ => s
  | .insert p =>
    match (s.opener p).phase, s.writable p with
    | .stamping id (key :: rest), some rows =>
      { s.setPhase p (.stamping id rest) with draft := some (p, rows.put (id.get key) key) }
    | _, _ => s
  | .commit p =>
    match (s.opener p).phase, s.writable p with
    | .stamping id [], some rows =>
      { s.setPhase p (.enforced id) with
        draft := none
        stamp := rows
        past := s.stamp :: s.past }
    | _, _ => s
  | .ready p =>
    match (s.opener p).phase with
    | .enforced id =>
      { s with
        opener := Function.update s.opener p ⟨some id, .idle⟩
        obtained := (p, id) :: s.obtained }
    | _ => s
  | .fail p => (s.setPhase p .idle).rollback p
  | .crash p => { s.rollback p with opener := Function.update s.opener p .fresh }

@[simp] lemma setPhase_opener_self (s : CheckpointWorld π) (p : π) (phase : OpenPhase) :
    (s.setPhase p phase).opener p = { s.opener p with phase } := Function.update_self ..

lemma setPhase_opener_of_ne (s : CheckpointWorld π) {p q : π} (h : q ≠ p) (phase : OpenPhase) :
    (s.setPhase p phase).opener q = s.opener q := Function.update_of_ne h ..

/-! ### What is to hold -/

/-- All checkpointers were obtained for one identity, and no complete stamp was changed. -/
structure OneIdentity (s : CheckpointWorld π) : Prop where
  obtained : ∀ a ∈ s.obtained, ∀ b ∈ s.obtained, a.2 = b.2
  past : ∀ stamp ∈ s.past, stamp.Complete → s.stamp = stamp

/-- What is committed agrees with what the file says by then. -/
def Consistent (s : CheckpointWorld π) : CheckpointAct π → Prop
  | .commit p => ∀ id, (s.opener p).phase = .stamping id [] → s.stamp.Agrees id
  | _ => True

/-! ### The invariant -/

/-- What the phase of a process says of the file. -/
def Holds (s : CheckpointWorld π) (p : π) : OpenPhase → Prop
  | .stamping id rest => (s.stamp.Agrees id ∨ s.stamp.Complete) ∧
      (rest = identityKeys ∨ ∃ rows, s.draft = some (p, rows) ∧
        ∀ key ∈ identityKeys, key ∈ rest ∨ rows.get key = some (id.get key))
  | .enforced id => s.stamp = id.stamp
  | _ => True

structure Stamped (s : CheckpointWorld π) : Prop where
  phase : ∀ p, s.Holds p (s.opener p).phase
  verified : ∀ p, ∀ id ∈ (s.opener p).verified, s.stamp = id.stamp
  obtained : ∀ a ∈ s.obtained, s.stamp = a.2.stamp
  past : ∀ stamp ∈ s.past, stamp.Complete → s.stamp = stamp

omit [DecidableEq π] in
lemma Stamped.fresh (fileExists : Bool) (stamp : Stamp) :
    Stamped (CheckpointWorld.fresh fileExists stamp : CheckpointWorld π) where
  phase _ := trivial
  verified _ _ h := by cases h
  obtained _ h := by cases h
  past _ h := by cases h

variable {s : CheckpointWorld π}

omit [DecidableEq π] in
lemma Stamped.oneIdentity (h : Stamped s) : OneIdentity s where
  obtained a ha b hb := RuntimeIdentity.stamp_inj ((h.obtained a ha).symm.trans (h.obtained b hb))
  past := h.past

/-- A statement that leaves the stamp and the other processes' transactions alone. -/
lemma Stamped.move (h : Stamped s) {s' : CheckpointWorld π} (p : π) (hstamp : s'.stamp = s.stamp)
    (hpast : s'.past = s.past) (hobtained : ∀ a ∈ s'.obtained, s.stamp = a.2.stamp)
    (hothers : ∀ q, q ≠ p → s'.opener q = s.opener q)
    (hdraft : ∀ q, q ≠ p → ∀ rows, s.draft = some (q, rows) → s'.draft = some (q, rows))
    (hverified : ∀ id ∈ (s'.opener p).verified, s.stamp = id.stamp)
    (hphase : s'.Holds p (s'.opener p).phase) : Stamped s' where
  phase q := by
    by_cases hq : q = p
    · exact hq ▸ hphase
    · have hheld := h.phase q
      rw [hothers q hq]
      cases hcase : (s.opener q).phase with
      | stamping id rest =>
        rw [hcase] at hheld
        refine ⟨hstamp ▸ hheld.1, hheld.2.imp_right ?_⟩
        rintro ⟨rows, hrows, hkeys⟩
        exact ⟨rows, hdraft q hq rows hrows, hkeys⟩
      | enforced id =>
        rw [hcase] at hheld
        exact hstamp.trans hheld
      | _ => trivial
  verified q id hid := by
    rw [hstamp]
    by_cases hq : q = p
    · subst hq
      exact hverified id hid
    · rw [hothers q hq] at hid
      exact h.verified q id hid
  obtained a ha := hstamp.trans (hobtained a ha)
  past stamp hin hcomplete := by
    rw [hpast] at hin
    exact hstamp.trans (h.past stamp hin hcomplete)

/-- A process goes on to another phase. -/
lemma Stamped.setPhase (h : Stamped s) (p : π) {phase : OpenPhase}
    (hphase : (s.setPhase p phase).Holds p phase) : Stamped (s.setPhase p phase) := by
  refine h.move p rfl rfl h.obtained (fun q hq => setPhase_opener_of_ne s hq phase)
    (fun _ _ _ hd => hd) ?_ ?_
  · rw [setPhase_opener_self]
    exact h.verified p
  · rwa [setPhase_opener_self]

lemma rollback_draft (s : CheckpointWorld π) {p q : π} (hq : q ≠ p) {rows : Stamp}
    (h : s.draft = some (q, rows)) : (s.rollback p).draft = some (q, rows) := by
  simp [rollback, h, hq]

/-- Every statement but a commit. -/
lemma Stamped.step_of_ne_commit (h : Stamped s) {a : CheckpointAct π}
    (ha : ∀ p, a ≠ .commit p) : Stamped (s.step a) := by
  cases a with
  | request p id orphans =>
    simp only [CheckpointWorld.step]
    split
    · rename_i known _ hknown
      split_ifs with hsame hcomplete
      · subst hsame
        refine h.move p rfl rfl ?_ (fun _ _ => rfl) (fun _ _ _ hd => hd) (h.verified p) (h.phase p)
        intro a hin
        rcases List.mem_cons.1 hin with rfl | hin
        · exact h.verified p known hknown
        · exact h.obtained a hin
      · exact h.setPhase p trivial
      · exact h
    · split_ifs
      · exact h
      · exact h.setPhase p trivial
      · exact h
    · exact h
  | create p =>
    simp only [CheckpointWorld.step]
    split
    · rename_i id _
      have hnext : Stamped (s.setPhase p (.created id)) := h.setPhase p trivial
      exact ⟨hnext.phase, hnext.verified, hnext.obtained, hnext.past⟩
    · exact h
  | select p =>
    simp only [CheckpointWorld.step]
    split
    · split_ifs with hagrees hsame
      · exact h.setPhase p hsame
      · exact h.setPhase p ⟨.inl hagrees, .inl rfl⟩
      · exact h.setPhase p trivial
    · exact h
  | insert p =>
    simp only [CheckpointWorld.step]
    split
    · rename_i id key rest rows hphase hrows
      have hheld := h.phase p
      rw [hphase] at hheld
      obtain ⟨hread, hkeys⟩ := hheld
      refine h.move p rfl rfl h.obtained (fun q hq => setPhase_opener_of_ne s hq _) ?_ ?_ ?_
      · -- the lock is not another's
        intro q hq other hother
        simp [writable, hother, hq] at hrows
      · show ∀ known ∈ ((s.setPhase p (.stamping id rest)).opener p).verified, _
        rw [setPhase_opener_self]
        exact h.verified p
      · show Holds _ p ((s.setPhase p (.stamping id rest)).opener p).phase
        rw [setPhase_opener_self]
        refine ⟨hread, .inr ⟨_, rfl, fun key' hin => ?_⟩⟩
        by_cases hkey : key' = key
        · subst hkey
          exact .inr (Stamp.get_put_self ..)
        · rw [Stamp.get_put_of_ne _ _ hkey]
          rcases hkeys with hall | ⟨rows', hdraft, hput⟩
          · rw [← hall] at hin
            exact .inl ((List.mem_cons.1 hin).resolve_left hkey)
          · obtain rfl : rows' = rows := by simpa [writable, hdraft] using hrows
            exact (hput key' hin).imp_left fun hin => (List.mem_cons.1 hin).resolve_left hkey
    · exact h
  | commit p => exact absurd rfl (ha p)
  | ready p =>
    simp only [CheckpointWorld.step]
    split
    · rename_i id hphase
      have hheld : s.stamp = id.stamp := by
        have hheld := h.phase p
        rwa [hphase] at hheld
      refine h.move p rfl rfl ?_ (fun q hq => Function.update_of_ne hq ..) (fun _ _ _ hd => hd) ?_ ?_
      · intro a hin
        rcases List.mem_cons.1 hin with rfl | hin
        · exact hheld
        · exact h.obtained a hin
      · show ∀ known ∈ (Function.update s.opener p ⟨some id, .idle⟩ p).verified, _
        rw [Function.update_self]
        rintro known hknown
        obtain rfl := Option.some.inj hknown
        exact hheld
      · show Holds _ p (Function.update s.opener p ⟨some id, .idle⟩ p).phase
        rw [Function.update_self]
        trivial
    · exact h
  | fail p =>
    have hidle : Stamped (s.setPhase p .idle) := h.setPhase p trivial
    refine hidle.move p rfl rfl h.obtained (fun _ _ => rfl)
      (fun q hq rows => rollback_draft _ hq) (hidle.verified p) ?_
    show Holds _ p ((s.setPhase p .idle).opener p).phase
    rw [setPhase_opener_self]
    trivial
  | crash p =>
    refine h.move p rfl rfl h.obtained (fun q hq => Function.update_of_ne hq ..)
      (fun q hq rows => rollback_draft _ hq) ?_ ?_
    · show ∀ id ∈ (Function.update s.opener p .fresh p).verified, _
      rw [Function.update_self]
      intro id hid
      cases hid
    · show Holds _ p (Function.update s.opener p .fresh p).phase
      rw [Function.update_self]
      trivial

omit [DecidableEq π] in
/-- At a commit the transaction has all rows of the identity. -/
lemma Stamped.writable_of_stamping (h : Stamped s) {p : π} {id : RuntimeIdentity}
    (hphase : (s.opener p).phase = .stamping id []) : s.draft = some (p, id.stamp) := by
  have hheld := h.phase p
  rw [hphase] at hheld
  obtain ⟨-, hall | ⟨rows, hdraft, hkeys⟩⟩ := hheld
  · cases hall
  · rw [hdraft, Stamp.eq_of_get fun key hin => (hkeys key hin).resolve_left (by simp)]

/-- What a commit does. -/
lemma Stamped.step_commit (h : Stamped s) {p : π} {id : RuntimeIdentity}
    (hphase : (s.opener p).phase = .stamping id []) :
    s.step (.commit p) = { s.setPhase p (.enforced id) with
      draft := none, stamp := id.stamp, past := s.stamp :: s.past } := by
  have hrows : s.writable p = some id.stamp := by
    simp [writable, h.writable_of_stamping hphase]
  simp only [CheckpointWorld.step, hphase, hrows]

lemma step_commit_idle {p : π} (h : ∀ id, (s.opener p).phase ≠ .stamping id []) :
    s.step (.commit p) = s := by
  simp only [CheckpointWorld.step]
  split
  · rename_i id rows hphase _
    exact absurd hphase (h id)
  · rfl

/-- A commit that agrees with the file: whatever names a complete stamp names this one. -/
lemma Stamped.commit (h : Stamped s) {p : π} (hconsistent : s.Consistent (.commit p)) :
    Stamped (s.step (.commit p)) := by
  by_cases hcase : ∃ id, (s.opener p).phase = .stamping id []
  · obtain ⟨id, hphase⟩ := hcase
    have hsame (hcomplete : s.stamp.Complete) : s.stamp = id.stamp :=
      (hconsistent id hphase).eq_of_complete hcomplete
    have hstays {id' : RuntimeIdentity} (hid : s.stamp = id'.stamp) : id.stamp = id'.stamp :=
      (hsame (hid ▸ id'.stamp_complete)).symm.trans hid
    rw [h.step_commit hphase]
    refine ⟨fun q => ?_, fun q known hknown => ?_, fun a ha => hstays (h.obtained a ha),
      fun stamp hin hcomplete => ?_⟩
    · show Holds _ q ((s.setPhase p (.enforced id)).opener q).phase
      by_cases hq : q = p
      · subst hq
        rw [setPhase_opener_self]
        rfl
      · rw [setPhase_opener_of_ne s hq]
        have hheld := h.phase q
        cases hother : (s.opener q).phase with
        | stamping id' rest =>
          rw [hother] at hheld
          refine ⟨.inr id.stamp_complete, .inl (hheld.2.resolve_right ?_)⟩
          rintro ⟨rows, hdraft, -⟩
          rw [h.writable_of_stamping hphase] at hdraft
          cases hdraft
          exact hq rfl
        | enforced id' =>
          rw [hother] at hheld
          exact hstays hheld
        | _ => trivial
    · refine hstays (h.verified q known ?_)
      by_cases hq : q = p
      · subst hq
        simpa using hknown
      · rwa [← setPhase_opener_of_ne s hq (.enforced id)]
    · rcases List.mem_cons.1 hin with rfl | hin
      · exact (hsame hcomplete).symm
      · have hpast := h.past stamp hin hcomplete
        exact (hsame (hpast ▸ hcomplete)).symm.trans hpast
  · rw [step_commit_idle fun id hphase => hcase ⟨id, hphase⟩]
    exact h

lemma Stamped.step (h : Stamped s) {a : CheckpointAct π} (ha : s.Consistent a) :
    Stamped (s.step a) := by
  by_cases hcommit : ∃ p, a = .commit p
  · obtain ⟨p, rfl⟩ := hcommit
    exact h.commit ha
  · exact h.step_of_ne_commit fun p hp => hcommit ⟨p, hp⟩

/-- A commit against the file changes a complete stamp. -/
lemma Stamped.not_oneIdentity (h : Stamped s) {a : CheckpointAct π} (ha : ¬ s.Consistent a) :
    ¬ OneIdentity (s.step a) := by
  cases a with
  | commit p =>
    simp only [Consistent, not_forall] at ha
    obtain ⟨id, hphase, hdiffers⟩ := ha
    intro hone
    have hcomplete : s.stamp.Complete := by
      have hheld := h.phase p
      rw [hphase] at hheld
      exact hheld.1.resolve_left hdiffers
    rw [h.step_commit hphase] at hone
    have hstamp : id.stamp = s.stamp := hone.past s.stamp (List.mem_cons_self ..) hcomplete
    exact hdiffers (hstamp ▸ id.stamp_agrees)
  | _ => exact absurd trivial ha

/-- The statements of one call that nothing disturbs. -/
def openAlone (p : π) (id : RuntimeIdentity) (orphans : Bool) : List (CheckpointAct π) :=
  [.request p id orphans, .create p, .select p, .insert p, .insert p, .commit p, .ready p]

lemma obtained_step {a : π × RuntimeIdentity} (h : a ∈ s.obtained) (act : CheckpointAct π) :
    a ∈ (s.step act).obtained := by
  cases act with
  | request p id orphans =>
    simp only [CheckpointWorld.step]
    split
    · split_ifs
      · exact List.mem_cons_of_mem _ h
      · exact h
      · exact h
    · split_ifs <;> exact h
    · exact h
  | ready p =>
    simp only [CheckpointWorld.step]
    split
    · exact List.mem_cons_of_mem _ h
    · exact h
  | select p =>
    simp only [CheckpointWorld.step]
    split
    · split_ifs <;> exact h
    · exact h
  | fail p => exact h
  | crash p => exact h
  | _ =>
    simp only [CheckpointWorld.step]
    split <;> exact h

lemma obtained_run {a : π × RuntimeIdentity} (h : a ∈ s.obtained) (as : List (CheckpointAct π)) :
    a ∈ (Runs.run CheckpointWorld.step s as).obtained :=
  Runs.run_preserves (I := fun s : CheckpointWorld π => a ∈ s.obtained) (fun _ act h => obtained_step h act) h as

/-- Past the request, with a stamp that agrees. -/
lemma obtained_of_opened {p : π} {id : RuntimeIdentity}
    (hphase : (s.opener p).phase = .opened id) (hdraft : s.draft = none)
    (hagrees : s.stamp.Agrees id) :
    (p, id) ∈ (Runs.run CheckpointWorld.step s
      [.create p, .select p, .insert p, .insert p, .commit p, .ready p]).obtained := by
  by_cases hsame : s.stamp = id.stamp
  · simp [CheckpointWorld.step, hphase, hsame ▸ hagrees, hsame, setPhase]
  · simp [CheckpointWorld.step, hphase, hagrees, hsame, setPhase, identityKeys, writable, hdraft]

/-- A file with a missing, partial or complete stamp that agrees is opened. -/
lemma obtained_openAlone {p : π} {id : RuntimeIdentity} (hidle : (s.opener p).phase = .idle)
    (hfile : s.fileExists) (hdraft : s.draft = none) (hagrees : s.stamp.Agrees id)
    (hcomplete : id.Complete) (orphans : Bool) :
    (p, id) ∈ (Runs.run CheckpointWorld.step s (openAlone p id orphans)).obtained := by
  have hopened : (p, id) ∈ (Runs.run CheckpointWorld.step (s.setPhase p (.opened id))
      [.create p, .select p, .insert p, .insert p, .commit p, .ready p]).obtained :=
    obtained_of_opened (by simp) hdraft hagrees
  rw [openAlone, Runs.run_cons]
  cases hverified : (s.opener p).verified with
  | none => simpa [CheckpointWorld.step, hidle, hverified, hfile, hcomplete] using hopened
  | some known =>
    by_cases hknown : known = id
    · refine obtained_run ?_ _
      simp [CheckpointWorld.step, hidle, hverified, hknown]
    · simpa [CheckpointWorld.step, hidle, hverified, hknown, hcomplete] using hopened

/-- One identity, exactly if every commit agrees with what the file says by then; and an idle
process with an identity that agrees can always open the file. -/
theorem one_identity_per_file (fileExists : Bool) (stamp : Stamp) (as : List (CheckpointAct π)) :
    ((∀ n, OneIdentity (Runs.run CheckpointWorld.step (fresh fileExists stamp) (as.take n))) ↔
      Runs.Along CheckpointWorld.step Consistent (fresh fileExists stamp) as) ∧
    ∀ s : CheckpointWorld π, ∀ p id orphans, (s.opener p).phase = .idle → s.fileExists →
      s.draft = none → s.stamp.Agrees id → id.Complete →
      (p, id) ∈ (Runs.run CheckpointWorld.step s (openAlone p id orphans)).obtained := by
  constructor
  · exact Runs.along_iff_of_prefixes (I := Stamped) (P := OneIdentity)
      (fun s a h ha => h.step ha) (fun s h => h.oneIdentity) (fun s a h ha => h.not_oneIdentity ha)
      (Stamped.fresh fileExists stamp) as
  · intro s p id orphans hidle hfile hdraft hagrees hcomplete
    exact obtained_openAlone hidle hfile hdraft hagrees hcomplete orphans

/-- Two runtimes that read an unstamped file before either has stamped it both obtain a
checkpointer, and the second replaces the first one's stamp. -/
theorem two_identities_one_file :
    ∃ as : List (CheckpointAct Bool), ∃ manager legacy : RuntimeIdentity, manager ≠ legacy ∧
      (true, manager) ∈ (Runs.run CheckpointWorld.step (fresh true ⟨none, none⟩) as).obtained ∧
      (false, legacy) ∈ (Runs.run CheckpointWorld.step (fresh true ⟨none, none⟩) as).obtained ∧
      manager.stamp ∈ (Runs.run CheckpointWorld.step (fresh true ⟨none, none⟩) as).past ∧
      (Runs.run CheckpointWorld.step (fresh true ⟨none, none⟩) as).stamp = legacy.stamp := by
  refine ⟨[.request true ⟨"manager_v1", "1"⟩ false, .create true, .select true,
    .request false ⟨"fc_loop", "0"⟩ false, .create false, .select false,
    .insert true, .insert true, .commit true, .ready true,
    .insert false, .insert false, .commit false, .ready false],
    ⟨"manager_v1", "1"⟩, ⟨"fc_loop", "0"⟩, ?_⟩
  decide

end CheckpointWorld

end RentCompass.Agent
