import Mathlib.Tactic.Lemma
import Mathlib.Data.List.Basic

/-!
# Transactions on one shared connection

A critical section opens a transaction, reads, makes its writes one after the other and commits;
any statement may raise, and then the section rolls back. A write is a function of what the
transaction sees, which raises where a check before the statement does. Which statements raise
on their own account is given by `faults`: `BEGIN` is the first, `COMMIT` the last.

Leaving the section, nothing is left open and the committed state is the old one or the whole
new one.
-/

namespace Transactions

variable {σ ε : Type*}

/-- What is committed, and what the open transaction sees, when one is open. -/
structure Connection (σ : Type*) where
  committed : σ
  working : Option σ

namespace Connection

/-- `ROLLBACK`. -/
def rollback (k : Connection σ) : Connection σ := { k with working := none }

/-- `BEGIN IMMEDIATE`. -/
def openWork (k : Connection σ) : Connection σ := { k with working := some k.committed }

/-- What a statement reads and writes. -/
def view (k : Connection σ) : σ := k.working.getD k.committed

/-- A write of the open transaction. -/
def write (k : Connection σ) (s : σ) : Connection σ := { k with working := some s }

/-- `COMMIT`. -/
def commit (k : Connection σ) : Connection σ := { committed := k.view, working := none }

@[simp] lemma rollback_committed (k : Connection σ) : k.rollback.committed = k.committed := rfl

@[simp] lemma rollback_rollback (k : Connection σ) : k.rollback.rollback = k.rollback := rfl

@[simp] lemma openWork_view (k : Connection σ) : k.openWork.view = k.committed := rfl

@[simp] lemma openWork_rollback (k : Connection σ) : k.openWork.rollback = k.rollback := rfl

@[simp] lemma write_view (k : Connection σ) (s : σ) : (k.write s).view = s := rfl

@[simp] lemma write_rollback (k : Connection σ) (s : σ) : (k.write s).rollback = k.rollback := rfl

end Connection

/-- No statement raises on its own account. -/
def noFaults : Nat → Option ε := fun _ => none

/-- The writes of a transaction from its `n`-th statement on, up to the first that raises. -/
def runWrites (faults : Nat → Option ε) :
    Nat → List (σ → Except ε σ) → Connection σ → Except ε Unit × Connection σ
  | _, [], k => (.ok (), k)
  | n, w :: ws, k =>
    match w k.view with
    | .error e => (.error e, k)
    | .ok s =>
      match faults n with
      | some e => (.error e, k)
      | none => runWrites faults (n + 1) ws (k.write s)

/-- What the writes make of a state when no statement raises on its own account. -/
def applyWrites (ws : List (σ → Except ε σ)) (s : σ) : Except ε σ :=
  match ws with
  | [] => .ok s
  | w :: ws =>
    match w s with
    | .error e => .error e
    | .ok s' => applyWrites ws s'

/-- A critical section: a transaction that bypassed the lock is rolled back, then `BEGIN`, the
reads and checks that fix the writes, the writes, `COMMIT`. -/
def transact (faults : Nat → Option ε) (body : σ → Except ε (List (σ → Except ε σ)))
    (k : Connection σ) : Except ε Unit × Connection σ :=
  match faults 0 with
  | some e => (.error e, k.rollback)
  | none =>
    match body k.rollback.openWork.view with
    | .error e => (.error e, k.rollback.openWork.rollback)
    | .ok ws =>
      match runWrites faults 1 ws k.rollback.openWork with
      | (.error e, k') => (.error e, k'.rollback)
      | (.ok _, k') =>
        match faults (ws.length + 1) with
        | some e => (.error e, k'.rollback)
        | none => (.ok (), k'.commit)

lemma applyWrites_cons (w : σ → Except ε σ) (ws : List (σ → Except ε σ)) (s : σ) :
    applyWrites (w :: ws) s = (w s).bind (applyWrites ws) := by
  rw [applyWrites]
  cases w s <;> rfl

lemma applyWrites_append (ws ws' : List (σ → Except ε σ)) (s : σ) :
    applyWrites (ws ++ ws') s = (applyWrites ws s).bind (applyWrites ws') := by
  induction ws generalizing s with
  | nil => rfl
  | cons w ws ih =>
    rw [List.cons_append, applyWrites, applyWrites]
    cases w s with
    | error e => rfl
    | ok s' => exact ih s'

/-- Writes that went through are the writes of a run without faults. Whatever prefix of them was
made, the committed state has not moved. -/
lemma runWrites_cases (faults : Nat → Option ε) (n : Nat) (ws : List (σ → Except ε σ))
    (k : Connection σ) :
    (∃ s, applyWrites ws k.view = .ok s ∧ ∃ k', runWrites faults n ws k = (.ok (), k') ∧
      k'.view = s ∧ k'.rollback = k.rollback) ∨
    ∃ e k', runWrites faults n ws k = (.error e, k') ∧ k'.rollback = k.rollback := by
  induction ws generalizing n k with
  | nil => exact .inl ⟨_, rfl, k, rfl, rfl, rfl⟩
  | cons w ws ih =>
    rw [runWrites, applyWrites]
    cases w k.view with
    | error e => exact .inr ⟨e, k, rfl, rfl⟩
    | ok s =>
      dsimp only
      cases faults n with
      | some e => exact .inr ⟨e, k, rfl, rfl⟩
      | none => simpa using ih (n + 1) (k.write s)

/-- Without faults the writes raise what a check raises, and nothing else. -/
lemma runWrites_noFaults (n : Nat) (ws : List (σ → Except ε σ)) (k : Connection σ) :
    (runWrites noFaults n ws k).1 = (applyWrites ws k.view).map fun _ => () := by
  induction ws generalizing n k with
  | nil => rfl
  | cons w ws ih =>
    rw [runWrites, applyWrites]
    cases w k.view with
    | error e => rfl
    | ok s => exact ih (n + 1) (k.write s)

/-- All or nothing: a critical section commits all its writes, or raises and commits none, and
leaves no transaction open. -/
theorem transact_cases (faults : Nat → Option ε) (body : σ → Except ε (List (σ → Except ε σ)))
    (k : Connection σ) :
    (∃ ws s, body k.committed = .ok ws ∧ applyWrites ws k.committed = .ok s ∧
      transact faults body k = (.ok (), { committed := s, working := none })) ∨
    ∃ e, transact faults body k = (.error e, k.rollback) := by
  unfold transact
  cases faults 0 with
  | some e => exact .inr ⟨e, rfl⟩
  | none =>
    simp only [Connection.openWork_view, Connection.rollback_committed]
    cases body k.committed with
    | error e => exact .inr ⟨e, rfl⟩
    | ok ws =>
      dsimp only
      rcases runWrites_cases faults 1 ws k.rollback.openWork with
        ⟨s, hs, k', hrun, hview, hback⟩ | ⟨e, k', hrun, hback⟩
      · rw [hrun]
        dsimp only
        cases faults (ws.length + 1) with
        | some e => exact .inr ⟨e, by simp [hback]⟩
        | none => exact .inl ⟨ws, s, rfl, hs, by simp [Connection.commit, hview]⟩
      · rw [hrun]
        exact .inr ⟨e, by simp [hback]⟩

/-- Without faults a critical section does what its body says. -/
theorem transact_noFaults (body : σ → Except ε (List (σ → Except ε σ))) (k : Connection σ) :
    transact noFaults body k =
      match (body k.committed).bind (applyWrites · k.committed) with
      | .error e => (.error e, k.rollback)
      | .ok s => (.ok (), { committed := s, working := none }) := by
  unfold transact
  simp only [noFaults, Connection.openWork_view, Connection.rollback_committed]
  cases body k.committed with
  | error e => rfl
  | ok ws =>
    simp only [Except.bind]
    have hrun := runWrites_noFaults 1 ws k.rollback.openWork
    rcases runWrites_cases noFaults 1 ws k.rollback.openWork with
      ⟨s, hs, k', heq, hview, -⟩ | ⟨e, k', heq, hback⟩
    · simp only [Connection.openWork_view, Connection.rollback_committed] at hs
      simp [heq, hs, Connection.commit, hview]
    · rw [heq] at hrun
      cases happly : applyWrites ws k.committed with
      | error e' =>
        obtain rfl : e = e' := by simpa [happly, Except.map] using hrun
        simp [heq, hback]
      | ok s => simp [happly, Except.map] at hrun

end Transactions
