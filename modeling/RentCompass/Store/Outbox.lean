import RentCompass.Store.Schema
import Mathlib.Algebra.Group.Nat.Defs

/-!
# The background outbox

Jobs are claimed under a lease, and every write of a worker names the job and the worker. A
worker reports a failure in two statements, a read of the attempts and the write that uses them.
-/

namespace RentCompass.Store

/-- `UPDATE background_jobs SET … WHERE …`. -/
def Db.updateJobs (db : Db) (p : Job → Prop) [DecidablePred p] (f : Job → Job) : Db :=
  { db with jobs := Rows.updateWhere p f db.jobs }

/-- A running job whose lease has run out. -/
def Job.expired (j : Job) (now : Instant) : Bool :=
  j.status = .running ∧ j.leaseExpires.any (· ≤ now)

/-- A job set back to pending because its lease ran out. -/
def Job.expire (j : Job) (now : Instant) : Job :=
  { j with
    status := .pending, claimedBy := none, leaseExpires := none,
    lastError := j.lastError <|> some (Text.ofString "worker lease expired"), updatedAt := now }

/-- The sweep at the start of every claim. -/
def Db.sweepExpired (db : Db) (now : Instant) : Db :=
  db.updateJobs (fun j => j.expired now) (·.expire now)

/-- A job `claim_background_job` may pick. -/
def Db.claimable (db : Db) (now : Instant) (j : Job) : Prop :=
  j.status = .pending ∧ j.availableAt ≤ now ∧
    (¬ ∃ l ∈ db.erasureLocks, l.userId = j.userId) ∧
    ¬ ∃ j' ∈ db.jobs, j'.userId = j.userId ∧ j'.conversationId = j.conversationId ∧
      j'.status = .running

instance (db : Db) (now : Instant) : DecidablePred (db.claimable now) := fun j =>
  inferInstanceAs (Decidable (j.status = .pending ∧ j.availableAt ≤ now ∧
    (¬ ∃ l ∈ db.erasureLocks, l.userId = j.userId) ∧
    ¬ ∃ j' ∈ db.jobs, j'.userId = j.userId ∧ j'.conversationId = j.conversationId ∧
      j'.status = .running))

/-- What a claim makes of the job. -/
def Job.claim (j : Job) (worker : Text) (now : Instant) (leaseSeconds : Int) : Job :=
  { j with
    status := .running, attempts := j.attempts + 1, claimedBy := some worker,
    leaseExpires := some (now + (max 1 leaseSeconds).toNat * second), updatedAt := now }

/-- `claim_background_job`: one ready job, the jobs of a conversation one at a time. -/
def claimBackgroundJob (worker : Text) (now : Instant) (leaseSeconds : Int) (db : Db) :
    Option Job × Db :=
  let db₁ := db.sweepExpired now
  match Rows.selectOne (db₁.claimable now) db₁.jobs with
  | none => (none, db₁)
  | some row =>
    (some (row.claim worker now leaseSeconds),
      db₁.updateJobs (fun j => j.id = row.id ∧ j.status = .pending)
        (·.claim worker now leaseSeconds))

/-- The job a worker holds: `id=? AND status='running' AND claimed_by=?`. -/
def Job.heldBy (worker : Text) (id : Nat) (j : Job) : Prop :=
  j.id = id ∧ j.status = .running ∧ j.claimedBy = some worker

instance (worker : Text) (id : Nat) : DecidablePred (Job.heldBy worker id) := fun j =>
  inferInstanceAs (Decidable (j.id = id ∧ j.status = .running ∧ j.claimedBy = some worker))

/-- The error of a write that found no job of the worker. -/
def lostJob (db : Db) (id : Nat) (what : String) : StoreError :=
  if db.jobs.any (·.id = id) then .runtimeError what
  else .backgroundJobGone "background job was removed with its conversation"

/-- A job with the result of its work checkpointed. -/
def Job.saveResult (j : Job) (result : Json) (now : Instant) : Job :=
  { j with resultJson := some result, updatedAt := now }

/-- The tombstone of a completed job. -/
def Job.complete (j : Job) (now : Instant) : Job :=
  { j with
    status := .completed, payloadJson := .obj [], resultJson := none, claimedBy := none,
    leaseExpires := none, lastError := none, updatedAt := now }

/-- `save_background_job_result`. -/
def saveBackgroundJobResult (worker : Text) (id : Nat) (now : Instant) (result : Json) (db : Db) :
    Outcome Unit :=
  let db' := db.updateJobs (Job.heldBy worker id) (·.saveResult result now)
  if db.jobs.any (Job.heldBy worker id ·) then (.ok (), db')
  else (.error (lostJob db id "background job lease was lost before saving result"), db')

/-- `complete_background_job`: a tombstone without content keeps the dedupe key. -/
def completeBackgroundJob (worker : Text) (id : Nat) (now : Instant) (db : Db) : Outcome Unit :=
  let db' := db.updateJobs (Job.heldBy worker id) (·.complete now)
  if db.jobs.any (Job.heldBy worker id ·) then (.ok (), db')
  else (.error (lostJob db id "background job lease was lost before completion"), db')

/-- The read of `retry_background_job`: the attempts of the job the worker has claimed. -/
def retryAttempts (worker : Text) (id : Nat) (db : Db) : Option Nat :=
  (Rows.selectOne (fun j : Job => j.id = id ∧ j.claimedBy = some worker) db.jobs).map (·.attempts)

/-- The status a failed job gets. -/
def retryStatus (attempts : Nat) (maxAttempts : Int) : JobStatus :=
  if max 1 maxAttempts ≤ attempts then .dead else .pending

/-- The backoff in seconds. -/
def retryDelay (attempts : Nat) : Nat := min 300 (2 ^ (attempts - 1))

/-- A job whose failure was reported. -/
def Job.retry (j : Job) (attempts : Nat) (error : Text) (maxAttempts : Int) (now : Instant) : Job :=
  { j with
    status := retryStatus attempts maxAttempts,
    availableAt := now + retryDelay attempts * second,
    claimedBy := none, leaseExpires := none, lastError := some (error.take 1000),
    updatedAt := now }

/-- The write of `retry_background_job`, with the attempts read before it. -/
def retryBackgroundJob (worker : Text) (id attempts : Nat) (error : Text) (maxAttempts : Int)
    (now : Instant) (db : Db) : Db :=
  db.updateJobs (fun j => j.id = id ∧ j.claimedBy = some worker)
    (·.retry attempts error maxAttempts now)

end RentCompass.Store
