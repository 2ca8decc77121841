import RentCompass.Runs
import RentCompass.Store.Snapshots
import RentCompass.Store.Erasure

/-!
# The store shared by processes

The state of the system is the database, the supply of ids, what calls of several transactions
carry from one to the next, and a history of what has happened. An action is one transaction, or
one read outside a transaction; the process, the clock, the liveness of owners and all arguments
are part of it, so a list of actions is one interleaving of any number of processes.

The history is written and never read: no action depends on it.
-/

namespace RentCompass.Store

/-- A turn started through `start_request_turn`. -/
structure Start where
  userId : UserId
  requestId : Text
  userContent : Text
  turnId : Id
deriving DecidableEq

/-- What the history keeps of a start. -/
def StartArgs.record (a : StartArgs) (tid : Id) : Start where
  userId := a.userId
  requestId := a.key
  userContent := a.userContent
  turnId := tid

structure History where
  /-- The turns `start_request_turn` started. -/
  started : List Start
  /-- The turns `finalize_request_turn` committed as completed. -/
  completed : List Id
  /-- The turns `finalize_request_turn` committed with an answer other than a cancellation. -/
  delivered : List Id
  /-- The jobs claimed, once for each claim. -/
  claims : List Nat
  /-- The inherited turns and their copies. -/
  copies : List (Id × Id)

/-- A read of `retry_background_job` whose write has not been made yet. -/
structure RetryRead where
  worker : Text
  jobId : Nat
  attempts : Nat

structure World where
  db : Db
  nextId : Id
  plans : List BranchPlan
  orphans : List Orphan
  retries : List RetryRead
  history : History

def World.empty : World where
  db := .empty
  nextId := 0
  plans := []
  orphans := []
  retries := []
  history := { started := [], completed := [], delivered := [], claims := [], copies := [] }

inductive Action where
  | startRequestTurn (p : Process) (now : Instant) (a : StartArgs)
  | finalizeRequestTurn (now : Instant) (u : UserId) (tid : Id) (f : FinalizeArgs)
  | failTurn (now : Instant) (u : UserId) (tid : Id)
  | scanOrphans (p : Process) (now : Instant)
  | closeOrphan (now : Instant) (i : Nat)
  | createConversation (now : Instant) (u : UserId) (title : Option Text)
      (agentArch agentVersion : Text) (strict : Bool)
  | planFork (u : UserId) (source : Id) (afterTurnId : Option Id) (title key : Option Text)
  | planEdit (u : UserId) (source turnId : Id) (title key : Option Text)
  | commitBranch (now : Instant) (i : Nat)
  | clearConversation (p : Process) (now : Instant) (u : UserId) (cid : Id)
  | deleteConversation (p : Process) (now : Instant) (u : UserId) (cid : Id)
  | beginPrivacyErasure (p : Process) (now : Instant) (u : UserId)
  | deleteAllUserData (u : UserId)
  | endPrivacyErasure (u : UserId)
  | claimJob (worker : Text) (now : Instant) (leaseSeconds : Int)
  | saveJobResult (worker : Text) (id : Nat) (now : Instant) (result : Json)
  | completeJob (worker : Text) (id : Nat) (now : Instant)
  | readRetry (worker : Text) (id : Nat)
  | writeRetry (i : Nat) (error : Text) (maxAttempts : Int) (now : Instant)
  | patchSummary (now : Instant) (u : UserId) (cid : Id) (summary : Text) (through : Id)
  /-- Processes start, beat and die: the rows of `store_owners` become any rows. -/
  | owners (rows : List StoreOwner)

/-- The answer a finished turn gives is more than a notice of its cancellation. -/
def FinalizeArgs.answers (f : FinalizeArgs) : Bool :=
  !(f.responseType = some errorType &&
    Text.strip (safeText f.assistantContent) ∈ cancelledTurnTexts)

/-- The call finds the turn running and commits. -/
def World.closes (w : World) (now : Instant) (u : UserId) (tid : Id) (f : FinalizeArgs) : Bool :=
  (w.db.turnOf u tid).any (·.status = .running) && (finalizeRequestTurn now u tid f w.db).1.isOk

/-- `finalize_request_turn`, with what it adds to the history. -/
def World.finalize (w : World) (now : Instant) (u : UserId) (tid : Id) (f : FinalizeArgs) :
    World :=
  { w with
    db := (finalizeRequestTurn now u tid f w.db).2
    history := { w.history with
      completed := w.history.completed ++
        if w.closes now u tid f ∧ f.status = .completed then [tid] else []
      delivered := w.history.delivered ++
        if w.closes now u tid f ∧ f.answers then [tid] else [] } }

/-- `start_request_turn`, with what it adds to the history. -/
def World.start (w : World) (p : Process) (now : Instant) (a : StartArgs) : World :=
  let (r, db) := startRequestTurn p now w.nextId a w.db
  { w with
    db := db
    nextId := w.nextId + 2
    history := { w.history with
      started := w.history.started ++ match r with
        | .ok { replayed := false, turn, .. } => [a.record turn.id]
        | _ => [] } }

/-- A branch plan is kept until its transaction; an error or an existing child ends the call. -/
def World.plan (w : World) : Except StoreError BranchRead → World
  | .ok (.plan p) => { w with plans := w.plans ++ [p] }
  | _ => w

/-- The transaction of the `i`-th plan. -/
def World.commit (w : World) (now : Instant) (i : Nat) : World :=
  match w.plans[i]? with
  | none => w
  | some plan =>
    let srcTurns := plan.srcTurns (w.db.insertConversation (plan.child w.nextId now))
    let (r, db) := commitBranch now w.nextId plan w.db
    { w with
      db := db
      nextId := w.nextId + 1 + srcTurns.length
      plans := w.plans.eraseIdx i
      history := { w.history with
        copies := w.history.copies ++
          if r.isOk then turnMap (w.nextId + 1) srcTurns else [] } }

/-- One action. -/
def World.act (w : World) : Action → World
  | .startRequestTurn p now a => w.start p now a
  | .finalizeRequestTurn now u tid f => w.finalize now u tid f
  | .failTurn now u tid => { w with db := failTurn now u tid w.db }
  | .scanOrphans p now => { w with orphans := w.orphans ++ orphanedTurns p now w.db }
  | .closeOrphan now i =>
    match w.orphans[i]? with
    | none => w
    | some o =>
      { w with orphans := w.orphans.eraseIdx i }.finalize now o.userId o.turnId
        (orphanArgs w.db o)
  | .createConversation now u title agentArch agentVersion strict =>
    { w with
      db := createConversation now w.nextId u title agentArch agentVersion strict w.db
      nextId := w.nextId + 1 }
  | .planFork u source afterTurnId title key =>
    w.plan (forkConversationPlan w.db u source afterTurnId title key)
  | .planEdit u source turnId title key =>
    w.plan (branchForEditPlan w.db u source turnId title key)
  | .commitBranch now i => w.commit now i
  | .clearConversation p now u cid =>
    { w with db := (clearConversationMessages p now u cid w.db).2 }
  | .deleteConversation p now u cid => { w with db := (deleteConversation p now u cid w.db).2 }
  | .beginPrivacyErasure p now u => { w with db := (beginPrivacyErasure p now u w.db).2 }
  | .deleteAllUserData u => { w with db := (deleteAllUserData u w.db).2 }
  | .endPrivacyErasure u => { w with db := endPrivacyErasure u w.db }
  | .claimJob worker now leaseSeconds =>
    -- a worker is one thread: it finishes its report before it claims again
    if w.retries.any (·.worker = worker) then w
    else
      { w with
        db := (claimBackgroundJob worker now leaseSeconds w.db).2
        history := { w.history with
          claims := w.history.claims ++
            ((claimBackgroundJob worker now leaseSeconds w.db).1.map (·.id)).toList } }
  | .saveJobResult worker id now result =>
    { w with db := (saveBackgroundJobResult worker id now result w.db).2 }
  | .completeJob worker id now => { w with db := (completeBackgroundJob worker id now w.db).2 }
  | .readRetry worker id =>
    { w with retries := w.retries ++ ((retryAttempts worker id w.db).map
        fun attempts => { worker := worker, jobId := id, attempts := attempts }).toList }
  | .writeRetry i error maxAttempts now =>
    match w.retries[i]? with
    | none => w
    | some r =>
      { w with
        db := retryBackgroundJob r.worker r.jobId r.attempts error maxAttempts now w.db
        retries := w.retries.eraseIdx i }
  | .patchSummary now u cid summary through =>
    { w with db := (patchLatestSnapshotSummary now u cid summary through w.db).2 }
  | .owners rows => { w with db := { w.db with owners := rows } }

/-- The world after an interleaving, from the empty store. -/
def World.after (as : List Action) : World := Runs.run World.act .empty as

/-! ### A conversation for examples -/

/-- A process on a host of its own. -/
def sampleProcess : Process where
  ownerId := 100
  host := Text.ofString "web-1"
  pidAlive := fun _ => true

/-- A first message under the request id `r1`. -/
def sampleStart : StartArgs where
  userId := Text.ofString "alice"
  conversationId := none
  requestId := Text.ofString "r1"
  userContent := Text.ofString "2 rooms in Leeds"
  leaseSeconds := 900
  createTitle := none
  agentArch := Text.ofString "react"
  agentVersion := Text.ofString "1"
  strict := false

def sampleSnapshot (turnId : Id) : Snapshot where
  schemaVersion := 1
  turnId := some turnId
  userPreferences := .obj []
  accumulatedSearchCriteria := .obj []
  lastResults := .arr []
  viewResults := .arr []
  recommendedRegistry := .obj []
  summary := none
  summaryThroughTurnId := none
  contextRevision := 0
  searchRetrieval := none
  shownAlternatives := none

/-- An answer that completes a turn. -/
def sampleAnswer (turnId : Id) : FinalizeArgs where
  status := .completed
  assistantContent := Text.ofString "Here are three."
  responseType := some (Text.ofString "chat")
  recommendations := none
  snapshot := some (.dict (sampleSnapshot turnId))
  snapshotSchemaVersion := 1
  backgroundJobs := []
  responseMetadata := none

/-- The first turn of a new conversation, answered. -/
def sampleRun : List Action :=
  [.startRequestTurn sampleProcess 0 sampleStart,
   .finalizeRequestTurn 1 sampleStart.userId 0 (sampleAnswer 0)]

end RentCompass.Store
