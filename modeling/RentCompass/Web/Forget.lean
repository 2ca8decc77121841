import RentCompass.Web.UserRows

/-!
# Erasing an account

`forget_me` erases four stores one after the other under the barrier of `begin_privacy_erasure`,
while other work of the same user goes on: requests, the agents and handlers of turns, workers that
execute memory jobs. Each piece of work carries the ticket of the request it is done for, and the
rows it writes are remembered with that ticket. The user and the setting of the checkpointer are
fixed.
-/

namespace RentCompass.Web

open Store

/-- Requests are numbered in the order they arrive. -/
abbrev Ticket := Nat

/-! ### Favourites -/

/-- `add_favorite`. -/
def addFavorite (u : UserId) (url : Text) (json : Json) (now : Instant) (db : Db) : Db :=
  if db.favorites.any fun r => r.userId = u ∧ r.url = url then
    { db with
      favorites := Rows.updateWhere (fun r : Favorite => r.userId = u ∧ r.url = url)
        (fun r => { r with propertyJson := json }) db.favorites }
  else
    { db with
      favorites := db.favorites ++
        [{ userId := u, url := url, propertyJson := json, createdAt := now }] }

/-- `remove_favorite`. -/
def removeFavorite (u : UserId) (url : Text) (db : Db) : Db :=
  { db with
    favorites := Rows.deleteWhere (fun r : Favorite => r.userId = u ∧ r.url = url) db.favorites }

/-! ### Work in flight -/

/-- What a piece of work may still do. -/
inductive Duty where
  /-- A request that has not started a turn. -/
  | request
  /-- The handler of a turn while its agent runs. -/
  | agent (turnId conversationId : Id)
  /-- The handler of a turn after its agent has ended. -/
  | handler (turnId : Id)
  /-- A worker that executes a memory job, whether or not it still has the lease. -/
  | memoryJob
deriving DecidableEq

structure Task where
  ticket : Ticket
  duty : Duty

/-- The next step of a `forget_me` call. -/
inductive Stage where
  | list
  | forgetMemory
  | checkMemory
  | deleteThread (rest : List Id)
  | checkThread (cid : Id) (rest : List Id)
  | relational
  | deleteCredentials
  | checkCredentials
  | clearHot
  | checkHot
  | answer
  | finish (complete : Bool)
deriving DecidableEq

/-- A `forget_me` call after its barrier is up. The first three fields are what the call found
then: the next ticket, the conversations and the accounts of the user. -/
structure Forget where
  since : Ticket
  conversations : List Id
  accounts : List Ticket
  stage : Stage
  conversationIds : List Id
  memoryOk : Bool
  checkpointsOk : Bool
  relationalOk : Bool
  credentialsOk : Bool
  hotOk : Bool

/-- A `forget_me` call that was answered, or has raised. -/
structure Answered where
  complete : Bool
  accountsBefore : List Ticket
  accountsAfter : List Ticket

/-- An erasure that was answered as complete. -/
structure Erasure where
  since : Ticket
  conversations : List Id

/-- The stores, as far as the user has rows in them, and the work in flight. Rows outside the
conversation database are the tickets they were written for. -/
structure Platform where
  world : World
  memory : List Ticket
  threads : List (Id × Ticket)
  accounts : List Ticket
  sessions : List Ticket
  /-- The slices in the session cache of the process that serves `forget_me`. -/
  slices : List Id
  tasks : List Task
  nextTicket : Ticket
  /-- The ticket of the request that started a turn. -/
  starters : List (Id × Ticket)
  /-- The tickets the rows of the conversation database were inserted for, the last first. -/
  authors : List (RowKey × Ticket)
  forget : Option Forget
  /-- The erasures answered as complete, the last first. -/
  completed : List Erasure
  answers : List Answered

/-- No ticket is `0`, which stands for no request. -/
def Platform.empty : Platform where
  world := .empty
  memory := []
  threads := []
  accounts := []
  sessions := []
  slices := []
  tasks := []
  nextTicket := 1
  starters := []
  authors := []
  forget := none
  completed := []
  answers := []

/-- What a request does before it has started a turn. -/
inductive Request where
  | start (p : Process) (now : Instant) (a : StartArgs)
  | createConversation (now : Instant) (title : Option Text) (agentArch agentVersion : Text)
      (strict : Bool)
  | planFork (source : Id) (afterTurnId : Option Id) (title key : Option Text)
  | planEdit (source turnId : Id) (title key : Option Text)
  | commitBranch (now : Instant) (i : Nat)
  | addFavorite (url : Text) (json : Json) (now : Instant)
  | removeFavorite (url : Text)
  | clearConversation (p : Process) (now : Instant) (cid : Id)
  | deleteConversation (p : Process) (now : Instant) (cid : Id)
  | dropThread (cid : Id)
  | register
  | login
  | logout (i : Nat)

inductive Step where
  | arrive
  | leave (i : Nat)
  | request (i : Nat) (r : Request)
  | remember (i : Nat)
  | checkpoint (i : Nat)
  | agentDone (i : Nat)
  | finalize (i : Nat) (now : Instant) (f : FinalizeArgs)
  | fail (i : Nat) (now : Instant)
  | claim (worker : Text) (now : Instant) (leaseSeconds : Int)
  | rememberTurn (i : Nat)
  /-- A worker or a process reports: one of the actions that `isReport` lets pass. -/
  | report (a : Action)
  | closeOrphan (now : Instant) (i : Nat)
  | loadSlice (cid : Id)
  | beginForget (p : Process) (now : Instant)
  /-- The `forget_me` call goes on; the call it makes may raise. -/
  | forget (raises : Bool)

/-- Reports of workers and processes. -/
def isReport : Action → Bool
  | .saveJobResult .. | .completeJob .. | .readRetry .. | .writeRetry .. | .patchSummary ..
  | .owners _ | .scanOrphans .. => true
  | _ => false

def memoryTurn : Text := Text.ofString "memory_turn"

section Transitions

variable (u : UserId) (checkpointer : Bool)

/-- A change of the conversation database made for a request. -/
def Platform.store (s : Platform) (k : Ticket) (w : World) : Platform :=
  { s with
    world := w
    authors := ((rowsOf w.db u).filter (· ∉ rowsOf s.world.db u)).map (fun key => (key, k)) ++
      s.authors }

/-- The ticket of the request that started a turn. -/
def Platform.starter (s : Platform) (tid : Id) : Ticket := (s.starters.lookup tid).getD 0

/-- The ticket a row was last inserted for. -/
def Platform.author (s : Platform) (key : RowKey) : Ticket := (s.authors.lookup key).getD 0

/-- The start of a turn by the `i`-th piece of work. -/
def Platform.startTurn (s : Platform) (i : Nat) (k : Ticket) (p : Process) (now : Instant)
    (a : StartArgs) : Platform :=
  let a := { a with userId := u }
  let s' := s.store u k (s.world.act (.startRequestTurn p now a))
  match (startRequestTurn p now s.world.nextId a s.world.db).1 with
  | .ok { replayed := false, turn, .. } =>
    { s' with
      tasks := s.tasks.set i { ticket := k, duty := .agent turn.id turn.conversationId }
      starters := s.starters ++ [(turn.id, k)] }
  | _ => s'

/-- What the `i`-th piece of work, a request, does. -/
def Platform.perform (s : Platform) (i : Nat) (k : Ticket) : Request → Platform
  | .start p now a => s.startTurn u i k p now a
  | .createConversation now title agentArch agentVersion strict =>
    s.store u k (s.world.act (.createConversation now u title agentArch agentVersion strict))
  | .planFork source afterTurnId title key =>
    s.store u k (s.world.act (.planFork u source afterTurnId title key))
  | .planEdit source turnId title key =>
    s.store u k (s.world.act (.planEdit u source turnId title key))
  | .commitBranch now j => s.store u k (s.world.act (.commitBranch now j))
  | .addFavorite url json now =>
    s.store u k { s.world with db := Web.addFavorite u url json now s.world.db }
  | .removeFavorite url =>
    s.store u k { s.world with db := Web.removeFavorite u url s.world.db }
  | .clearConversation p now cid => s.store u k (s.world.act (.clearConversation p now u cid))
  | .deleteConversation p now cid => s.store u k (s.world.act (.deleteConversation p now u cid))
  | .dropThread cid => { s with threads := s.threads.filter (·.1 ≠ cid) }
  | .register => { s with accounts := s.accounts ++ [k] }
  | .login => { s with sessions := s.sessions ++ [k] }
  | .logout j => { s with sessions := s.sessions.eraseIdx j }

/-- `claim_background_job`; a memory job of the user is then executed. -/
def Platform.claim (s : Platform) (worker : Text) (now : Instant) (leaseSeconds : Int) : Platform :=
  let s' := s.store u 0 (s.world.act (.claimJob worker now leaseSeconds))
  if s.world.retries.any (·.worker = worker) then s'
  else match (claimBackgroundJob worker now leaseSeconds s.world.db).1 with
    | none => s'
    | some job =>
      if job.userId = u ∧ job.kind = memoryTurn then
        { s' with tasks := s.tasks ++ [{ ticket := s.starter job.turnId, duty := .memoryJob }] }
      else s'

/-- The call is left by an exception: the `finally` block runs. -/
def Forget.raise (f : Forget) : Forget := { f with stage := .finish false }

/-- `delete_all_user_data` inside `forget_me`. -/
def Platform.eraseRelational (s : Platform) (f : Forget) : Platform :=
  { s.store u 0 (s.world.act (.deleteAllUserData u)) with
    forget := some { f with
      relationalOk := (deleteAllUserData u s.world.db).1.isOk, stage := .deleteCredentials } }

/-- One step of `forget_me`. -/
def Platform.goOn (s : Platform) (f : Forget) (raises : Bool) : Platform :=
  match f.stage with
  | .list =>
    if raises then { s with forget := some f.raise }
    else { s with forget := some { f with
      conversationIds := conversationsOf s.world.db u, stage := .forgetMemory } }
  | .forgetMemory =>
    if raises then { s with forget := some { f with stage := .deleteThread f.conversationIds } }
    else { s with memory := [], forget := some { f with stage := .checkMemory } }
  | .checkMemory =>
    { s with forget := some { f with
      memoryOk := !raises && s.memory.isEmpty, stage := .deleteThread f.conversationIds } }
  | .deleteThread [] => { s with forget := some { f with stage := .relational } }
  | .deleteThread (cid :: rest) =>
    if raises then
      { s with forget := some { f with checkpointsOk := false, stage := .deleteThread rest } }
    else if !checkpointer then { s with forget := some { f with stage := .deleteThread rest } }
    else { s with
      threads := s.threads.filter (·.1 ≠ cid)
      forget := some { f with stage := .checkThread cid rest } }
  | .checkThread cid rest =>
    { s with forget := some { f with
      checkpointsOk := f.checkpointsOk && !raises && !(s.threads.any (·.1 = cid))
      stage := .deleteThread rest } }
  | .relational =>
    if f.memoryOk && f.checkpointsOk then
      if raises then
        { s with forget := some { f with relationalOk := false, stage := .deleteCredentials } }
      else s.eraseRelational u f
    -- the rows are kept, and counted outside of any `try`
    else if raises then { s with forget := some f.raise }
    else { s with forget := some { f with relationalOk := false, stage := .deleteCredentials } }
  | .deleteCredentials =>
    if f.memoryOk && f.checkpointsOk && f.relationalOk then
      if raises then
        { s with forget := some { f with credentialsOk := false, stage := .clearHot } }
      else { s with
        accounts := [], sessions := [], forget := some { f with stage := .checkCredentials } }
    else { s with forget := some { f with credentialsOk := false, stage := .clearHot } }
  | .checkCredentials =>
    { s with forget := some { f with
      credentialsOk := !raises && s.accounts.isEmpty && s.sessions.isEmpty, stage := .clearHot } }
  | .clearHot =>
    if f.memoryOk && f.checkpointsOk && f.relationalOk && f.credentialsOk then
      if raises then { s with forget := some f.raise }
      else { s with slices := [], forget := some { f with stage := .checkHot } }
    else { s with forget := some { f with hotOk := false, stage := .answer } }
  | .checkHot =>
    if raises then { s with forget := some f.raise }
    else { s with forget := some { f with hotOk := s.slices.isEmpty, stage := .answer } }
  | .answer =>
    let complete := f.memoryOk && f.checkpointsOk && f.relationalOk && f.credentialsOk && f.hotOk
    if raises then { s with forget := some f.raise }
    else { s with forget := some { f with stage := .finish complete } }
  | .finish complete =>
    -- an exception here takes the place of the answer, and leaves the barrier
    let complete := complete && !raises
    { s with
      world := if raises then s.world else s.world.act (.endPrivacyErasure u)
      forget := none
      completed := if complete then
        { since := f.since, conversations := f.conversations } :: s.completed else s.completed
      answers := s.answers ++
        [{ complete := complete, accountsBefore := f.accounts, accountsAfter := s.accounts }] }

/-- `begin_privacy_erasure`; when it raises, the call is answered as busy and nothing has changed. -/
def Platform.beginForget (s : Platform) (p : Process) (now : Instant) : Platform :=
  match (beginPrivacyErasure p now u s.world.db).1 with
  | .error _ => s
  | .ok () =>
    { s with
      world := s.world.act (.beginPrivacyErasure p now u)
      forget := some
        { since := s.nextTicket, conversations := conversationsOf s.world.db u,
          accounts := s.accounts, stage := .list, conversationIds := [], memoryOk := false,
          checkpointsOk := true, relationalOk := false, credentialsOk := false, hotOk := false } }

/-- One step of the platform. -/
def Platform.step (s : Platform) : Step → Platform
  | .arrive =>
    { s with
      tasks := s.tasks ++ [{ ticket := s.nextTicket, duty := .request }]
      nextTicket := s.nextTicket + 1 }
  | .leave i => { s with tasks := s.tasks.eraseIdx i }
  | .request i r =>
    match s.tasks[i]? with
    | some ⟨k, .request⟩ => s.perform u i k r
    | _ => s
  | .remember i =>
    match s.tasks[i]? with
    | some ⟨k, .agent _ _⟩ => { s with memory := s.memory ++ [k] }
    | _ => s
  | .checkpoint i =>
    match s.tasks[i]? with
    | some ⟨k, .agent _ cid⟩ =>
      if checkpointer then { s with threads := s.threads ++ [(cid, k)] } else s
    | _ => s
  | .agentDone i =>
    match s.tasks[i]? with
    | some ⟨k, .agent tid _⟩ =>
      { s with tasks := s.tasks.set i { ticket := k, duty := .handler tid } }
    | _ => s
  | .finalize i now f =>
    match s.tasks[i]? with
    | some ⟨k, .handler tid⟩ => s.store u k (s.world.act (.finalizeRequestTurn now u tid f))
    | _ => s
  | .fail i now =>
    match s.tasks[i]? with
    | some ⟨k, .handler tid⟩ => s.store u k (s.world.act (.failTurn now u tid))
    | _ => s
  | .claim worker now leaseSeconds => s.claim u worker now leaseSeconds
  | .rememberTurn i =>
    match s.tasks[i]? with
    | some ⟨k, .memoryJob⟩ => { s with memory := s.memory ++ [k] }
    | _ => s
  | .report a => if isReport a then s.store u 0 (s.world.act a) else s
  | .closeOrphan now i =>
    match s.world.orphans[i]? with
    | some o =>
      if o.userId = u then s.store u (s.starter o.turnId) (s.world.act (.closeOrphan now i)) else s
    | none => s
  | .loadSlice cid => { s with slices := s.slices ++ [cid] }
  | .beginForget p now => s.beginForget u p now
  | .forget raises =>
    match s.forget with
    | none => s
    | some f => s.goOn u checkpointer f raises

end Transitions

end RentCompass.Web
