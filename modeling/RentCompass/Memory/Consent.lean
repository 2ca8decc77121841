import RentCompass.Store.Visibility
import RentCompass.Memory.AgentMemory

/-!
# The consent to be remembered

A message may ask not to be remembered for the rest of its conversation, or let the memory run
again. The ledger holds a row for each conversation that is paused; a branch looks up the rows of
the conversations above it.
-/

namespace RentCompass.Memory

open Rows Store

/-- `MEMORY_SCOPE_CONVERSATION` and `MEMORY_SCOPE_MESSAGE` -/
inductive OptOutScope where
  | conversation
  | message
  deriving DecidableEq

inductive PauseEvent where
  | paused
  | resumed
  deriving DecidableEq

/-- What the patterns read off a message: `memory_opt_out_scope`, and whether a message that does
not opt out for the conversation meets the patterns of `memory_resume_requested`. -/
structure ConsentRules where
  optOutScope : Text → Option OptOutScope
  resumes : Text → Bool

/-- What `conversation_memory_turn` returns. -/
structure MemoryTurn where
  withhold : Bool
  /-- The flag after the turn; `none` where it could not be read. -/
  paused : Option Bool
  event : Option PauseEvent
  scope : Option OptOutScope
  deriving DecidableEq

/-- A row of `conversation_memory_pause`. -/
structure Pause where
  userId : Text
  conversationId : Id
  pausedAt : Instant
  deriving DecidableEq

/-- The ledger; `none` where it cannot be read. -/
abbrev PauseLedger := Option (List Pause)

/-! ### The ledger -/

/-- `MemoryGateStore.memory_paused_at` -/
def memoryPausedAt (pauses : List Pause) (uid : Text) (cid : Id) : Option Instant :=
  (selectOne (fun p : Pause => p.userId = uid ∧ p.conversationId = cid) pauses).map (·.pausedAt)

/-- `MemoryGateStore.set_memory_paused`: a row that is there keeps its time. -/
def setMemoryPaused (pauses : List Pause) (uid : Text) (cid : Id) (paused : Bool) (now : Instant) :
    List Pause :=
  if paused then
    if (memoryPausedAt pauses uid cid).isSome then pauses else pauses ++ [⟨uid, cid, now⟩]
  else deleteWhere (fun p => p.userId = uid ∧ p.conversationId = cid) pauses

/-- `conversation_memory_paused`; a user without an identity is never paused. -/
def conversationMemoryPaused (ledger : PauseLedger) (u : UserId) (cid : Id) : Option Bool :=
  match validUserId (some u) with
  | none => some false
  | some uid => ledger.map fun pauses => (memoryPausedAt pauses uid cid).isSome

/-- `conversation_memory_paused_at`; the outer `none` is an exception. -/
def conversationMemoryPausedAt (ledger : PauseLedger) (u : UserId) (cid : Id) :
    Option (Option Instant) :=
  match validUserId (some u) with
  | none => some none
  | some uid => ledger.map fun pauses => memoryPausedAt pauses uid cid

/-- `set_conversation_memory_paused` -/
def setConversationMemoryPaused (ledger : PauseLedger) (u : UserId) (cid : Id) (paused : Bool)
    (now : Instant) : PauseLedger :=
  match validUserId (some u) with
  | none => ledger
  | some uid => ledger.map fun pauses => setMemoryPaused pauses uid cid paused now

/-! ### One turn -/

/-- The pause stands since before the branch point, `before`. -/
def standsBefore (pausedAt : Instant) (before : Option Instant) : Prop :=
  ∀ b, before = some b → pausedAt ≤ b

instance (pausedAt : Instant) : (before : Option Instant) → Decidable (standsBefore pausedAt before)
  | none => isTrue fun _ h => nomatch h
  | some b => decidable_of_iff (pausedAt ≤ b) ⟨fun h _ hb => Option.some.inj hb ▸ h, fun h => h b rfl⟩

/-- The loop of `_paused_before_fork`. -/
def pausedAbove (ledger : PauseLedger) (u : UserId) : List LineageEntry → Option Bool
  | [] => some false
  | entry :: rest =>
    match conversationMemoryPausedAt ledger u entry.conversationId with
    | none => none
    | some none => pausedAbove ledger u rest
    | some (some pausedAt) =>
      if standsBefore pausedAt entry.before then some true else pausedAbove ledger u rest

/-- `_paused_before_fork` -/
def pausedBeforeFork (ledger : PauseLedger) (u : UserId) (lineage : List LineageEntry) :
    Option Bool :=
  pausedAbove ledger u lineage.tail

variable (rules : ConsentRules)

/-- `memory_resume_requested` -/
def resumeRequested (msg : Text) : Bool :=
  if rules.optOutScope msg = some .conversation then false else rules.resumes msg

/-- `conversation_memory_turn` -/
def conversationMemoryTurn (previously : Option Bool) (msg : Text) : MemoryTurn :=
  let scope := rules.optOutScope msg
  if scope = some .conversation then ⟨true, some true, some .paused, scope⟩
  else
    match previously with
    | none => ⟨true, none, none, scope⟩
    | some true =>
      if resumeRequested rules msg then ⟨scope.isSome, some false, some .resumed, scope⟩
      else ⟨true, some true, none, scope⟩
    | some false => ⟨scope.isSome, some false, none, scope⟩

/-- What `apply_conversation_memory_turn` returns, and the ledger it leaves. -/
structure AppliedTurn where
  turn : MemoryTurn
  previouslyPaused : Option Bool
  ledger : PauseLedger

/-- `apply_conversation_memory_turn` -/
def applyConversationMemoryTurn (ledger : PauseLedger) (u : UserId) (cid : Id) (msg : Text)
    (lineage : List LineageEntry) (now : Instant) : AppliedTurn :=
  let own := conversationMemoryPaused ledger u cid
  let consults := own = some false ∧ lineage ≠ []
  let inherited := pausedBeforeFork ledger u lineage
  let previously := if consults then inherited else own
  let ledger :=
    if consults ∧ inherited = some true then setConversationMemoryPaused ledger u cid true now
    else ledger
  let turn := conversationMemoryTurn rules previously msg
  let ledger :=
    match turn.paused with
    | none => ledger
    | some paused =>
      if some paused = previously then ledger
      else setConversationMemoryPaused ledger u cid paused now
  ⟨turn, previously, ledger⟩

/-! ### The system -/

/-- What the user chose in a turn of a conversation. -/
structure Choice where
  conversationId : Id
  startedAt : Instant
  paused : Bool
  deriving DecidableEq

/-- The store, the ledger and a history of choices, which nothing reads. -/
structure ConsentWorld where
  store : World
  pauses : List Pause
  choices : List Choice

def ConsentWorld.empty : ConsentWorld := ⟨.empty, [], []⟩

inductive ConsentAction where
  | store (a : Store.Action)
  /-- A running turn decides what becomes of it, with the ledger readable or not. -/
  | decide (now : Instant) (u : UserId) (cid : Id) (msg : Text) (readable : Bool)

/-- The choice a message makes. -/
def choiceOf (msg : Text) : Option Bool :=
  if rules.optOutScope msg = some .conversation then some true
  else if resumeRequested rules msg then some false
  else none

/-- The running turn of a conversation. -/
def ConsentWorld.running (s : ConsentWorld) (u : UserId) (cid : Id) : Option Turn :=
  selectOne (fun t : Turn => t.userId = u ∧ t.conversationId = cid ∧ t.status = .running)
    s.store.db.turns

/-- The decision of a turn. -/
def ConsentWorld.decision (s : ConsentWorld) (now : Instant) (u : UserId) (cid : Id) (msg : Text)
    (readable : Bool) : AppliedTurn :=
  applyConversationMemoryTurn rules (if readable then some s.pauses else none) u cid msg
    (getBranchLineage s.store.db u cid) now

def ConsentWorld.act (s : ConsentWorld) : ConsentAction → ConsentWorld
  | .store a => { s with store := s.store.act a }
  | .decide now u cid msg readable =>
    match s.running u cid with
    | none => s
    | some t =>
      { s with
        pauses := ((s.decision rules now u cid msg readable).ledger).getD s.pauses
        choices := s.choices ++
          ((choiceOf rules msg).map fun paused => ⟨cid, t.startedAt, paused⟩).toList }

/-- The system after an interleaving. -/
def ConsentWorld.after (as : List ConsentAction) : ConsentWorld :=
  Runs.run (ConsentWorld.act rules) .empty as

end RentCompass.Memory
