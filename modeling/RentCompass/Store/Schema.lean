import RentCompass.Rows
import RentCompass.Text

/-!
# The conversation database

One row type for each table of `_SCHEMA`, with the columns of the source, and the database as
the record of its tables. Rows stand in the order of insertion, which is the order of the
`AUTOINCREMENT` keys of `messages` and `background_jobs`.

Time is in microseconds. `uuid.uuid4().hex` never repeats: an id is a number, and whoever draws
ids is handed the first number not drawn before.
-/

namespace RentCompass

/-- A `uuid.uuid4().hex`. -/
abbrev Id := Nat

/-- A point of the UTC clock, in microseconds. -/
abbrev Instant := Nat

/-- The resolved identity all rows are scoped to. -/
abbrev UserId := Text

def second : Instant := 1000000

/-- The text of an id, as it stands in the keys built from it. -/
def Id.text (i : Id) : Text := Text.ofNat i

/-- A JSON value. -/
inductive Json where
  | null
  | bool (b : Bool)
  | num (q : Rat)
  | str (s : Text)
  | arr (xs : List Json)
  | obj (kvs : List (Text × Json))

/-- The truth value of the Python object the JSON stands for. -/
def Json.truthy : Json → Bool
  | .null => false
  | .bool b => b
  | .num q => q ≠ 0
  | .str s => s ≠ []
  | .arr xs => !xs.isEmpty
  | .obj kvs => !kvs.isEmpty

/-- A Python object given to `json.dumps`, which accepts it or raises. -/
inductive PyObj where
  | json (j : Json)
  | unserialisable

def PyObj.truthy : PyObj → Bool
  | .json j => j.truthy
  | .unserialisable => true

namespace Store

inductive Role where
  | user
  | assistant
deriving DecidableEq

inductive TurnStatus where
  | running
  | completed
  | failed
deriving DecidableEq

inductive JobStatus where
  | pending
  | running
  | completed
  | dead
deriving DecidableEq

structure Conversation where
  userId : UserId
  id : Id
  title : Text
  createdAt : Instant
  updatedAt : Instant
  parentConversationId : Option Id
  forkedFromTurnId : Option Id
  rootConversationId : Option Id
  branchDepth : Nat
  contextSchemaVersion : Nat
  forkReason : Option Text
  editedSlotTurnId : Option Id
  agentArch : Text
  agentVersion : Text
  strict : Bool

structure Message where
  id : Nat
  userId : UserId
  conversationId : Id
  role : Role
  content : Text
  responseType : Option Text
  recommendationsJson : Option Json
  timestamp : Instant
  turnId : Option Id
  responseMetadataJson : Option Json

structure Favorite where
  userId : UserId
  url : Text
  propertyJson : Json
  createdAt : Instant

structure Turn where
  id : Id
  userId : UserId
  conversationId : Id
  requestId : Option Text
  userMessageId : Option Nat
  assistantMessageId : Option Nat
  status : TurnStatus
  startedAt : Instant
  completedAt : Option Instant
deriving DecidableEq

structure TurnRequest where
  userId : UserId
  requestId : Text
  conversationId : Id
  turnId : Id
  createdAt : Instant
deriving DecidableEq

structure Lease where
  userId : UserId
  conversationId : Id
  turnId : Id
  acquiredAt : Instant
  expiresAt : Instant
  ownerId : Option Id
deriving DecidableEq

structure StoreOwner where
  ownerId : Id
  host : Text
  pid : Nat
  startedAt : Instant
  heartbeatAt : Instant

structure ErasureLock where
  userId : UserId
  startedAt : Instant

structure Job where
  id : Nat
  userId : UserId
  conversationId : Id
  turnId : Id
  kind : Text
  dedupeKey : Text
  payloadJson : Json
  resultJson : Option Json
  status : JobStatus
  attempts : Nat
  availableAt : Instant
  claimedBy : Option Text
  leaseExpires : Option Instant
  lastError : Option Text
  createdAt : Instant
  updatedAt : Instant

/-- What `build_turn_snapshot` puts into a snapshot. The store reads and writes `turn_id`, the
summary and its marker, and the revision; the rest it keeps as it is. -/
structure Snapshot where
  schemaVersion : Nat
  turnId : Option Id
  userPreferences : Json
  accumulatedSearchCriteria : Json
  lastResults : Json
  viewResults : Json
  recommendedRegistry : Json
  summary : Option Text
  summaryThroughTurnId : Option Id
  contextRevision : Nat
  searchRetrieval : Option Json
  shownAlternatives : Option Json

structure TurnSnapshot where
  turnId : Id
  userId : UserId
  conversationId : Id
  schemaVersion : Nat
  snapshotJson : Snapshot
  createdAt : Instant

structure ForkRequest where
  userId : UserId
  idempotencyKey : Text
  conversationId : Id
  createdAt : Instant
  requestFingerprint : Option Text

/-- The database: its tables, and the next values of the two `AUTOINCREMENT` keys. -/
structure Db where
  conversations : List Conversation
  messages : List Message
  favorites : List Favorite
  turns : List Turn
  turnRequests : List TurnRequest
  leases : List Lease
  owners : List StoreOwner
  erasureLocks : List ErasureLock
  jobs : List Job
  snapshots : List TurnSnapshot
  forkRequests : List ForkRequest
  nextMessageId : Nat
  nextJobId : Nat

def Db.empty : Db where
  conversations := []
  messages := []
  favorites := []
  turns := []
  turnRequests := []
  leases := []
  owners := []
  erasureLocks := []
  jobs := []
  snapshots := []
  forkRequests := []
  nextMessageId := 1
  nextJobId := 1

/-- What the store's methods raise. -/
inductive StoreError where
  | valueError (message : String)
  | typeError
  | integrityError (message : String)
  | runtimeError (message : String)
  | privacyErasureInProgress (message : String)
  | idempotencyKeyReused (key : Text)
  | conversationNotFound (conversationId : Id)
  | conversationBusy (holder : Text) (retryAfter : Nat)
  | noCompletedTurn (conversationId : Id)
  | turnNotFound (turnId : Id)
  | turnNotInConversation (turnId : Id)
  | turnNotCompleted (turnId : Id)
  | backgroundJobGone (message : String)
deriving DecidableEq

/-- What a method answers, and the database it leaves. -/
abbrev Outcome (α : Type) := Except StoreError α × Db

/-- `BEGIN … COMMIT` around a body: when the body raises, `ROLLBACK` and raise. -/
def transaction {α : Type} (db : Db) (body : Except StoreError (α × Db)) : Outcome α :=
  match body with
  | .ok (a, db') => (.ok a, db')
  | .error e => (.error e, db)

@[simp] lemma transaction_ok {α : Type} (db : Db) (a : α) (db' : Db) :
    transaction db (.ok (a, db')) = (.ok a, db') := rfl

@[simp] lemma transaction_error {α : Type} (db : Db) (e : StoreError) :
    transaction db (.error e : Except StoreError (α × Db)) = (.error e, db) := rfl

/-- A transaction leaves the database its body committed, or the database as it was. -/
lemma transaction_snd {α : Type} {db : Db} {body : Except StoreError (α × Db)} {P : Db → Prop}
    (h₀ : P db) (h : ∀ a db', body = .ok (a, db') → P db') : P (transaction db body).2 := by
  cases body with
  | error e => exact h₀
  | ok r => exact h r.1 r.2 rfl

lemma transaction_fst_ok {α : Type} {db : Db} {body : Except StoreError (α × Db)} {a : α}
    {db' : Db} (h : transaction db body = (.ok a, db')) : body = .ok (a, db') := by
  cases body with
  | error e => simp at h
  | ok r => obtain ⟨b, db''⟩ := r; simpa using h

lemma transaction_fst_error {α : Type} {db : Db} {body : Except StoreError (α × Db)}
    {e : StoreError} (h : (transaction db body).1 = .error e) : (transaction db body).2 = db := by
  cases body with
  | error e => rfl
  | ok r => simp [transaction] at h

/-! ### Text bound to a statement -/

/-- `_safe_text`: text that UTF-8 cannot encode is stored with replacement characters. -/
def safeText (t : Text) : Text :=
  if t.any Text.isSurrogate then t.replaceSurrogates else t

lemma safeText_of_storable {t : Text} (h : t.Storable) : safeText t = t := by
  have : t.any Text.isSurrogate = false := by simpa [Text.Storable] using h
  simp [safeText, this]

/-- Whatever a caller hands in, a statement is bound to text the database can encode. -/
lemma safeText_storable (t : Text) : (safeText t).Storable := by
  unfold safeText
  split
  · exact Text.replaceSurrogates_storable t
  · next h => simpa [Text.Storable] using h

lemma safeText_ne_nil {t : Text} (h : t ≠ []) : safeText t ≠ [] := by
  unfold safeText
  split
  · exact Text.replaceSurrogates_ne_nil h
  · exact h

/-- The title length bound of `TITLE_MAX_CHARS`. -/
def titleMaxChars : Nat := 200

def isBidiControl (c : Nat) : Bool :=
  c == 0x61C || c == 0x200E || c == 0x200F || (0x202A ≤ c && c ≤ 0x202E) ||
    (0x2066 ≤ c && c ≤ 0x2069)

def newChat : Text := Text.ofString "New chat"

/-- `_bounded_title`: `value` bounded, else `fallback` and `suffix` with the suffix kept. -/
def boundedTitle (value : Option Text) (fallback : Text) (suffix : Text) : Text :=
  let text := Text.joinSpace (Text.split ((value.getD []).filter (!isBidiControl ·)))
  if text ≠ [] then Text.rstrip (text.take titleMaxChars)
  else
    let room := titleMaxChars - suffix.length
    let title := Text.rstrip ((Text.joinSpace (Text.split fallback)).take room) ++ suffix
    if title ≠ [] then title else newChat

/-- `CANCELLED_TURN_TEXTS`. -/
def cancelledTurnTexts : List Text :=
  [Text.ofString "Request cancelled.", Text.ofString "请求已取消。"]

def errorType : Text := Text.ofString "error"

end Store

end RentCompass
