import RentCompass.Memory.Collection
import RentCompass.Md5
import Mathlib.Data.List.Lex
import Mathlib.Data.List.Sort
import Mathlib.Data.Rat.Defs
import Mathlib.Order.Defs.LinearOrder

/-!
# The memory of the agent

What writes the memory of a user: `add`, the rewriting of a row in place, the erasure of a field,
and the background job that extracts facts, supersedes old values and consolidates. Only the store
of the application is modelled here, without the older collection; its calls succeed unless what
they are given cannot be encoded.
-/

namespace RentCompass.Memory

open Rows

/-! ### Rows -/

/-- `SOURCE_EXPLICIT` -/
def sourceExplicit : Text := "explicit_remember"

/-- `SOURCE_AUTO` -/
def sourceAuto : Text := "auto_extracted"

/-- `extra_meta`: where a row comes from. Absent keys are omitted. -/
structure Provenance where
  source : Option Text
  originConversationId : Option Text
  originTurnId : Option Text
  conversationId : Option Text
  turnId : Option Text
  turnStartedAt : Option Text
  deriving DecidableEq

def Provenance.none : Provenance := ⟨.none, .none, .none, .none, .none, .none⟩

/-- The metadata of a row. -/
structure RowMeta extends Provenance where
  mtype : Option Text
  sessionId : Text
  userId : Option Text
  role : Text
  importance : Int
  createdAt : Text
  lastAccess : Text
  hash : Option Text
  piiCategories : Text
  idempotencyKey : Option Text
  updatedAt : Option Text
  updatedTurnId : Option Text
  deriving DecidableEq

instance : LawfulBEq (MemoryRow RowMeta) := inferInstance

variable {β : Type}

/-- The rows of the store. -/
abbrev MemoryStore (β : Type) := Collection RowMeta β

/-- A field whose value can be erased. -/
inductive Field where
  | budget
  deriving DecidableEq

inductive BoundKind where
  | money
  | minutes
  deriving DecidableEq

/-- What the code reads off a text: its patterns, and the model that rates a memory. -/
structure MemoryRules (κ δ : Type) where
  redactSecrets : Text → Text
  classifyPii : Text → Text
  rateImportance : Text → Int
  instructionShaped : Text → Bool
  criteriaRow : Text → Bool
  rowBounds : Text → BoundKind → Option Rat
  softBound : Text → Bool
  firmBoundStated : Text → BoundKind → Option Rat → Bool
  supersededText : Text → κ → Option Text
  statesFieldValue : Text → Field → Text → Bool
  withoutFieldClauses : Text → Field → Text
  erasureRequestFields : Text → List Field
  /-- `1.0 - _cosine(_features(text), _features(document))` -/
  distance : Text → Text → δ

/-! ### Adding -/

/-- `str.lower` of ASCII. -/
def asciiLower (t : Text) : Text := t.map fun c => if 65 ≤ c ∧ c ≤ 90 then c + 32 else c

/-- `_valid_user_id`; `none` is what is not a text. -/
def validUserId (userId : Option Text) : Option Text :=
  userId.bind fun id =>
    let uid := id.strip
    if uid = [] ∨ asciiLower uid = Text.ofString "default" then none else some uid

/-- `hashlib.md5(f"{mtype}|{user_id}|{text}".encode("utf-8")).hexdigest()` -/
def contentHash (mtype uid text : Text) : Text :=
  Md5.hexDigest (mtype ++ "|" ++ uid ++ "|" ++ text)

/-- `_DEFAULT_IMPORTANCE.get(mtype, 5)` -/
def defaultImportance (mtype : Text) : Int :=
  if mtype = Text.ofString "semantic" then 7
  else if mtype = Text.ofString "reflection" then 8
  else 5

/-- The arguments of `add`, and what the clock shows. -/
structure AddCall where
  text : Text
  mtype : Text
  sessionId : Text
  userId : Option Text
  role : Text
  importance : Option Int
  idempotencyKey : Option Text
  extraMeta : Provenance
  now : Text

inductive AddReply where
  /-- `None` -/
  | refused
  /-- The id of a row that was there. -/
  | found (id : Text)
  /-- The id of the new row. -/
  | stored (id : Text)
  /-- `UnicodeEncodeError` -/
  | unencodable
  deriving DecidableEq

variable {κ δ : Type} (rules : MemoryRules κ δ)

/-- The text a call stores. -/
def AddCall.document (a : AddCall) : Text := (rules.redactSecrets a.text.strip).strip

/-- `if idempotency_key` -/
def AddCall.key (a : AddCall) : Option Text := a.idempotencyKey.filter (· ≠ [])

/-- The id of a new row. -/
def AddCall.rowId (a : AddCall) (uid : Text) : Text :=
  match a.key with
  | some key => Text.ofString "idem_" ++ Sha256.hexDigest (uid ++ "|" ++ key)
  | none => a.mtype ++ "_" ++ contentHash a.mtype uid (a.document rules)

def AddCall.row (a : AddCall) (uid : Text) : MemoryRecord RowMeta where
  id := a.rowId rules uid
  document := a.document rules
  metadata :=
    { a.extraMeta with
      mtype := some a.mtype
      sessionId := a.sessionId
      userId := some uid
      role := a.role
      importance := a.importance.getD
        (if a.mtype = Text.ofString "episodic" then rules.rateImportance (a.document rules)
          else defaultImportance a.mtype)
      createdAt := a.now
      lastAccess := a.now
      hash := some (contentHash a.mtype uid (a.document rules))
      piiCategories := rules.classifyPii (a.document rules)
      idempotencyKey := a.key
      updatedAt := none
      updatedTurnId := none }

/-- `col.get` of the rows of a user with an idempotency key. -/
def Collection.withKey (c : MemoryStore β) (uid key : Text) : List (MemoryRow RowMeta) :=
  c.get none fun row => row.metadata.idempotencyKey = some key ∧ row.metadata.userId = some uid

/-- `col.get` of the rows of a user with a content hash. -/
def Collection.withHash (c : MemoryStore β) (uid hash : Text) : List (MemoryRow RowMeta) :=
  c.get none fun row => row.metadata.hash = some hash ∧ row.metadata.userId = some uid

/-- The row an `add` takes for its own. -/
def AddCall.previous (a : AddCall) (uid : Text) (c : MemoryStore β) : Option (MemoryRow RowMeta) :=
  (a.key.bind fun key => (c.withKey uid key).head?).or
    (c.withHash uid (contentHash a.mtype uid (a.document rules))).head?

/-- `_add_record` -/
def addRecord (c : MemoryStore β) (a : AddCall) : MemoryStore β × AddReply :=
  match validUserId a.userId with
  | none => (c, .refused)
  | some uid =>
    if a.document rules = [] then (c, .refused)
    else if ¬ (a.mtype ++ uid ++ a.document rules).Storable then (c, .unencodable)
    else
      match a.previous rules uid c with
      | some row => (c, .found row.id)
      | none =>
        if ¬ (a.key.getD []).Storable then (c, .unencodable)
        -- the id may be taken; a process that has just taken it would be found by its row
        else if a.rowId rules uid ∈ c.ids then (c, .refused)
        else (c.add [a.row rules uid], .stored (a.rowId rules uid))

/-! ### Erasing a field -/

/-- The rows of a user. -/
def Collection.ofUser (c : MemoryStore β) (uid : Text) : List (MemoryRow RowMeta) :=
  c.get none fun row => row.metadata.userId = some uid

/-- A row states the value of one of the fields. -/
def statesAny (fields : List Field) (row : MemoryRow RowMeta) : Bool :=
  fields.any fun f => rules.statesFieldValue row.document f (row.metadata.mtype.getD [])

/-- What a document says besides the fields. -/
def withoutFields (fields : List Field) (document : Text) : Text :=
  fields.foldl (fun rest f => if rest = [] then [] else rules.withoutFieldClauses rest f) document

/-- A row says something besides the fields, and is kept without them. -/
def keepsRest (fields : List Field) (row : MemoryRow RowMeta) : Bool :=
  withoutFields rules fields row.document ≠ [] ∧ row.metadata.userId ≠ some []

/-- The content hash follows the text, if the row has one. -/
def RowMeta.rehash (m : RowMeta) (uid text : Text) : RowMeta :=
  { m with hash := m.hash.map fun _ =>
      contentHash ((m.mtype.filter (· ≠ [])).getD "semantic") uid text }

/-- `forget_fact`, of a valid user; the ledger of erasures is kept apart. -/
def forgetFact (c : MemoryStore β) (uid : Text) (fields : List Field) (now : Text) : MemoryStore β :=
  let stated := (c.ofUser uid).filter (statesAny rules fields)
  let doomed := (stated.filter fun row => ¬ keepsRest rules fields row).map (·.id)
  let rewritten := stated.filter (keepsRest rules fields)
  let scrubbed := if doomed = [] then c else c.delete doomed
  rewritten.foldl (fun c row =>
    let rest := withoutFields rules fields row.document
    c.update [⟨row.id, some rest,
      some ({ row.metadata with updatedAt := some now }.rehash uid rest)⟩]) scrubbed

/-- `add`: a user's own message may ask for an erasure. -/
def add (c : MemoryStore β) (a : AddCall) : MemoryStore β × AddReply :=
  let r := addRecord rules c a
  match validUserId a.userId with
  | none => r
  | some uid =>
    let fields := rules.erasureRequestFields a.text
    if r.2 = .unencodable ∨ a.mtype ≠ Text.ofString "episodic" ∨ a.role ≠ Text.ofString "user" ∨
        fields = [] then r
    else
      let erased := forgetFact rules r.1 uid fields a.now
      match r.2 with
      | .found id | .stored id =>
        if id ∈ r.1.ids ∧ id ∉ erased.ids then (erased, .refused) else (erased, r.2)
      | _ => (erased, r.2)

/-- `forget` -/
def forget (c : MemoryStore β) (uid : Text) : MemoryStore β :=
  match (c.ofUser uid).map (·.id) with
  | [] => c
  | doomed => c.delete doomed

/-! ### Rewriting in place -/

/-- `col.delete(ids=[id])` -/
def deleteRow (c : MemoryStore β) (id : Text) : MemoryStore β :=
  match (c.get (some [id]) fun _ => true).map (·.id) with
  | [] => c
  | doomed => c.delete doomed

/-- `_update_semantic`, and whether it succeeded; an id without a row is passed over. -/
def updateSemantic (c : MemoryStore β) (id text : Text) (turnRef : Option Text) (now : Text) :
    MemoryStore β × Bool :=
  if ¬ id.Storable then (c, false)
  else
    match (c.get (some [id]) fun _ => true).head? with
    | none => (c, true)
    | some row =>
      let text := rules.redactSecrets text
      if ¬ text.Storable then (c, false)
      else
        match row.metadata.userId.filter (· ≠ []) with
        | none => (c.update [⟨id, some text, none⟩], true)
        | some uid =>
          let stamped := { row.metadata with
            updatedAt := some now
            updatedTurnId := ((turnRef.filter (· ≠ [])).map (List.take 80)).or
              row.metadata.updatedTurnId }
          (c.update [⟨id, some text, some (stamped.rehash uid text)⟩], true)

/-- `_supersede_slot_facts`, for changes that are not empty. -/
def supersedeSlotFacts (c : MemoryStore β) (changes : κ) (uid : Text) (turnRef : Option Text)
    (now : Text) : MemoryStore β :=
  let rows := c.get none fun row =>
    row.metadata.userId = some uid ∧ row.metadata.mtype = some (Text.ofString "semantic")
  rows.foldl (fun c row =>
    if row.metadata.source ≠ some sourceAuto ∨ rules.criteriaRow row.document = false then c
    else
      match (rules.supersededText row.document changes).filter (· ≠ []) with
      | some text => (updateSemantic rules c row.id text turnRef now).1
      | none => c) c

/-! ### Consolidation -/

/-- The id of an operation. -/
inductive OpId where
  | text (t : Text)
  /-- A number or a boolean, as the store would compare it, or none where it is false. -/
  | scalar (shown : Option Text)
  /-- A list or an object, which no set can be asked for. -/
  | compound
  deriving DecidableEq

/-- The id, if it is true. -/
def OpId.name : OpId → Option Text
  | .text t => if t = [] then none else some t
  | .scalar shown => shown
  | .compound => none

/-- The id as an element of a set of ids. -/
def OpId.key : OpId → Option Text
  | .text t => some t
  | _ => none

inductive OpEvent where
  | add
  | update
  | delete
  | other
  deriving DecidableEq

/-- An operation of the model's answer. -/
inductive Op where
  | op (event : OpEvent) (id : OpId) (text : Text)
  /-- Not an object, or with an event or a text that is not a string. -/
  | malformed
  deriving DecidableEq

/-- A consolidation job: what it is called with, the state of its turn, whether the search for
known rows fails, and the operations of the model's answer, each with the time it is met at. -/
structure Consolidation where
  facts : List Text
  sessionId : Text
  userId : Text
  changed : Bool
  userMsg : Text
  turnId : Option Text
  conversationId : Option Text
  lookupFails : Bool
  ops : List (Text × Op)

namespace Consolidation

variable (job : Consolidation)

/-- The facts that do not read as instructions. -/
def kept : List Text := job.facts.filter fun fact => ¬ rules.instructionShaped fact

section

variable [LinearOrder δ]

/-- Nearer to a text, or as near and with the smaller id. -/
def Nearer (text : Text) (r s : MemoryRow RowMeta) : Prop :=
  rules.distance text r.document < rules.distance text s.document ∨
    rules.distance text r.document = rules.distance text s.document ∧ r.id ≤ s.id

instance (text : Text) : DecidableRel (Nearer rules text) := fun _ _ =>
  inferInstanceAs (Decidable (_ ∨ _ ∧ _))

/-- The rows the model is shown: for each fact the four nearest semantic rows of the user. -/
def retrieved (c : MemoryStore β) : List (MemoryRow RowMeta) :=
  if job.lookupFails then []
  else
    let rows := c.get none fun row =>
      row.metadata.userId = some job.userId ∧ row.metadata.mtype = some (Text.ofString "semantic")
    (job.kept rules).flatMap fun fact => (rows.insertionSort (Nearer rules fact)).take 4

end

/-- `protected`: an explicitly saved row, and under a change of criteria any row that is not the
user's own extracted criterion. -/
def shields (row : MemoryRow RowMeta) : Bool :=
  row.metadata.source = some sourceExplicit ∨
    job.changed ∧ (row.metadata.source ≠ some sourceAuto ∨ rules.criteriaRow row.document = false)

/-- The text of a row the model was shown. -/
def textOf (known : List (MemoryRow RowMeta)) (id : OpId) : Option Text :=
  (known.find? fun row => id.key = some row.id).map (·.document)

/-- `_loosened_bound` -/
def loosenedBound (old new : Text) : Option BoundKind :=
  [BoundKind.money, .minutes].find? fun kind =>
    match rules.rowBounds old kind with
    | none => false
    | some before =>
      match rules.rowBounds new kind with
      | none => true
      | some after => before < after ∨ rules.softBound new ∧ rules.softBound old = false

/-- A bound that the operation would loosen, and that stands. -/
def keptBound (known : List (MemoryRow RowMeta)) (update : Bool) (id : OpId) (text : Text) :
    Option BoundKind :=
  ((textOf known id).bind fun old => loosenedBound rules old (if update then text else [])).filter
    fun kind => rules.firmBoundStated job.userMsg kind
      (if update then rules.rowBounds text kind else none) = false

/-- `self.add(text, "semantic", …, extra_meta=self._auto_row_meta())`, and whether the job goes
on. -/
def addFact (c : MemoryStore β) (now text : Text) : MemoryStore β × Bool :=
  let r := addRecord rules c
    { text, mtype := "semantic", sessionId := job.sessionId, userId := some job.userId, role := []
      importance := some 7, idempotencyKey := none, now
      extraMeta := { Provenance.none with
        source := some sourceAuto
        originConversationId := job.conversationId
        originTurnId := job.turnId } }
  (r.1, r.2 ≠ .unencodable)

def addFacts (c : MemoryStore β) (now : Text) : List Text → MemoryStore β × Bool
  | [] => (c, true)
  | text :: texts =>
    match job.addFact rules c now text with
    | (c', true) => addFacts c' now texts
    | (c', false) => (c', false)

/-- An `UPDATE` or a `DELETE`. -/
def change (known : List (MemoryRow RowMeta)) (c : MemoryStore β) (now : Text) (update : Bool)
    (id : OpId) (text : Text) : MemoryStore β × Bool :=
  if id = .compound then (c, false)
  else if (known.filter (job.shields rules)).any fun row => id.key = some row.id then
    -- a new fact that the model folded into an update of the row
    if update ∧ text ∈ job.kept rules then job.addFact rules c now text else (c, true)
  else
    match job.keptBound rules known update id text with
    | some kind =>
      job.addFacts rules c now
        ((job.kept rules).filter fun fact => (rules.rowBounds fact kind).isSome)
    | none =>
      match id.name with
      | none => (c, true)
      | some id =>
        if update = false then (if id.Storable then deleteRow c id else c, true)
        else if text = [] then (c, true)
        else
          match updateSemantic rules c id text job.turnId now with
          | (c', true) => (c', true)
          | (c', false) => job.addFact rules c' now text

/-- One operation, and whether the loop goes on to the next. -/
def apply (known : List (MemoryRow RowMeta)) (c : MemoryStore β) (now : Text) : Op → MemoryStore β × Bool
  | .malformed => (c, false)
  | .op .add _ text =>
    if text.strip = [] then (c, true) else job.addFact rules c now text.strip
  | .op .update id text => job.change rules known c now true id text.strip
  | .op .delete id text => job.change rules known c now false id text.strip
  | .op .other _ _ => (c, true)

/-- The loop over the operations, which an exception ends. -/
def loop (known : List (MemoryRow RowMeta)) (c : MemoryStore β) : List (Text × Op) → MemoryStore β
  | [] => c
  | (now, op) :: ops =>
    match job.apply rules known c now op with
    | (c', true) => loop known c' ops
    | (c', false) => c'

end Consolidation

/-- `_consolidate` -/
def consolidate [LinearOrder δ] (job : Consolidation) (c : MemoryStore β) : MemoryStore β :=
  if job.kept rules = [] then c else job.loop rules (job.retrieved rules c) c job.ops

end RentCompass.Memory
