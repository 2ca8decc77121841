import RentCompass.Agent.Contracts
import RentCompass.Agent.Transcript
import RentCompass.Tools.Execution
import RentCompass.Tools.StrictSchema

/-!
# Tool batches

The node `execute_tools` answers the tool calls of one assistant message. It plans every call
first, as one to run or one to refuse, runs the calls of the plan at once, and then writes for
each a message and an entry of the turn's ledger of artifacts. How a call ends, when, and what the
rest of the harness says of it is input here.
-/

namespace RentCompass.Agent

variable {φ : Type} [FloatFormat φ]

/-! ### The ledger of a turn -/

/-- An entry of `tool_artifacts`. -/
structure Artifact (φ : Type) where
  turn : Nat
  tool : Text
  rawData : JsonValue φ
  paramsDigest : Text
  success : Bool
  error : JsonValue φ
  timedOut : Bool := false
  denied : Bool := false
  abandoned : Bool := false
  outcomeUnknown : Bool := false
  starved : Bool := false

/-- `_is_executed`. -/
def Artifact.isExecuted (a : Artifact φ) : Bool :=
  !(a.timedOut || a.denied || a.abandoned || a.outcomeUnknown)

/-- What a turn carries from node to node. -/
structure Turn (φ : Type) where
  messages : List (Message φ)
  artifacts : List (Artifact φ)
  contextTainted : Bool
  loopTurn : Nat

/-- `create_initial_state`. -/
def Turn.start : Turn φ where
  messages := []
  artifacts := []
  contextTainted := false
  loopTurn := 0

/-! ### What a batch meets -/

/-- `_UNTRUSTED_TOOLS`. -/
def untrustedTools : List Text :=
  ["web_search", "search_properties", "reasoning_property", "multi_search",
    "get_property_details", "search_nearby_pois"]

/-- `core.memory_gate`. -/
structure MemoryGate where
  explicitRememberClause : (message : Text) → Text
  contentIsUserStated : (content message : Text) → Bool
  rememberPointsBack : (message : Text) → Bool
  restatesAcrossLanguages : (proposed clause : Text) → Bool
  writeAuthorization : (message content : Text) → Bool
  isPureRecallQuestion : (message : Text) → Bool
  /-- The digest of the frozen content, `""` where it could not be frozen. -/
  freezePendingWrite : (sessionId content kind : Text) → Text

/-- `memory_write_allowed`. -/
def memoryWriteAllowed (contextTainted userAuthorized : Bool) : Bool :=
  if contextTainted then userAuthorized else true

/-- A refusal of `core.tool_policy`. -/
structure PolicyDenial (φ : Type) where
  reason : Text
  guidance : Text
  reference : Option (JsonValue φ)

/-- What does not change in a turn. -/
structure Settings (φ : Type) where
  /-- `_params_digest`, sixteen hexadecimal digits. -/
  paramsDigest : (tool : Text) → (params : Dict (JsonValue φ)) → Text
  digest_ne : ∀ tool params, paramsDigest tool params ≠ []
  /-- `_turn_tool_call_cap`. -/
  turnToolCallCap : (tool : Text) → Nat
  str : JsonValue φ → Text
  /-- `json.dumps(_, ensure_ascii=False, default=str)`. -/
  dumps : JsonValue φ → Text
  /-- The content of `_derived_toolmsg`: projected, sanitized and capped. -/
  derivedContent : (tool : Text) → Tools.ToolResult φ → Text
  /-- `_is_manager_evidence_note`. -/
  isEvidenceNote : Message φ → Bool
  noteHuman : ∀ m, isEvidenceNote m → ∃ content, m = .human content

/-- The spec a name has in `{s.name: s for s in specs}`. -/
def specOf (specs : List (ToolSpec φ)) (name : Text) : Option (ToolSpec φ) :=
  specs.reverse.find? (·.name = name)

def isWrite (specs : List (ToolSpec φ)) (name : Text) : Bool :=
  (specOf specs name).any (·.sideEffect = Text.ofString "write")

/-- What one batch reads of its surroundings. -/
structure Surroundings (φ : Type) where
  specs : List (ToolSpec φ)
  /-- The registry has the commute check as a read. -/
  commuteReads : isWrite specs "calculate_commute" = false
  gate : Option MemoryGate
  strict : Bool
  /-- The user's current message. -/
  message : Text
  userId : Text
  sessionId : Text
  memoryPaused : Bool
  /-- The arguments the harness supplies for a tool: search criteria, coordinates and the like. -/
  inject : (tool : Text) → Dict (JsonValue φ) → Dict (JsonValue φ)
  /-- `assess_search_readiness(...).status != "ready"`. -/
  unready : Dict (JsonValue φ) → Bool
  /-- `_read_tool_denial`. -/
  readToolDenial : (tool : Text) → Dict (JsonValue φ) → Option (PolicyDenial φ)
  /-- `commute_query_forbidden`. -/
  commuteForbidden : Bool

/-! ### Arguments -/

/-- `a or b or ...`, where a missing field is `None`. -/
def firstTruthy (fields : Dict (JsonValue φ)) : List Text → Option (JsonValue φ)
  | [] => none
  | key :: keys =>
    match fields.get? key with
    | some v => if Tools.truthy v then some v else firstTruthy fields keys
    | none => firstTruthy fields keys

def harnessKey (key : Text) : Bool := key.head? = some 95

/-- The arguments of the memory tools: whose memory it is comes from the state, and a proposal
that restates what the user asked to be remembered is put in the user's own words. -/
def memoryArgs (cfg : Settings φ) (env : Surroundings φ) (name : Text)
    (args : Dict (JsonValue φ)) : Dict (JsonValue φ) :=
  let args := Dict.insert (Dict.insert args "user_id" (.str env.userId)) "session_id"
    (.str env.sessionId)
  match env.gate with
  | none => args
  | some gate =>
    let clause := if name = "remember" then gate.explicitRememberClause env.message else []
    let proposed := ((firstTruthy args ["content", "fact"]).map cfg.str).getD []
    if clause ≠ [] ∧ gate.contentIsUserStated proposed clause = false ∧
        (gate.rememberPointsBack env.message ∨ gate.contentIsUserStated clause proposed ∨
          gate.restatesAcrossLanguages proposed clause) then
      (Dict.insert args "content" (.str clause)).filter (·.1 ≠ Text.ofString "fact")
    else args

/-- The arguments a call is gated and run with. -/
def finalArgs (cfg : Settings φ) (env : Surroundings φ) (name : Text)
    (args : Dict (JsonValue φ)) : Dict (JsonValue φ) :=
  let args : Dict (JsonValue φ) := args.filter (!harnessKey ·.1)
  let args :=
    if env.strict then
      match specOf env.specs name with
      | some spec =>
        Tools.walkFields (Tools.propertiesOf spec.inputSchema) (Tools.stripNullFields args)
      | none => Tools.stripNullFields args
    else args
  let args :=
    if name ∈ [Text.ofString "recall_memory", "remember"] then memoryArgs cfg env name args
    else env.inject name args
  Tools.stripNullFields args

/-- The content a write would save. -/
def writeContent (cfg : Settings φ) (args : Dict (JsonValue φ)) : Text :=
  ((firstTruthy args ["content", "fact"]).map cfg.str).getD (cfg.dumps (.obj args))

/-! ### The plan -/

/-- What is to become of a call. -/
inductive Mode (φ : Type) where
  | run
  | skipDup
  | gateOpen
  | denyCap (cap : Nat)
  | denyRecall
  | denyPaused
  | denyUnavailable
  | deny (frozen : Text)
  | denyPolicy (denial : PolicyDenial φ)

def Mode.isRun : Mode φ → Bool
  | .run => true
  | _ => false

structure PlanEntry (φ : Type) where
  call : ToolCall φ
  digest : Text
  mode : Mode φ
  args : Dict (JsonValue φ)

def ToolCall.tool (call : ToolCall φ) : Text := call.name.getD []

/-- `_soft_gate_asked`. -/
def softGateAsked (artifacts : List (Artifact φ)) : Bool :=
  artifacts.any fun a => a.tool = "search_properties" &&
    match (Tools.fieldsOf a.rawData).get? "clarification_kind" with
    | some (.str kind) => kind = "soft_criteria"
    | _ => false

/-- `_soft_gate_still_open`. -/
def softGateStillOpen (env : Surroundings φ) (artifacts : List (Artifact φ))
    (args : Dict (JsonValue φ)) : Bool :=
  softGateAsked artifacts && env.unready args

/-- The gate every write passes. -/
def writeMode (cfg : Settings φ) (env : Surroundings φ) (batchTainted : Bool) (name : Text)
    (args : Dict (JsonValue φ)) : Mode φ :=
  match env.gate with
  | none => .denyUnavailable
  | some gate =>
    let content := writeContent cfg args
    let userAuthorized := gate.writeAuthorization env.message content
    if !userAuthorized && gate.isPureRecallQuestion env.message then .denyRecall
    else if !userAuthorized && env.memoryPaused then .denyPaused
    else if memoryWriteAllowed batchTainted userAuthorized then .run
    else
      .deny (gate.freezePendingWrite env.sessionId content
        (((firstTruthy args ["kind"]).map cfg.str).getD name))

/-- Calls of a tool that have run in the turn, and those the plan has let in. -/
def alreadyRun (artifacts : List (Artifact φ)) (plan : List (PlanEntry φ)) (name : Text) : Nat :=
  artifacts.countP (fun a => a.tool = name && a.isExecuted) +
    plan.countP fun e => e.call.tool = name && e.mode.isRun

/-- The gates every read passes. -/
def readMode (cfg : Settings φ) (env : Surroundings φ) (already : Nat) (name : Text)
    (args : Dict (JsonValue φ)) : Mode φ :=
  if cfg.turnToolCallCap name ≤ already then .denyCap (cfg.turnToolCallCap name)
  else
    match env.readToolDenial name args with
    | some denial => .denyPolicy denial
    | none => .run

/-- The plan so far, and the calls seen in the turn. -/
structure Planning (φ : Type) where
  seen : List (Text × Text)
  plan : List (PlanEntry φ)

/-- The calls the ledger has seen. -/
def seenIn (artifacts : List (Artifact φ)) : List (Text × Text) :=
  (artifacts.filter (·.paramsDigest ≠ [])).map fun a => (a.tool, a.paramsDigest)

def Planning.start (artifacts : List (Artifact φ)) : Planning φ := ⟨seenIn artifacts, []⟩

/-- One round of the planning loop. -/
def Planning.add (cfg : Settings φ) (env : Surroundings φ) (artifacts : List (Artifact φ))
    (batchTainted : Bool) (p : Planning φ) (call : ToolCall φ) : Planning φ :=
  let name := call.tool
  let args := finalArgs cfg env name call.args
  let digest := cfg.paramsDigest name args
  let entry (mode : Mode φ) : PlanEntry φ := ⟨call, digest, mode, args⟩
  if name = "search_properties" ∧ softGateStillOpen env artifacts args then
    { p with plan := p.plan ++ [entry .gateOpen] }
  else if (name, digest) ∈ p.seen then { p with plan := p.plan ++ [entry .skipDup] }
  else
    { seen := p.seen ++ [(name, digest)]
      plan := p.plan ++ [entry (
        if isWrite env.specs name then writeMode cfg env batchTainted name args
        else readMode cfg env (alreadyRun artifacts p.plan name) name args)] }

/-- The taint the writes of a batch are gated by: that of the turn, or of the batch as planned. -/
def batchTainted (contextTainted : Bool) (batch : List (ToolCall φ)) : Bool :=
  contextTainted || batch.any (·.tool ∈ untrustedTools)

def planBatch (cfg : Settings φ) (env : Surroundings φ) (s : Turn φ) (batch : List (ToolCall φ)) :
    Planning φ :=
  batch.foldl (Planning.add cfg env s.artifacts (batchTainted s.contextTainted batch))
    (Planning.start s.artifacts)

/-! ### How calls end -/

/-- Whether the plan is run at all. -/
inductive Budget where
  | remaining
  | softExhausted
  | turnExhausted
  deriving DecidableEq

/-- How a read that is dispatched ends. -/
inductive ReadEnd (φ : Type) where
  | finished (result : Tools.ToolResult φ)
  /-- Its own timeout fired. -/
  | timedOut (error : Text) (starved : Bool)
  /-- It was still running when the window of the batch closed. -/
  | abandoned (error : Text) (starved : Bool)
  /-- The specialist boundary refused it. -/
  | specialistDenied (error : Text)
  /-- It ran, and whose result it is could not be verified. -/
  | specialistUnknown (error : Text)

/-- How a write that is dispatched ends: the batch always waits for it. -/
inductive WriteEnd (φ : Type) where
  | finished (result : Tools.ToolResult φ)
  | timedOut (error : Text)

/-- A commute that was looked up for a listing the search found. -/
structure CommuteEvidence (φ : Type) where
  fromAddress : JsonValue φ
  toAddress : JsonValue φ
  travelMode : JsonValue φ
  rawData : JsonValue φ
  status : Text
  error : JsonValue φ

/-- How the calls of a batch end. -/
structure Outcomes (φ : Type) where
  budget : Budget
  read : Nat → ReadEnd φ
  write : Nat → WriteEnd φ
  /-- The validated payload of a search, and the commutes it took. -/
  validated : Nat → JsonValue φ × List (CommuteEvidence φ)
  /-- `evidence_is_tainted` of the specialists' results. -/
  evidenceTainted : Bool

/-- `ToolResult(False, error=error, tool_name=name)`. -/
def failedCall (name error : Text) : Tools.ToolResult φ where
  success := false
  data := .null
  error := .str error
  toolName := name
  version := "1"
  idempotencyKey := none
  outcome := none

/-! ### What is written -/

/-- What a call leaves: entries of the ledger and its answer. -/
structure Written (φ : Type) where
  /-- Evidence of commutes, in front of the call's own entry. -/
  evidence : List (Artifact φ) := []
  artifact : Option (Artifact φ)
  content : Text
  tainted : Bool := false
  /-- The data the answer shows the model. -/
  rendered : JsonValue φ := .null

/-- The taint of `_derived_toolmsg`. -/
def taintOf (tool : Text) (data : JsonValue φ) : Bool :=
  tool ∈ untrustedTools &&
    match data with
    | .null => false
    | _ => true

/-- An entry for a call that did not run. -/
def notRun (turn : Nat) (name digest error : Text) : Artifact φ where
  turn := turn
  tool := name
  rawData := .null
  paramsDigest := digest
  success := false
  error := .str error
  denied := true

/-- An answer that nothing was run for. -/
def refusal (turn : Nat) (name digest ledgerError modelError : Text) : Written φ where
  artifact := some (notRun turn name digest ledgerError)
  content := failedResult modelError

/-- What a call that was not let in leaves. -/
def refused (cfg : Settings φ) (turn : Nat) (name digest : Text) : Mode φ → Written φ
  | .run | .skipDup =>
    { artifact := none
      content := failedResult "already ran; see the earlier result above" }
  | .gateOpen =>
    refusal turn name digest "not run: the search is waiting for the user's answer"
      (Text.ofString "not run: this search is waiting for the user's answer to the " ++
        Text.ofString "question it asked, which the system shows them. Nothing " ++
        Text.ofString "failed. Do not call it again this turn, do not repeat the " ++
        Text.ofString "question, and do not say the search failed; answer only " ++
        Text.ofString "what else the user asked.")
  | .denyPolicy denial =>
    { artifact := some (notRun turn name digest (Text.ofString "denied: " ++ denial.reason))
      content := cfg.dumps (.obj ([(Text.ofString "success", .bool false),
        (Text.ofString "data", .null), (Text.ofString "error", .str denial.guidance)] ++
        ((denial.reference.filter Tools.truthy).map (Text.ofString "reference", ·)).toList)) }
  | .denyCap cap =>
    refusal turn name digest
      (Text.ofString "denied: " ++ name ++ " already ran " ++ JsonValue.decimal cap ++
        " times this turn")
      (Text.ofString "not run: " ++ name ++ " has already run " ++ JsonValue.decimal cap ++
        " time(s) this turn, which is the per-turn limit. Do NOT call it again — answer the user " ++
        Text.ofString "from the results already gathered above, and say plainly what " ++
        Text.ofString "you could not confirm.")
  | .denyRecall =>
    refusal turn name digest "denied: recall-question turn, memory write blocked"
      (Text.ofString "write blocked: this is a memory-recall question; there is " ++
        Text.ofString "nothing new to save. Answer the recall question directly.")
  | .denyPaused =>
    refusal turn name digest "denied: memory paused for this conversation"
      (Text.ofString "write blocked: the user asked not to be remembered in this " ++
        Text.ofString "conversation, so nothing was saved. Only something the user " ++
        Text.ofString "explicitly asks you to remember may be saved.")
  | .denyUnavailable =>
    refusal turn name digest "denied: memory authorization gate unavailable"
      (Text.ofString "write blocked: the memory authorization service is unavailable; " ++
        Text.ofString "nothing was saved. Please retry later.")
  | .deny frozen =>
    refusal turn name digest "denied: tainted write requires confirmation"
      (Text.ofString "write blocked: this turn contains untrusted content and the " ++
        Text.ofString "user has not authorized saving to memory." ++
        (if frozen = [] then []
          else Text.ofString " A confirmation is required before saving; the exact content has been " ++
            Text.ofString "frozen (digest " ++ frozen ++
            Text.ofString ") and will be saved only on explicit user confirmation."))

/-- The entry of a result. -/
def resultArtifact (turn : Nat) (name digest : Text) (r : Tools.ToolResult φ) : Artifact φ where
  turn := turn
  tool := name
  rawData := r.data
  paramsDigest := digest
  success := r.success
  error := r.error
  outcomeUnknown := r.outcome = some .unknown

/-- A result, shown to the model. -/
def shown (cfg : Settings φ) (name : Text) (artifact : Artifact φ) (r : Tools.ToolResult φ) :
    Written φ where
  artifact := some artifact
  content := cfg.derivedContent name r
  tainted := taintOf name r.data
  rendered := r.data

/-- The listings of a search are validated if it found any. -/
def needsValidation (env : Surroundings φ) (name : Text) (r : Tools.ToolResult φ) : Bool :=
  name = "search_properties" && r.success && !env.commuteForbidden &&
    match r.data with
    | .obj _ => true
    | _ => false

/-- The entry of a commute. -/
def CommuteEvidence.artifact (cfg : Settings φ) (turn : Nat) (ev : CommuteEvidence φ) :
    Artifact φ where
  turn := turn
  tool := "calculate_commute"
  rawData := ev.rawData
  paramsDigest := cfg.paramsDigest "calculate_commute"
    [("from_address", ev.fromAddress), ("to_address", ev.toAddress), ("mode", ev.travelMode)]
  success := ev.status = "success"
  error := ev.error
  timedOut := ev.status = "timeout"
  denied := ev.status ∈ [Text.ofString "budget_exhausted", "skipped"]

/-- A result that came back in time. -/
def finishedCall (cfg : Settings φ) (env : Surroundings φ) (turn : Nat) (name digest : Text)
    (r : Tools.ToolResult φ) (validated : JsonValue φ × List (CommuteEvidence φ)) : Written φ :=
  if needsValidation env name r then
    let r := { r with data := validated.1 }
    { shown cfg name (resultArtifact turn name digest r) r with
      evidence := validated.2.map (·.artifact cfg turn) }
  else shown cfg name (resultArtifact turn name digest r) r

/-- What a read that was dispatched leaves. -/
def readDone (cfg : Settings φ) (env : Surroundings φ) (turn : Nat) (name digest : Text)
    (validated : JsonValue φ × List (CommuteEvidence φ)) : ReadEnd φ → Written φ
  | .finished r => finishedCall cfg env turn name digest r validated
  | .timedOut error starved =>
    shown cfg name { notRun turn name digest error with
      denied := false, timedOut := true, starved := starved } (failedCall name error)
  | .abandoned error starved =>
    { artifact := some { notRun turn name digest error with
        denied := false, timedOut := true, abandoned := true, outcomeUnknown := true,
        starved := starved }
      content := cfg.dumps (.obj [(Text.ofString "success", .bool false),
        (Text.ofString "data", .null), (Text.ofString "abandoned", .bool true),
        (Text.ofString "error", .str (error ++ " — proceed with the results you already have."))]) }
  | .specialistDenied error =>
    shown cfg name { resultArtifact turn name digest (failedCall name error) with denied := true }
      (failedCall name error)
  | .specialistUnknown error =>
    shown cfg name { resultArtifact turn name digest (failedCall name error) with
      outcomeUnknown := true } { failedCall name error with outcome := some .unknown }

/-- What a write that was dispatched leaves. -/
def writeDone (cfg : Settings φ) (env : Surroundings φ) (turn : Nat) (name digest : Text)
    (validated : JsonValue φ × List (CommuteEvidence φ)) : WriteEnd φ → Written φ
  | .finished r => finishedCall cfg env turn name digest r validated
  | .timedOut error =>
    { artifact := some { notRun turn name digest error with denied := false, outcomeUnknown := true }
      content := cfg.dumps (.obj [(Text.ofString "success", .bool false),
        (Text.ofString "data", .null), (Text.ofString "outcome_unknown", .bool true),
        (Text.ofString "error", .str error)]) }

/-- What a call of the plan leaves. -/
def written (cfg : Settings φ) (env : Surroundings φ) (out : Outcomes φ) (turn : Nat)
    (e : PlanEntry φ) (i : Nat) : Written φ :=
  let name := e.call.tool
  match e.mode with
  | .run =>
    match out.budget with
    | .softExhausted =>
      refusal turn name e.digest "denied: turn time budget exhausted"
        (Text.ofString "denied: turn time budget exhausted" ++
          " — answer now from the results already gathered.")
    | .turnExhausted =>
      { artifact := some { notRun turn name e.digest "turn tool budget exhausted" with
          denied := false, timedOut := true }
        content := failedResult "turn tool budget exhausted" }
    | .remaining =>
      if isWrite env.specs name then
        writeDone cfg env turn name e.digest (out.validated i) (out.write i)
      else readDone cfg env turn name e.digest (out.validated i) (out.read i)
  | mode => refused cfg turn name e.digest mode

/-- `tc.get("id") or tc.get("tool_call_id") or f"call_{i}"`. -/
def callId (call : ToolCall φ) (i : Nat) : Text :=
  (call.id.filter (· ≠ [])).getD (Text.ofString "call_" ++ JsonValue.decimal i)

/-- The answer to a call. -/
def Written.message (w : Written φ) (e : PlanEntry φ) (i : Nat) : ToolMessage where
  content := w.content
  toolCallId := callId e.call i
  name := some e.call.tool

def Written.artifacts (w : Written φ) : List (Artifact φ) := w.evidence ++ w.artifact.toList

/-! ### The node -/

/-- The calls of the last message, if it is the assistant's. -/
def batchOf (messages : List (Message φ)) : List (ToolCall φ) × List InvalidToolCall :=
  match messages.getLast? with
  | some (.assistant _ calls invalid) => (calls, invalid)
  | _ => ([], [])

/-- The malformed calls that are still to be answered. -/
def malformedCalls (answered : List Text) (invalid : List InvalidToolCall) : List InvalidToolCall :=
  invalid.filter fun bad => present bad.id && bad.id.all (· ∉ answered)

def InvalidToolCall.artifact (turn : Nat) (bad : InvalidToolCall) : Artifact φ :=
  notRun turn (nameOr bad.name) [] "not run: arguments were not valid JSON"

def InvalidToolCall.answer (bad : InvalidToolCall) : ToolMessage where
  content := malformedCallResult (nameOr bad.name)
  toolCallId := bad.id.getD []
  name := some (nameOr bad.name)

/-- The results among the messages. -/
def toolMessages (messages : List (Message φ)) : List ToolMessage :=
  messages.filterMap fun m =>
    match m with
    | .tool result => some result
    | _ => none

/-- `_apply_evidence_note`: the note on the specialists' evidence is replaced. -/
def applyEvidenceNote (cfg : Settings φ) (note : Option Text) (messages : List (Message φ)) :
    List (Message φ) :=
  messages.filter (!cfg.isEvidenceNote ·) ++ (note.map .human).toList

/-- A batch of a turn: what it meets and how it ends. -/
structure Batch (φ : Type) where
  env : Surroundings φ
  out : Outcomes φ
  /-- The new note, if it is due: the specialists had results. -/
  evidenceNote : Option (Option Text)

variable (cfg : Settings φ)

def Batch.plan (b : Batch φ) (s : Turn φ) : List (PlanEntry φ) :=
  (planBatch cfg b.env s (batchOf s.messages).1).plan

/-- What the calls of a batch leave, in the order of the plan. -/
def Batch.written (b : Batch φ) (s : Turn φ) : List (PlanEntry φ × Nat × Written φ) :=
  (b.plan cfg s).zipIdx.map fun p => (p.1, p.2, Agent.written cfg b.env b.out s.loopTurn p.1 p.2)

/-- The answers to the calls of a batch. -/
def Batch.answers (b : Batch φ) (s : Turn φ) : List ToolMessage :=
  (b.written cfg s).map fun p => p.2.2.message p.1 p.2.1

/-- The malformed calls a batch answers. -/
def Batch.malformed (b : Batch φ) (s : Turn φ) : List InvalidToolCall :=
  malformedCalls ((toolMessages s.messages ++ b.answers cfg s).map (·.toolCallId))
    (batchOf s.messages).2

/-- `execute_tools_node`. -/
def executeTools (b : Batch φ) (s : Turn φ) : Turn φ where
  messages :=
    let messages := s.messages ++ ((b.answers cfg s).map .tool ++
      (b.malformed cfg s).map fun bad => .tool bad.answer)
    match b.evidenceNote with
    | some note => applyEvidenceNote cfg note messages
    | none => messages
  artifacts := s.artifacts ++ ((b.written cfg s).flatMap (·.2.2.artifacts) ++
    (b.malformed cfg s).map (·.artifact s.loopTurn))
  contextTainted := s.contextTainted ||
    ((b.written cfg s).any (·.2.2.tainted) || (b.evidenceNote.isSome && b.out.evidenceTainted))
  loopTurn := s.loopTurn

/-! ### What is dispatched -/

/-- A call that is sent to the provider. -/
structure Dispatch where
  tool : Text
  digest : Text
  content : Text
  /-- The model asked for it; else it is the commute of a listing. -/
  issued : Bool
  deriving DecidableEq

/-- The calls of the plan that are sent out. -/
def Batch.admitted (b : Batch φ) (s : Turn φ) : List (PlanEntry φ) :=
  if b.out.budget = .remaining then (b.plan cfg s).filter (·.mode.isRun) else []

def PlanEntry.dispatch (e : PlanEntry φ) : Dispatch where
  tool := e.call.tool
  digest := e.digest
  content := writeContent cfg e.args
  issued := true

def Artifact.dispatch (a : Artifact φ) : Dispatch where
  tool := a.tool
  digest := a.paramsDigest
  content := []
  issued := false

/-- All calls a batch sends out. -/
def Batch.dispatched (b : Batch φ) (s : Turn φ) : List Dispatch :=
  (b.admitted cfg s).map (·.dispatch cfg) ++
    (b.written cfg s).flatMap fun p => p.2.2.evidence.map (·.dispatch)

/-! ### Turns -/

/-- A node of the turn's graph. -/
inductive Node (φ : Type) where
  /-- The model answers, with calls or without; a question to the user is put in the ledger. -/
  | agent (messages : List (Message φ)) (plain : ∀ m ∈ messages, m.isTool = false)
      (question : Option (JsonValue φ))
  /-- The entry node narrows the listings on screen. -/
  | refine
  | tools (batch : Batch φ)

/-- The entry of a question to the user. -/
def askUserArtifact (turn : Nat) (payload : JsonValue φ) : Artifact φ where
  turn := turn
  tool := "ask_user"
  rawData := payload
  paramsDigest := []
  success := true
  error := .null

/-- A turn, and what it has done. -/
structure Log (φ : Type) where
  turn : Turn φ
  dispatched : List Dispatch
  /-- The entries of the calls the model asked for. -/
  issued : List (Artifact φ)
  /-- The tools whose data the model has been shown, with the data. -/
  rendered : List (Text × JsonValue φ)

def Log.start : Log φ := ⟨.start, [], [], []⟩

/-- The entries of a batch's own calls. -/
def Batch.issued (b : Batch φ) (s : Turn φ) : List (Artifact φ) :=
  (b.written cfg s).flatMap fun p => p.2.2.artifact.toList

def Batch.rendered (b : Batch φ) (s : Turn φ) : List (Text × JsonValue φ) :=
  (b.written cfg s).map fun p => (p.1.call.tool, p.2.2.rendered)

/-- One node of a turn. -/
def Log.step (l : Log φ) : Node φ → Log φ
  | .agent messages _ question =>
    { l with turn := { l.turn with
        messages := l.turn.messages ++ messages
        artifacts := l.turn.artifacts ++
          (question.map (askUserArtifact l.turn.loopTurn)).toList
        loopTurn := l.turn.loopTurn + 1 } }
  | .refine => { l with turn := { l.turn with contextTainted := true } }
  | .tools b =>
    { turn := executeTools cfg b l.turn
      dispatched := l.dispatched ++ b.dispatched cfg l.turn
      issued := l.issued ++ b.issued cfg l.turn
      rendered := l.rendered ++ b.rendered cfg l.turn }

end RentCompass.Agent
