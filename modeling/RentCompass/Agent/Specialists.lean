import RentCompass.Agent.Contracts

/-!
# Preparing and revalidating a specialist batch

The manager's read calls become one task for each role, with sealed arguments and grants minted
from the live tools. A call that cannot be sealed is rejected by itself; anything wrong with the
batch as a whole raises.
-/

/-- A Python object that is no `None`, `bool`, `int`, `str`, `list` or `dict` with `str` keys. -/
inductive PyAtom (φ : Type) where
  | float (x : φ)
  /-- A tuple, a set, a date, a dict with another kind of key: not JSON-native. -/
  | other

instance {φ : Type} [FloatFormat φ] : FloatFormat (PyAtom φ) where
  nan := .float FloatFormat.nan
  infinity := .float FloatFormat.infinity
  negInfinity := .float FloatFormat.negInfinity
  isFinite
    | .float x => FloatFormat.isFinite x
    | .other => false
  text
    | .float x => FloatFormat.text x
    | .other => []
  ofToken t := .float (FloatFormat.ofToken t)

instance {φ : Type} [FloatFormat φ] [JsonValue.LawfulFloatFormat φ] :
    JsonValue.LawfulFloatFormat (PyAtom φ) where
  token
    | .float x, h => JsonValue.LawfulFloatFormat.token x h
    | .other, h => absurd h Bool.false_ne_true
  ofToken_text
    | .float x, h => congrArg PyAtom.float (JsonValue.LawfulFloatFormat.ofToken_text x h)
    | .other, h => absurd h Bool.false_ne_true

/-- A Python value. -/
abbrev PyValue (φ : Type) := JsonValue (PyAtom φ)

namespace RentCompass.Agent

variable {φ : Type} [FloatFormat φ]

/-! ### Calls -/

/-- The `args` of a call. -/
inductive CallArgs (φ : Type) where
  | notMapping
  /-- A mapping with a key that is no `str`. -/
  | strangeKey
  | fields (args : Dict (PyValue φ)) (distinct : (JsonValue.obj args).distinctKeys)

/-- A read call of the manager, past injection, de-duplication and policy. -/
structure ReadCall (φ : Type) where
  index : Nat
  toolName : Text
  args : CallArgs φ
  paramsDigest : Text
  toolCallId : Option Text

/-- What a canonical text is made of, as the error codes name it. -/
inductive Label where
  | callArgs
  | specialistId
  | toolSpec
  | plan
  deriving DecidableEq

inductive DispatchError where
  | batchTooWide
  | duplicateCallIndex
  | turnInvalid
  | liveSpecsInvalid
  | toolNameInvalid
  | callArgsInvalid
  | reservedArgument
  | paramsDigestInvalid
  | toolCallIdInvalid
  | argsTooDeep
  | argsNotJsonNative
  | json (label : Label) (error : JsonValue.CanonicalError)
  | overBatchBudget
  | grantInvalid
  | taskInvalid
  | liveSpecMissing
  | toolSpecInvalid
  | planInvalid
  | callNotPlanned
  | taskIdentityChanged
  | grantChanged
  | liveSpecRejected
  | capabilityMetadataDrift
  deriving DecidableEq

def Label.text : Label → Text
  | .callArgs => Text.ofString "specialist_call_args"
  | .specialistId => Text.ofString "specialist_id"
  | .toolSpec => Text.ofString "tool_spec"
  | .plan => Text.ofString "specialist_plan"

/-- `error_code`. -/
def DispatchError.code : DispatchError → Text
  | .batchTooWide => Text.ofString "specialist_batch_too_wide"
  | .duplicateCallIndex => Text.ofString "specialist_duplicate_call_index"
  | .turnInvalid => Text.ofString "specialist_turn_invalid"
  | .liveSpecsInvalid => Text.ofString "specialist_live_specs_invalid"
  | .toolNameInvalid => Text.ofString "specialist_tool_name_invalid"
  | .callArgsInvalid => Text.ofString "specialist_call_args_invalid"
  | .reservedArgument => Text.ofString "specialist_reserved_argument"
  | .paramsDigestInvalid => Text.ofString "specialist_params_digest_invalid"
  | .toolCallIdInvalid => Text.ofString "specialist_tool_call_id_invalid"
  | .argsTooDeep => Text.ofString "specialist_call_args_too_deep"
  | .argsNotJsonNative => Text.ofString "specialist_call_args_not_json_native"
  | .json label .notFiniteJson => label.text ++ Text.ofString "_not_finite_json"
  | .json label .lossyJson => label.text ++ Text.ofString "_lossy_json"
  | .json label .tooLarge => label.text ++ Text.ofString "_too_large"
  | .overBatchBudget => Text.ofString "specialist_call_args_over_batch_budget"
  | .grantInvalid => Text.ofString "specialist_grant_invalid"
  | .taskInvalid => Text.ofString "specialist_task_invalid"
  | .liveSpecMissing => Text.ofString "specialist_live_spec_missing"
  | .toolSpecInvalid => Text.ofString "specialist_tool_spec_invalid"
  | .planInvalid => Text.ofString "specialist_plan_invalid"
  | .callNotPlanned => Text.ofString "specialist_call_not_planned"
  | .taskIdentityChanged => Text.ofString "specialist_task_identity_changed"
  | .grantChanged => Text.ofString "specialist_grant_changed"
  | .liveSpecRejected => Text.ofString "specialist_live_spec_rejected"
  | .capabilityMetadataDrift => Text.ofString "specialist_capability_metadata_drift"

def maxCallArgsBytes : Nat := 64 * 1024

def maxBatchArgsBytes : Nat := 128 * 1024

def maxPlanBytes : Nat := 64 * 1024

def maxSpecialistCalls : Nat := 32

def maxArgsDepth : Nat := 32

/-- `_RESERVED_INPUT_KEYS`. -/
def reservedInputKeys : List Text :=
  [Text.ofString "idempotency_key", Text.ofString "user_id", Text.ofString "session_id",
    Text.ofString "memory_context", Text.ofString "final_response", Text.ofString "agent_state",
    Text.ofString "state", Text.ofString "store", Text.ofString "checkpointer"]

/-- A key the manager keeps to itself. -/
def reservedKey (key : Text) : Bool := key.head? = some 95 || reservedInputKeys.contains key

/-! ### Sealing one call -/

/-- `_canonical_json`. -/
def canonicalJson {α : Type} [FloatFormat α] (v : JsonValue α) (label : Label) (maxBytes : Nat) :
    Except DispatchError Text :=
  (v.canonical maxBytes).mapError (.json label)

mutual

/-- `_assert_json_native`. The walk keeps a stack, so later siblings come first. -/
def assertJsonNative (depth : Nat) : PyValue φ → Except DispatchError Unit
  | .float (.float x) => do
    Except.ensure (depth ≤ maxArgsDepth) .argsTooDeep
    Except.ensure (FloatFormat.isFinite x) (.json .callArgs .notFiniteJson)
  | .float .other => do
    Except.ensure (depth ≤ maxArgsDepth) .argsTooDeep
    .error .argsNotJsonNative
  | .arr items => do
    Except.ensure (depth ≤ maxArgsDepth) .argsTooDeep
    assertItemsNative (depth + 1) items
  | .obj fields => do
    Except.ensure (depth ≤ maxArgsDepth) .argsTooDeep
    assertFieldsNative (depth + 1) fields
  | _ => Except.ensure (depth ≤ maxArgsDepth) .argsTooDeep

def assertItemsNative (depth : Nat) : List (PyValue φ) → Except DispatchError Unit
  | [] => .ok ()
  | v :: items => do
    assertItemsNative depth items
    assertJsonNative depth v

def assertFieldsNative (depth : Nat) : List (Text × PyValue φ) → Except DispatchError Unit
  | [] => .ok ()
  | (_, v) :: fields => do
    assertFieldsNative depth fields
    assertJsonNative depth v

end

/-- `specialist_eligible_role`. -/
def specialistEligibleRole (toolName : Text) : Option SpecialistRole :=
  if managerOnlyTools.contains toolName then none
  else [SpecialistRole.listings, .mobility, .areaEvidence].find? (·.allowlist.contains toolName)

/-- `tool_call_id or f"call_{index}"`. -/
def ReadCall.callId (call : ReadCall φ) : Text :=
  (call.toolCallId.filter (· ≠ [])).getD (Text.ofString "call_" ++ Text.ofNat call.index)

/-- A call with its arguments sealed. -/
structure SealedCall (φ : Type) where
  call : ReadCall φ
  argsJson : Text

/-- `_snapshot_call`. -/
def snapshotCall (call : ReadCall φ) : Except DispatchError (SealedCall φ) := do
  Except.ensure (call.toolName ≠ []) .toolNameInvalid
  match call.args with
  | .notMapping => .error .callArgsInvalid
  | .strangeKey => .error .reservedArgument
  | .fields args _ =>
    Except.ensure (args.keys.all (!reservedKey ·)) .reservedArgument
    Except.ensure (call.paramsDigest.length = 16 ∧ call.paramsDigest.all isHexDigit)
      .paramsDigestInvalid
    Except.ensure (call.callId.length ≤ 128) .toolCallIdInvalid
    assertJsonNative 0 (.obj args)
    let argsJson ← canonicalJson (.obj args) .callArgs maxCallArgsBytes
    .ok { call, argsJson }

/-! ### Sorting the calls -/

/-- The sealed calls of each role, in the order the roles were met. -/
abbrev Buckets (φ : Type) := List (SpecialistRole × List (SealedCall φ))

/-- `buckets.setdefault(role, []).append(entry)`. -/
def Buckets.add (role : SpecialistRole) (entry : SealedCall φ) : Buckets φ → Buckets φ
  | [] => [(role, [entry])]
  | (r, entries) :: buckets =>
    if r = role then (r, entries ++ [entry]) :: buckets
    else (r, entries) :: Buckets.add role entry buckets

/-- The loop over the calls. -/
structure Sorting (φ : Type) where
  buckets : Buckets φ
  rejected : List (Nat × DispatchError)
  totalArgs : Nat

def Sorting.empty : Sorting φ := ⟨[], [], 0⟩

def Sorting.reject (s : Sorting φ) (index : Nat) (error : DispatchError) : Sorting φ :=
  { s with rejected := s.rejected ++ [(index, error)] }

def Sorting.accept (s : Sorting φ) (role : SpecialistRole) (entry : SealedCall φ) : Sorting φ :=
  { s with
    buckets := Buckets.add role entry s.buckets
    totalArgs := s.totalArgs + entry.argsJson.utf8Length }

/-- One call: what is not eligible is left alone. -/
def Sorting.sort (s : Sorting φ) (call : ReadCall φ) : Sorting φ :=
  match specialistEligibleRole call.toolName with
  | none => s
  | some role =>
    match snapshotCall call with
    | .error error => s.reject call.index error
    | .ok entry =>
      if maxBatchArgsBytes < s.totalArgs + entry.argsJson.utf8Length then
        s.reject call.index .overBatchBudget
      else s.accept role entry

/-! ### Identifiers -/

/-- The turn a batch belongs to. -/
structure BatchContext where
  rootTaskId : Text
  runId : Text
  turn : Int

/-- `_stable_id`. -/
def stableId (hash : Hashing) (kind : String) (parts : List (JsonValue φ)) :
    Except DispatchError Text := do
  let payload ← canonicalJson (.arr parts) .specialistId maxBatchArgsBytes
  .ok (Text.ofString kind ++ Text.ofString ":" ++ (hash.sha256 payload).take 24)

/-- `_checkpoint_digest_factory`. -/
def checkpointDigest (hash : Hashing) (runId digest : Text) : Text :=
  (hash.hmac (Text.ofString "rentcompass-specialist:" ++ runId) digest).take 16

/-- The payload of `tool_spec_security_digest`. -/
def ToolSpec.payload (hash : Hashing) (spec : ToolSpec φ) : Option (JsonValue φ) :=
  (spec.schemaDigest hash).map fun digest =>
    .obj [(Text.ofString "name", .str spec.name), (Text.ofString "version", .str spec.version),
      (Text.ofString "side_effect", .str spec.sideEffect),
      (Text.ofString "terminal", .bool spec.terminal),
      (Text.ofString "retry_safe", .bool spec.retrySafe),
      (Text.ofString "max_retries", .int spec.maxRetries),
      (Text.ofString "retry_on_error", .bool spec.retryOnError),
      (Text.ofString "input_model_ref", .str spec.inputModelRef),
      (Text.ofString "output_model_ref", .str spec.outputModelRef),
      (Text.ofString "input_schema_digest", .str digest)]

def ToolSpec.securityText (hash : Hashing) (spec : ToolSpec φ) : Except DispatchError Text := do
  let payload ← Except.ofOption (spec.payload hash) .toolSpecInvalid
  canonicalJson payload .toolSpec maxCallArgsBytes

/-- `tool_spec_security_digest`. -/
def ToolSpec.securityDigest (hash : Hashing) (spec : ToolSpec φ) : Except DispatchError Text := do
  let encoded ← spec.securityText hash
  .ok (sha256Label (hash.sha256 encoded))

/-! ### Tasks -/

structure PreparedCall where
  index : Nat
  toolName : Text
  paramsDigest : Text
  toolCallId : Text
  taskId : Text
  role : SpecialistRole
  grant : ReadOnlyToolGrant
  artifactId : Text
  specDigest : Text
  argsJson : Text

/-- `PreparedSpecialistCall.args`. -/
def PreparedCall.args (call : PreparedCall) : Option (PyValue φ) := JsonValue.loads call.argsJson

/-- What names a batch. -/
structure BatchIds where
  planId : Text
  rootTaskId : Text

variable (hash : Hashing) (ctx : BatchContext)

def planSeed (entries : List (SealedCall φ)) : JsonValue φ :=
  .arr [.str ctx.runId, .int ctx.turn, .str ctx.rootTaskId,
    .arr (entries.map fun entry => .arr [.int entry.call.index, .str entry.call.toolName,
      .str (checkpointDigest hash ctx.runId entry.call.paramsDigest), .str entry.call.callId])]

def batchIds (buckets : Buckets φ) : Except DispatchError BatchIds := do
  let rootTaskId ← stableId hash "manager"
    [.str (Text.ofString "root-task-v1"), .str ctx.runId, (.str ctx.rootTaskId : JsonValue φ)]
  let planId ← stableId hash "plan" [planSeed hash ctx (buckets.flatMap (·.2))]
  .ok { planId, rootTaskId }

/-- The id a sealed call has in its task. -/
def safeCallId (entry : SealedCall φ) : Except DispatchError Text :=
  stableId hash "call" [.str ctx.runId, .int ctx.turn, .str ctx.rootTaskId,
    .int entry.call.index, .str entry.call.callId,
    .str (checkpointDigest hash ctx.runId entry.call.paramsDigest),
    (.str (hash.sha256 entry.argsJson) : JsonValue φ)]

/-- What a task's inputs say of a call. -/
def metadataCall (entry : SealedCall φ) : Except DispatchError (JsonValue φ) := do
  let toolCallId ← safeCallId hash ctx entry
  .ok (.obj [(Text.ofString "index", .int entry.call.index),
    (Text.ofString "tool", .str entry.call.toolName),
    (Text.ofString "tool_call_id", .str toolCallId),
    (Text.ofString "params_digest",
      .str (checkpointDigest hash ctx.runId entry.call.paramsDigest))])

def prepareCall (specs : List (ToolSpec φ)) (ids : BatchIds) (role : SpecialistRole)
    (taskId : Text) (grants : List ReadOnlyToolGrant) (entry : SealedCall φ) :
    Except DispatchError PreparedCall := do
  let spec ← Except.ofOption (specs.find? (·.name = entry.call.toolName)) .liveSpecMissing
  let specDigest ← spec.securityDigest hash
  let toolCallId ← safeCallId hash ctx entry
  let grant ← Except.ofOption (grants.find? (·.name = entry.call.toolName)) .grantInvalid
  let artifactId ← stableId hash "artifact" [.str ids.planId, .str taskId,
    .int entry.call.index,
    (.str (checkpointDigest hash ctx.runId entry.call.paramsDigest) : JsonValue φ)]
  .ok { index := entry.call.index, toolName := entry.call.toolName,
        paramsDigest := entry.call.paramsDigest, toolCallId, taskId, role, grant, artifactId,
        specDigest, argsJson := entry.argsJson }

/-- A role's task, and its calls. -/
structure PreparedTask (φ : Type) [FloatFormat φ] where
  task : SpecialistTask φ
  calls : List PreparedCall

def prepareTask (specs : List (ToolSpec φ)) (ids : BatchIds)
    (bucket : SpecialistRole × List (SealedCall φ)) : Except DispatchError (PreparedTask φ) := do
  let toolNames := (bucket.2.map (·.call.toolName)).eraseDups
  let grants ← Except.ofOption (grantReadOnlyToolsForRole hash bucket.1 toolNames specs)
    .grantInvalid
  let taskId := ids.planId ++ Text.ofString "/" ++ bucket.1.name
  let calls ← bucket.2.mapM (metadataCall hash ctx)
  let task ← Except.ofOption (SpecialistTask.make taskId ids.rootTaskId bucket.1
    (Text.ofString "Collect manager-requested " ++ bucket.1.name ++ Text.ofString " evidence")
    grants [(Text.ofString "calls", .arr calls)]) .taskInvalid
  let prepared ← bucket.2.mapM (prepareCall hash ctx specs ids bucket.1 taskId grants)
  .ok { task, calls := prepared }

/-! ### The batch -/

structure PreparedBatch (φ : Type) [FloatFormat φ] where
  plan : TaskPlan φ
  calls : List PreparedCall
  rejected : List (Nat × DispatchError)

/-- `PreparedSpecialistBatch.call`. -/
def PreparedBatch.call (batch : PreparedBatch φ) (index : Nat) : Option PreparedCall :=
  batch.calls.find? (·.index = index)

/-- The plan of the tasks, refused if its JSON is too large. -/
def makePlan (ids : BatchIds) (tasks : List (SpecialistTask φ)) :
    Except DispatchError (TaskPlan φ) := do
  let plan ← Except.ofOption (TaskPlan.make ids.planId ids.rootTaskId tasks) .planInvalid
  let _ ← (canonicalJson plan.toJson .plan maxPlanBytes).mapError fun _ => .planInvalid
  .ok plan

/-- `prepare_specialist_batch`. -/
def prepareSpecialistBatch (calls : List (ReadCall φ)) (liveSpecs : List (ToolSpec φ)) :
    Except DispatchError (PreparedBatch φ) := do
  Except.ensure (calls.length ≤ maxSpecialistCalls) .batchTooWide
  Except.ensure (calls.map (·.index)).Nodup .duplicateCallIndex
  Except.ensure (0 ≤ ctx.turn) .turnInvalid
  Except.ensure (validNames liveSpecs) .liveSpecsInvalid
  let sorting := calls.foldl Sorting.sort Sorting.empty
  let ids ← batchIds hash ctx sorting.buckets
  let tasks ← sorting.buckets.mapM (prepareTask hash ctx liveSpecs ids)
  let plan ← makePlan ids (tasks.map (·.task))
  .ok { plan, calls := tasks.flatMap (·.calls), rejected := sorting.rejected }

/-- `revalidate_specialist_call`. -/
def revalidateSpecialistCall (prepared : PreparedBatch φ) (index : Nat)
    (liveSpecs : List (ToolSpec φ)) : Except DispatchError PreparedCall := do
  let call ← Except.ofOption (prepared.call index) .callNotPlanned
  let task ← Except.ofOption (prepared.plan.tasks.find? (·.taskId.1 = call.taskId))
    .taskIdentityChanged
  Except.ensure (task.role = call.role) .taskIdentityChanged
  let grant ← Except.ofOption (task.tools.find? (·.name = call.toolName)) .grantChanged
  Except.ensure (grant = call.grant) .grantChanged
  Except.ensure (validNames liveSpecs) .liveSpecsInvalid
  let spec ← Except.ofOption (liveSpecs.find? (·.name = call.toolName)) .liveSpecMissing
  Except.ensure (validDispatchForRole hash task.role grant spec) .liveSpecRejected
  let digest ← spec.securityDigest hash
  Except.ensure (digest = call.specDigest) .capabilityMetadataDrift
  .ok call

/-! ### Dispatch -/

/-- How a read call is let through. -/
inductive Authority where
  | denied (error : DispatchError)
  | specialist (call : PreparedCall)
  /-- The manager's own, unrestricted dispatch. -/
  | manager

/-- Where `_run_read` sends a call, given what became of the batch and the tools live now. -/
def readAuthority (prepared : Except DispatchError (PreparedBatch φ))
    (liveSpecs : List (ToolSpec φ)) (call : ReadCall φ) : Authority :=
  match prepared with
  | .error error =>
    if (specialistEligibleRole call.toolName).isSome then .denied error else .manager
  | .ok batch =>
    match batch.rejected.lookup call.index with
    | some error => .denied error
    | none =>
      if (batch.call call.index).isNone then
        if (specialistEligibleRole call.toolName).isSome then .denied .callNotPlanned
        else .manager
      else
        match revalidateSpecialistCall hash batch call.index liveSpecs with
        | .ok prepared => .specialist prepared
        | .error error => .denied error

end RentCompass.Agent
