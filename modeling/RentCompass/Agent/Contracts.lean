import RentCompass.Fallible
import RentCompass.Json.Canonical
import RentCompass.Sha256

/-!
# The specialist contracts

What may cross the boundary between the manager and its specialists: grants of read-only tools,
tasks of one role with such grants, and plans of such tasks. A value that breaks its contract
cannot be built.
-/

namespace RentCompass.Agent

/-! ### Constrained texts -/

/-- Pydantic's `strip_whitespace`: unlike `str.strip` it keeps the separators U+001C to U+001F. -/
def trim (t : Text) : Text :=
  let blank (c : Nat) : Bool := Text.isSpace c && !(28 ≤ c && c ≤ 31)
  (t.dropWhile blank).rdropWhile blank

def isLetter (c : Nat) : Bool := (65 ≤ c && c ≤ 90) || (97 ≤ c && c ≤ 122)

def isAlphanumeric (c : Nat) : Bool := isLetter c || JsonValue.isDigit c

/-- `[0-9a-f]`. -/
def isHexDigit (c : Nat) : Bool := JsonValue.isDigit c || (97 ≤ c && c ≤ 102)

/-- A letter or digit, then at most 127 letters, digits and marks. -/
def matchesIdentifier (t : Text) : Bool :=
  match t with
  | [] => false
  | c :: t => isAlphanumeric c && t.length ≤ 127 &&
      t.all fun c => isAlphanumeric c || (Text.ofString "._:/-").contains c

def Identifier := {t : Text // matchesIdentifier t}
  deriving DecidableEq

def Identifier.make (t : Text) : Option Identifier :=
  if h : matchesIdentifier (trim t) then some ⟨trim t, h⟩ else none

def ShortText := {t : Text // t ≠ [] ∧ t.length ≤ 2000}
  deriving DecidableEq

def ShortText.make (t : Text) : Option ShortText :=
  if h : trim t ≠ [] ∧ (trim t).length ≤ 2000 then some ⟨trim t, h⟩ else none

/-- `^sha256:[0-9a-f]{64}$` -/
def matchesDigest (t : Text) : Bool :=
  (Text.ofString "sha256:").isPrefixOf t && (t.drop 7).length = 64 && (t.drop 7).all isHexDigit

def Sha256Digest := {t : Text // matchesDigest t}
  deriving DecidableEq

def Sha256Digest.make (t : Text) : Option Sha256Digest :=
  if h : matchesDigest t then some ⟨t, h⟩ else none

/-! ### Roles -/

inductive SpecialistRole where
  | listings
  | mobility
  | areaEvidence
  deriving DecidableEq

def SpecialistRole.name : SpecialistRole → Text
  | .listings => Text.ofString "listings"
  | .mobility => Text.ofString "mobility"
  | .areaEvidence => Text.ofString "area_evidence"

/-- `SPECIALIST_TOOL_ALLOWLISTS`. -/
def SpecialistRole.allowlist : SpecialistRole → List Text
  | .listings => [Text.ofString "search_properties", Text.ofString "get_property_details"]
  | .mobility => [Text.ofString "calculate_commute", Text.ofString "calculate_commute_cost",
      Text.ofString "check_transport_cost", Text.ofString "get_transport_info"]
  | .areaEvidence => [Text.ofString "check_safety", Text.ofString "compare_or_rank_areas",
      Text.ofString "get_weather", Text.ofString "search_nearby_pois", Text.ofString "web_search"]

/-- `MANAGER_ONLY_TOOLS`. -/
def managerOnlyTools : List Text :=
  [Text.ofString "remember", Text.ofString "recall_memory", Text.ofString "ask_user"]

/-! ### Live tools -/

/-- The fields of a tool's live description that decide what it does. -/
structure ToolSpec (φ : Type) where
  name : Text
  inputSchema : Dict (JsonValue φ)
  schemaKeys : (JsonValue.obj inputSchema).distinctKeys
  sideEffect : Text
  retrySafe : Bool
  version : Text := Text.ofString "1"
  terminal : Bool := false
  maxRetries : Int := 2
  retryOnError : Bool := true
  inputModelRef : Text := []
  outputModelRef : Text := []

/-- The hashes the boundary uses. -/
structure Hashing where
  /-- `sha256(text).hexdigest()`. -/
  sha256 : Text → Text
  /-- `hmac.new(sha256(key).digest(), message, sha256).hexdigest()`. -/
  hmac : (key : Text) → (message : Text) → Text

def Hashing.standard : Hashing := ⟨Sha256.hexDigest, Sha256.hmacHex⟩

variable {φ : Type} [FloatFormat φ]

def maxToolInputSchemaBytes : Nat := 256 * 1024

def maxTaskInputBytes : Nat := 64 * 1024

def maxSpecialistTasks : Nat := 8

def sha256Label (hex : Text) : Text := Text.ofString "sha256:" ++ hex

/-- The text a tool's input schema is digested from. -/
def ToolSpec.schemaText (spec : ToolSpec φ) : Option Text :=
  ((JsonValue.obj spec.inputSchema).canonical maxToolInputSchemaBytes).toOption

/-- `tool_input_schema_digest`. -/
def ToolSpec.schemaDigest (hash : Hashing) (spec : ToolSpec φ) : Option Text :=
  spec.schemaText.map fun text => sha256Label (hash.sha256 text)

/-- `_validate_live_read_only_spec`. -/
def ToolSpec.validReadOnly (name : Text) (spec : ToolSpec φ) : Bool :=
  spec.name = name && !managerOnlyTools.contains name && spec.sideEffect = Text.ofString "none" &&
    !spec.terminal && spec.version.strip ≠ [] && spec.schemaText.isSome

/-! ### Grants -/

/-- A tool the manager grants: never one of its own, and read-only by its type. -/
structure ReadOnlyToolGrant where
  name : Text
  version : ShortText
  retrySafe : Bool
  inputSchemaDigest : Sha256Digest
  notManagers : name ∉ managerOnlyTools
  deriving DecidableEq

def ReadOnlyToolGrant.make (name version : Text) (retrySafe : Bool) (digest : Text) :
    Option ReadOnlyToolGrant := do
  let version ← ShortText.make version
  let inputSchemaDigest ← Sha256Digest.make digest
  if notManagers : name ∉ managerOnlyTools then
    some { name, version, retrySafe, inputSchemaDigest, notManagers }
  else none

/-- The grant of one requested tool. -/
def grantTool (hash : Hashing) (specs : List (ToolSpec φ)) (allowlist : List Text) (name : Text) :
    Option ReadOnlyToolGrant := do
  if name ∉ allowlist then none
  let spec ← specs.find? (·.name = name)
  if ¬ spec.validReadOnly name then none
  let digest ← spec.schemaDigest hash
  ReadOnlyToolGrant.make name spec.version spec.retrySafe digest

/-- `_index_live_specs`, the specs under their names. -/
def validNames (specs : List (ToolSpec φ)) : Bool :=
  specs.all (·.name ≠ []) && (specs.map (·.name)).Nodup

/-- `grant_read_only_tools_for_role`. -/
def grantReadOnlyToolsForRole (hash : Hashing) (role : SpecialistRole) (requested : List Text)
    (specs : List (ToolSpec φ)) : Option (List ReadOnlyToolGrant) :=
  if requested = [] ∨ [] ∈ requested ∨ ¬ requested.Nodup ∨ ¬ validNames specs then none
  else requested.mapM (grantTool hash specs role.allowlist)

/-- `validate_read_only_dispatch_for_role`. -/
def validDispatchForRole (hash : Hashing) (role : SpecialistRole) (grant : ReadOnlyToolGrant)
    (spec : ToolSpec φ) : Bool :=
  role.allowlist.contains grant.name && spec.validReadOnly grant.name &&
    spec.version = grant.version.1 && spec.retrySafe = grant.retrySafe &&
    spec.schemaDigest hash = some grant.inputSchemaDigest.1

/-! ### Tasks and plans -/

/-- One assignment of a specialist: its grants are distinct and lie in its role. -/
structure SpecialistTask (φ : Type) [FloatFormat φ] where
  taskId : Identifier
  parentTaskId : Identifier
  role : SpecialistRole
  objective : ShortText
  tools : List ReadOnlyToolGrant
  inputs : Dict (JsonValue φ)
  toolCount : tools ≠ [] ∧ tools.length ≤ 16
  toolsDistinct : (tools.map (·.name)).Nodup
  toolsOfRole : ∀ grant ∈ tools, grant.name ∈ role.allowlist
  inputSize : ((JsonValue.obj inputs).canonical maxTaskInputBytes).isOk

def SpecialistTask.make (taskId parentTaskId : Text) (role : SpecialistRole) (objective : Text)
    (tools : List ReadOnlyToolGrant) (inputs : Dict (JsonValue φ)) :
    Option (SpecialistTask φ) := do
  let taskId ← Identifier.make taskId
  let parentTaskId ← Identifier.make parentTaskId
  let objective ← ShortText.make objective
  if h : (tools ≠ [] ∧ tools.length ≤ 16) ∧ (tools.map (·.name)).Nodup ∧
      (∀ grant ∈ tools, grant.name ∈ role.allowlist) ∧
      ((JsonValue.obj inputs).canonical maxTaskInputBytes).isOk then
    some { taskId, parentTaskId, role, objective, tools, inputs, toolCount := h.1, toolsDistinct := h.2.1, toolsOfRole := h.2.2.1, inputSize := h.2.2.2 }
  else none

/-- The manager's plan: every task hangs directly under the root. -/
structure TaskPlan (φ : Type) [FloatFormat φ] where
  planId : Identifier
  rootTaskId : Identifier
  tasks : List (SpecialistTask φ)
  taskCount : tasks.length ≤ maxSpecialistTasks
  idsDistinct : (tasks.map (·.taskId)).Nodup
  rootIsNoTask : rootTaskId ∉ tasks.map (·.taskId)
  oneLevel : ∀ task ∈ tasks, task.parentTaskId = rootTaskId

def TaskPlan.make (planId rootTaskId : Text) (tasks : List (SpecialistTask φ)) :
    Option (TaskPlan φ) := do
  let planId ← Identifier.make planId
  let rootTaskId ← Identifier.make rootTaskId
  if h : tasks.length ≤ maxSpecialistTasks ∧ (tasks.map (·.taskId)).Nodup ∧
      rootTaskId ∉ tasks.map (·.taskId) ∧ ∀ task ∈ tasks, task.parentTaskId = rootTaskId then
    some { planId, rootTaskId, tasks, taskCount := h.1, idsDistinct := h.2.1, rootIsNoTask := h.2.2.1, oneLevel := h.2.2.2 }
  else none

def ReadOnlyToolGrant.toJson (grant : ReadOnlyToolGrant) : JsonValue φ :=
  .obj [(Text.ofString "name", .str grant.name), (Text.ofString "version", .str grant.version.1),
    (Text.ofString "side_effect", .str (Text.ofString "none")),
    (Text.ofString "terminal", .bool false), (Text.ofString "retry_safe", .bool grant.retrySafe),
    (Text.ofString "input_schema_digest", .str grant.inputSchemaDigest.1)]

def SpecialistTask.toJson (task : SpecialistTask φ) : JsonValue φ :=
  .obj [(Text.ofString "schema_version", .str (Text.ofString "1")),
    (Text.ofString "task_id", .str task.taskId.1),
    (Text.ofString "parent_task_id", .str task.parentTaskId.1),
    (Text.ofString "role", .str task.role.name),
    (Text.ofString "objective", .str task.objective.1),
    (Text.ofString "tools", .arr (task.tools.map ReadOnlyToolGrant.toJson)),
    (Text.ofString "depends_on", .arr []), (Text.ofString "inputs", .obj task.inputs)]

/-- `plan.model_dump(mode="json")`. -/
def TaskPlan.toJson (plan : TaskPlan φ) : JsonValue φ :=
  .obj [(Text.ofString "schema_version", .str (Text.ofString "1")),
    (Text.ofString "plan_id", .str plan.planId.1),
    (Text.ofString "root_task_id", .str plan.rootTaskId.1),
    (Text.ofString "created_by", .str (Text.ofString "manager")),
    (Text.ofString "no_tools", .bool plan.tasks.isEmpty),
    (Text.ofString "tasks", .arr (plan.tasks.map SpecialistTask.toJson))]

/-! ### What a grant says of the live tools -/

/-- A live tool a specialist of the role may be given. -/
structure Grantable (role : SpecialistRole) (name : Text) (spec : ToolSpec φ) : Prop where
  named : spec.name = name
  ofRole : name ∈ role.allowlist
  readOnly : spec.sideEffect = Text.ofString "none"
  notTerminal : spec.terminal = false

lemma Grantable.of_validReadOnly {role : SpecialistRole} {name : Text} {spec : ToolSpec φ}
    (hrole : name ∈ role.allowlist) (h : spec.validReadOnly name) : Grantable role name spec := by
  simp only [ToolSpec.validReadOnly, Bool.and_eq_true, decide_eq_true_eq, Bool.not_eq_true'] at h
  obtain ⟨⟨⟨⟨⟨hname, -⟩, hread⟩, hterm⟩, -⟩, -⟩ := h
  exact ⟨hname, hrole, hread, hterm⟩

lemma ReadOnlyToolGrant.make_name {name version digest : Text} {retrySafe : Bool}
    {grant : ReadOnlyToolGrant} (h : ReadOnlyToolGrant.make name version retrySafe digest = some grant) :
    grant.name = name := by
  simp only [ReadOnlyToolGrant.make, Option.bind_eq_bind, Option.bind_eq_some_iff] at h
  obtain ⟨v, -, d, -, h⟩ := h
  split_ifs at h
  cases h
  rfl

lemma grantTool_some {hash : Hashing} {specs : List (ToolSpec φ)} {role : SpecialistRole}
    {name : Text} {grant : ReadOnlyToolGrant}
    (h : grantTool hash specs role.allowlist name = some grant) :
    grant.name = name ∧ ∃ spec ∈ specs, Grantable role name spec := by
  simp only [grantTool, Option.bind_eq_bind] at h
  by_cases hrole : name ∈ role.allowlist
  · simp only [hrole, not_true_eq_false, if_false, Option.bind_eq_some_iff] at h
    obtain ⟨spec, hspec, h⟩ := h
    by_cases hvalid : spec.validReadOnly name
    · simp only [hvalid, not_true_eq_false, if_false, Option.bind_eq_some_iff] at h
      obtain ⟨digest, -, h⟩ := h
      exact ⟨ReadOnlyToolGrant.make_name h, spec, List.mem_of_find?_eq_some hspec,
        Grantable.of_validReadOnly hrole hvalid⟩
    · simp [hvalid] at h
  · simp [hrole] at h

lemma grantReadOnlyToolsForRole_some {hash : Hashing} {role : SpecialistRole}
    {requested : List Text} {specs : List (ToolSpec φ)} {grants : List ReadOnlyToolGrant}
    (h : grantReadOnlyToolsForRole hash role requested specs = some grants) :
    ∀ grant ∈ grants, ∃ spec ∈ specs, Grantable role grant.name spec := by
  unfold grantReadOnlyToolsForRole at h
  split_ifs at h
  intro grant hgrant
  obtain ⟨name, -, hname⟩ := (List.forall₂_of_mapM_some h).exists_left hgrant
  obtain ⟨rfl, hspec⟩ := grantTool_some hname
  exact hspec

end RentCompass.Agent
