import RentCompass.Json.Dumps

/-!
# The transcript a provider receives

The messages of a turn are not sent as they are: a provider rejects a request in which a tool call
has no result, or a result no call. `providerTranscript` is the view each model call receives.
-/

namespace RentCompass.Agent

variable {φ : Type}

structure ToolCall (φ : Type) where
  name : Option Text
  args : Dict (JsonValue φ)
  id : Option Text

/-- A call whose arguments were no JSON. -/
structure InvalidToolCall where
  name : Option Text
  id : Option Text

structure ToolMessage where
  content : Text
  toolCallId : Text
  name : Option Text

inductive Message (φ : Type) where
  | human (content : Text)
  | system (content : Text)
  | assistant (content : Text) (toolCalls : List (ToolCall φ))
      (invalidToolCalls : List InvalidToolCall)
  | tool (result : ToolMessage)

/-- An id that is there. -/
def present (id : Option Text) : Bool := id.any (· ≠ [])

/-- `str(name or "unknown")`. -/
def nameOr (name : Option Text) : Text := (name.filter (· ≠ [])).getD (Text.ofString "unknown")

def unansweredCallError (name : Text) : Text :=
  Text.ofString "not run: no result was recorded for this " ++ name ++
    Text.ofString " call this turn. Call it again if you still need it, or answer from the " ++
    Text.ofString "results above and say what you could not check."

def malformedCallError (name : Text) : Text :=
  Text.ofString "not run: the arguments of this " ++ name ++
    Text.ofString " call were not valid JSON. Call " ++ name ++
    Text.ofString " again with valid JSON arguments if you still need it, or answer from the " ++
    Text.ofString "results above."

/-- `json.dumps({"success": False, "data": None, "error": error}, ensure_ascii=False)`. -/
def failedResult (error : Text) : Text :=
  (JsonValue.obj [(Text.ofString "success", .bool false), (Text.ofString "data", .null),
    (Text.ofString "error", .str error)] : JsonValue NonFinite).dumps .default

def malformedCallResult (name : Text) : Text := failedResult (malformedCallError name)

/-- A malformed call as it is sent: its text is never echoed back. -/
def InvalidToolCall.asCall (call : InvalidToolCall) : Option (ToolCall φ) :=
  if present call.id then
    some { name := some (nameOr call.name), args := [], id := call.id }
  else none

/-- The calls an assistant message is sent with. -/
def sentCalls (toolCalls : List (ToolCall φ)) (invalidToolCalls : List InvalidToolCall) :
    List (ToolCall φ) :=
  toolCalls ++ invalidToolCalls.filterMap InvalidToolCall.asCall

/-- The results right after a message. -/
def toolRun : List (Message φ) → List ToolMessage
  | .tool result :: msgs => result :: toolRun msgs
  | _ => []

/-- The messages after these results. -/
def afterTools : List (Message φ) → List (Message φ)
  | .tool _ :: msgs => afterTools msgs
  | msgs => msgs

lemma length_afterTools_le (msgs : List (Message φ)) :
    (afterTools msgs).length ≤ msgs.length := by
  induction msgs with
  | nil => simp [afterTools]
  | cons m msgs ih => cases m <;> (simp [afterTools]; try omega)

/-- What a call without a result is answered with. -/
def stubResult (invalidToolCalls : List InvalidToolCall) (call : ToolCall φ) (id : Text) :
    ToolMessage where
  content :=
    if some id ∈ invalidToolCalls.map (·.id) then malformedCallResult (nameOr call.name)
    else failedResult (unansweredCallError (nameOr call.name))
  toolCallId := id
  name := some (nameOr call.name)

/-- The answer to a call: the first result with its id. -/
def answerTo (invalidToolCalls : List InvalidToolCall) (results : List ToolMessage)
    (call : ToolCall φ) : Option ToolMessage :=
  (call.id.filter (· ≠ [])).map fun id =>
    (results.find? (·.toolCallId = id)).getD (stubResult invalidToolCalls call id)

/-- The answers to the calls of one assistant message. -/
def answers (toolCalls : List (ToolCall φ)) (invalidToolCalls : List InvalidToolCall)
    (results : List ToolMessage) : List ToolMessage :=
  (sentCalls toolCalls invalidToolCalls).filterMap (answerTo invalidToolCalls results)

/-- The messages as a provider may receive them. -/
def providerTranscript : List (Message φ) → List (Message φ)
  | [] => []
  | .tool _ :: msgs => providerTranscript msgs
  | .assistant content toolCalls invalidToolCalls :: msgs =>
    if toolCalls.isEmpty && invalidToolCalls.isEmpty then
      .assistant content toolCalls invalidToolCalls :: providerTranscript msgs
    else
      .assistant content (sentCalls toolCalls invalidToolCalls) [] ::
        ((answers toolCalls invalidToolCalls (toolRun msgs)).map .tool ++
          providerTranscript (afterTools msgs))
  | .human content :: msgs => .human content :: providerTranscript msgs
  | .system content :: msgs => .system content :: providerTranscript msgs
termination_by msgs => msgs.length
decreasing_by
  all_goals
    simp only [List.length_cons]
    have := length_afterTools_le msgs
    omega

/-! ### What a provider accepts -/

def Message.isTool : Message φ → Bool
  | .tool _ => true
  | _ => false

@[simp] lemma isTool_human (content : Text) : (Message.human content : Message φ).isTool = false :=
  rfl

@[simp] lemma isTool_system (content : Text) : (Message.system content : Message φ).isTool = false :=
  rfl

@[simp] lemma isTool_assistant (content : Text) (toolCalls : List (ToolCall φ))
    (invalidToolCalls : List InvalidToolCall) :
    (Message.assistant content toolCalls invalidToolCalls).isTool = false := rfl

@[simp] lemma isTool_tool (result : ToolMessage) : (Message.tool result : Message φ).isTool = true :=
  rfl

/-- The message asks for no tool and answers none. -/
def Message.Plain : Message φ → Prop
  | .assistant _ toolCalls invalidToolCalls => toolCalls = [] ∧ invalidToolCalls = []
  | .tool _ => False
  | _ => True

/-- Every call has an id and is answered by exactly one result, right after its message and in the
order of the calls; there is no other result. -/
inductive WellFormed : List (Message φ) → Prop
  | nil : WellFormed []
  | plain {m : Message φ} {msgs : List (Message φ)} (h : m.Plain) (hmsgs : WellFormed msgs) :
      WellFormed (m :: msgs)
  | turn {content : Text} {toolCalls : List (ToolCall φ)} {results : List ToolMessage}
      {msgs : List (Message φ)} (hne : toolCalls ≠ [])
      (hpresent : ∀ call ∈ toolCalls, present call.id)
      (hids : results.map (some ·.toolCallId) = toolCalls.map (·.id))
      (hnodup : (toolCalls.map (·.id)).Nodup) (hmsgs : WellFormed msgs) :
      WellFormed (.assistant content toolCalls [] :: (results.map .tool ++ msgs))

/-- A message as it is sent: malformed calls have become calls. -/
def Message.sent : Message φ → Message φ
  | .assistant content toolCalls invalidToolCalls =>
    .assistant content (sentCalls toolCalls invalidToolCalls) []
  | m => m

/-- Every call can be answered: valid calls have an id, and no id is used twice in a message. -/
def Message.Answerable : Message φ → Prop
  | .assistant _ toolCalls invalidToolCalls =>
    (∀ call ∈ toolCalls, present call.id) ∧
      (toolCalls.map (·.id) ++ (invalidToolCalls.map (·.id)).filter present).Nodup
  | _ => True

/-! ### The walk -/

lemma toolRun_append {results : List ToolMessage} {msgs : List (Message φ)}
    (h : ∀ m ∈ msgs.head?, m.isTool = false) :
    toolRun (results.map .tool ++ msgs) = results := by
  induction results with
  | nil =>
    cases msgs with
    | nil => rfl
    | cons m msgs => cases m <;> simp [toolRun] at h ⊢
  | cons r results ih => simp [toolRun, ih]

lemma afterTools_append (results : List ToolMessage) {msgs : List (Message φ)}
    (h : ∀ m ∈ msgs.head?, m.isTool = false) :
    afterTools (results.map .tool ++ msgs) = msgs := by
  induction results with
  | nil =>
    cases msgs with
    | nil => rfl
    | cons m msgs => cases m <;> simp [afterTools] at h ⊢
  | cons r results ih => simpa [afterTools] using ih

@[simp] lemma providerTranscript_nil : providerTranscript ([] : List (Message φ)) = [] := by
  rw [providerTranscript]

@[simp] lemma providerTranscript_tool (result : ToolMessage) (msgs : List (Message φ)) :
    providerTranscript (.tool result :: msgs) = providerTranscript msgs := by
  rw [providerTranscript]

lemma providerTranscript_afterTools (msgs : List (Message φ)) :
    providerTranscript (afterTools msgs) = providerTranscript msgs := by
  induction msgs with
  | nil => rfl
  | cons m msgs ih => cases m <;> simp [afterTools, ih]

lemma providerTranscript_plain {m : Message φ} (h : m.Plain) (msgs : List (Message φ)) :
    providerTranscript (m :: msgs) = m :: providerTranscript msgs := by
  cases m with
  | human content => rw [providerTranscript]
  | system content => rw [providerTranscript]
  | assistant content toolCalls invalidToolCalls =>
    obtain ⟨rfl, rfl⟩ := h
    simp [providerTranscript]
  | tool result => exact h.elim

/-- An assistant message is sent with its answers, whatever results come before the next one. -/
lemma providerTranscript_assistant (content : Text) (toolCalls : List (ToolCall φ))
    (invalidToolCalls : List InvalidToolCall) (msgs : List (Message φ)) :
    providerTranscript (.assistant content toolCalls invalidToolCalls :: msgs) =
      (Message.assistant content toolCalls invalidToolCalls).sent ::
        ((answers toolCalls invalidToolCalls (toolRun msgs)).map .tool ++
          providerTranscript msgs) := by
  rw [providerTranscript, providerTranscript_afterTools]
  split_ifs with h
  · simp only [Bool.and_eq_true, List.isEmpty_iff] at h
    obtain ⟨rfl, rfl⟩ := h
    simp [Message.sent, sentCalls, answers]
  · rfl

lemma providerTranscript_head (msgs : List (Message φ)) :
    ∀ m ∈ (providerTranscript msgs).head?, m.isTool = false := by
  induction msgs with
  | nil => simp
  | cons m msgs ih =>
    cases m with
    | human content => simp [providerTranscript]
    | system content => simp [providerTranscript]
    | assistant content toolCalls invalidToolCalls =>
      simp [providerTranscript_assistant, Message.sent]
    | tool result => simpa using ih

/-! ### Answers -/

lemma sentCalls_ids (toolCalls : List (ToolCall φ)) (invalidToolCalls : List InvalidToolCall) :
    (sentCalls toolCalls invalidToolCalls).map (·.id) =
      toolCalls.map (·.id) ++ (invalidToolCalls.map (·.id)).filter present := by
  have : ∀ l : List InvalidToolCall,
      (l.filterMap (InvalidToolCall.asCall (φ := φ))).map (·.id) =
        (l.map (·.id)).filter present := by
    intro l
    induction l with
    | nil => rfl
    | cons call l ih =>
      by_cases h : present call.id
      · simp [InvalidToolCall.asCall, h, ih]
      · simp [InvalidToolCall.asCall, h, ih]
  simp [sentCalls, this]

lemma present_iff {id : Option Text} : present id ↔ id.filter (· ≠ []) = id ∧ id ≠ none := by
  cases id with
  | none => simp [present]
  | some i => by_cases h : i = [] <;> simp [present, h]

lemma answerTo_toolCallId (invalidToolCalls : List InvalidToolCall) (results : List ToolMessage)
    (call : ToolCall φ) :
    (answerTo invalidToolCalls results call).map (·.toolCallId) =
      call.id.filter (· ≠ []) := by
  unfold answerTo
  rw [Option.map_map]
  cases call.id.filter (· ≠ []) with
  | none => rfl
  | some id =>
    cases h : results.find? (·.toolCallId = id) with
    | none => simp [h, stubResult]
    | some r => simpa [h] using List.find?_some h

/-- The answers carry the ids of the calls that have one, in order. -/
lemma answers_ids (toolCalls : List (ToolCall φ)) (invalidToolCalls : List InvalidToolCall)
    (results : List ToolMessage) :
    (answers toolCalls invalidToolCalls results).map (·.toolCallId) =
      ((sentCalls toolCalls invalidToolCalls).map (·.id)).filterMap (·.filter (· ≠ [])) := by
  rw [answers, List.map_filterMap, List.filterMap_map]
  exact List.filterMap_congr fun call _ => answerTo_toolCallId invalidToolCalls results call

lemma filterMap_present {ids : List (Option Text)} :
    (ids.filterMap (·.filter (· ≠ []))).map some = ids ↔ ∀ id ∈ ids, present id := by
  constructor
  · intro h id hid
    rw [← h] at hid
    simp only [List.mem_map, List.mem_filterMap, Option.filter_eq_some_iff] at hid
    obtain ⟨i, ⟨_, _, _, hi⟩, rfl⟩ := hid
    simpa [present] using hi
  · intro h
    induction ids with
    | nil => rfl
    | cons id ids ih =>
      obtain ⟨hfilter, hne⟩ := present_iff.1 (h id (by simp))
      obtain ⟨i, rfl⟩ := Option.ne_none_iff_exists'.1 hne
      simp only [List.filterMap_cons, hfilter, List.map_cons]
      rw [ih fun id hid => h id (by simp [hid])]

/-- The ids of a message that can be answered. -/
lemma answerable_iff {content : Text} {toolCalls : List (ToolCall φ)}
    {invalidToolCalls : List InvalidToolCall} :
    (Message.assistant content toolCalls invalidToolCalls).Answerable ↔
      (∀ id ∈ (sentCalls toolCalls invalidToolCalls).map (·.id), present id) ∧
        ((sentCalls toolCalls invalidToolCalls).map (·.id)).Nodup := by
  rw [sentCalls_ids]
  simp only [Message.Answerable, List.mem_append, List.mem_filter, List.mem_map]
  constructor
  · rintro ⟨h, hnodup⟩
    refine ⟨?_, hnodup⟩
    rintro id (⟨call, hcall, rfl⟩ | ⟨_, hid⟩)
    · exact h call hcall
    · exact hid
  · rintro ⟨h, hnodup⟩
    exact ⟨fun call hcall => h _ (.inl ⟨call, hcall, rfl⟩), hnodup⟩

/-! ### Well-formed transcripts -/

lemma WellFormed.head {msgs : List (Message φ)} (h : WellFormed msgs) :
    ∀ m ∈ msgs.head?, m.isTool = false := by
  cases h with
  | nil => simp
  | @plain m _ h _ => cases m <;> simp [Message.Plain] at h ⊢
  | turn => simp

lemma Message.Plain.answerable {m : Message φ} (h : m.Plain) : m.Answerable := by
  cases m with
  | assistant content toolCalls invalidToolCalls =>
    obtain ⟨rfl, rfl⟩ := h
    simp [Message.Answerable]
  | _ => trivial

lemma wellFormed_plain_iff {m : Message φ} (h : m.Plain) {msgs : List (Message φ)} :
    WellFormed (m :: msgs) ↔ WellFormed msgs := by
  constructor
  · intro hw
    cases hw with
    | plain _ hmsgs => exact hmsgs
    | turn hne => exact absurd h.1 hne
  · exact .plain h

/-- An assistant message with its answers is well formed exactly when it can be answered. -/
lemma wellFormed_answers_iff {content : Text} {toolCalls : List (ToolCall φ)}
    {invalidToolCalls : List InvalidToolCall} {results : List ToolMessage}
    {msgs : List (Message φ)} (hhead : ∀ m ∈ msgs.head?, m.isTool = false) :
    WellFormed ((Message.assistant content toolCalls invalidToolCalls).sent ::
        ((answers toolCalls invalidToolCalls results).map .tool ++ msgs)) ↔
      (Message.assistant content toolCalls invalidToolCalls).Answerable ∧ WellFormed msgs := by
  rw [answerable_iff, ← filterMap_present, ← answers_ids _ _ results, List.map_map]
  by_cases hne : sentCalls toolCalls invalidToolCalls = []
  · have hplain : (Message.assistant content toolCalls invalidToolCalls).sent.Plain := by
      simp [Message.sent, Message.Plain, hne]
    simp [wellFormed_plain_iff hplain, answers, hne]
  · constructor
    · intro hw
      generalize hrest : (answers toolCalls invalidToolCalls results).map Message.tool ++ msgs =
        rest at hw
      cases hw with
      | plain h => exact absurd h.1 hne
      | turn _ _ hids hnodup hmsgs =>
        rename_i results' msgs'
        have hresults := congrArg toolRun hrest
        have hmsgs' := congrArg afterTools hrest
        rw [toolRun_append hhead, toolRun_append hmsgs.head] at hresults
        rw [afterTools_append _ hhead, afterTools_append _ hmsgs.head] at hmsgs'
        subst hresults hmsgs'
        exact ⟨⟨hids, hnodup⟩, hmsgs⟩
    · rintro ⟨⟨hids, hnodup⟩, hmsgs⟩
      refine .turn hne (fun call hcall => ?_) hids hnodup hmsgs
      rw [← List.map_map, answers_ids, filterMap_present] at hids
      exact hids _ (List.mem_map_of_mem hcall)

/-- The transcript is well formed exactly when every message can be answered. -/
lemma wellFormed_providerTranscript_iff {msgs : List (Message φ)} :
    WellFormed (providerTranscript msgs) ↔ ∀ m ∈ msgs, m.Answerable := by
  induction msgs with
  | nil => simpa using WellFormed.nil
  | cons m msgs ih =>
    cases m with
    | human content =>
      have hplain : (Message.human content : Message φ).Plain := trivial
      simp [providerTranscript_plain hplain, wellFormed_plain_iff hplain, ih, hplain.answerable]
    | system content =>
      have hplain : (Message.system content : Message φ).Plain := trivial
      simp [providerTranscript_plain hplain, wellFormed_plain_iff hplain, ih, hplain.answerable]
    | tool result => simp [ih, Message.Answerable]
    | assistant content toolCalls invalidToolCalls =>
      rw [providerTranscript_assistant, wellFormed_answers_iff (providerTranscript_head msgs), ih]
      simp

lemma providerTranscript_tools (results : List ToolMessage) (msgs : List (Message φ)) :
    providerTranscript (results.map .tool ++ msgs) = providerTranscript msgs := by
  induction results with
  | nil => rfl
  | cons r results ih => simpa using ih

lemma answerTo_of_find {invalidToolCalls : List InvalidToolCall} {results : List ToolMessage}
    {call : ToolCall φ} {id : Text} {r : ToolMessage} (hcall : call.id = some id) (hid : id ≠ [])
    (hr : results.find? (·.toolCallId = id) = some r) :
    answerTo invalidToolCalls results call = some r := by
  simp [answerTo, hcall, hid, hr]

lemma find_of_nodup {results : List ToolMessage} (h : (results.map (·.toolCallId)).Nodup)
    {r : ToolMessage} (hr : r ∈ results) :
    results.find? (·.toolCallId = r.toolCallId) = some r := by
  induction results with
  | nil => simp at hr
  | cons q results ih =>
    simp only [List.map_cons, List.nodup_cons] at h
    rcases List.mem_cons.1 hr with rfl | hr
    · simp
    · have hne : q.toolCallId ≠ r.toolCallId := fun heq =>
        h.1 (heq ▸ List.mem_map_of_mem hr)
      simp [hne, ih h.2 hr]

/-- Calls whose results can be found among `all` are answered by them. -/
lemma filterMap_answerTo {all : List ToolMessage} {toolCalls : List (ToolCall φ)}
    {results : List ToolMessage} (hpresent : ∀ call ∈ toolCalls, present call.id)
    (hids : results.map (some ·.toolCallId) = toolCalls.map (·.id))
    (hfind : ∀ r ∈ results, all.find? (·.toolCallId = r.toolCallId) = some r) :
    toolCalls.filterMap (answerTo [] all) = results := by
  induction toolCalls generalizing results with
  | nil => simpa using hids.symm
  | cons call toolCalls ih =>
    cases results with
    | nil => simp at hids
    | cons r results =>
      simp only [List.map_cons, List.cons.injEq] at hids
      have hid : r.toolCallId ≠ [] := by
        have := hpresent call (by simp)
        rw [← hids.1] at this
        simpa [present] using this
      rw [List.filterMap_cons_some (answerTo_of_find hids.1.symm hid (hfind r (by simp)))]
      rw [ih (fun c hc => hpresent c (by simp [hc])) hids.2 fun q hq => hfind q (by simp [hq])]

/-- Calls with distinct ids, each with its result, are answered by these results. -/
lemma answers_self {toolCalls : List (ToolCall φ)} {results : List ToolMessage}
    (hpresent : ∀ call ∈ toolCalls, present call.id)
    (hids : results.map (some ·.toolCallId) = toolCalls.map (·.id))
    (hnodup : (toolCalls.map (·.id)).Nodup) : answers toolCalls [] results = results := by
  rw [← hids] at hnodup
  have hnodup : (results.map (·.toolCallId)).Nodup := by
    apply List.Nodup.of_map some
    rw [List.map_map]
    exact hnodup
  simp only [answers, sentCalls, List.filterMap_nil, List.append_nil]
  exact filterMap_answerTo hpresent hids fun r hr => find_of_nodup hnodup hr

/-- A well-formed transcript is sent as it is. -/
lemma WellFormed.providerTranscript_eq {msgs : List (Message φ)} (h : WellFormed msgs) :
    providerTranscript msgs = msgs := by
  induction h with
  | nil => simp
  | plain h _ ih => rw [providerTranscript_plain h, ih]
  | @turn content toolCalls results msgs hne hpresent hids hnodup hmsgs ih =>
    rw [providerTranscript_assistant, toolRun_append hmsgs.head,
      answers_self hpresent hids hnodup, providerTranscript_tools, ih]
    simp [Message.sent, sentCalls]

/-- The messages other than results are kept, as they are sent, in their order. -/
lemma filter_providerTranscript (msgs : List (Message φ)) :
    (providerTranscript msgs).filter (!·.isTool) =
      (msgs.filter (!·.isTool)).map Message.sent := by
  have htools : ∀ results : List ToolMessage,
      (results.map (Message.tool (φ := φ))).filter (!·.isTool) = [] := by
    intro results
    simp [List.filter_eq_nil_iff]
  induction msgs with
  | nil => simp
  | cons m msgs ih =>
    cases m with
    | human content => simp [providerTranscript, Message.sent, ih]
    | system content => simp [providerTranscript, Message.sent, ih]
    | tool result => simpa using ih
    | assistant content toolCalls invalidToolCalls =>
      rw [providerTranscript_assistant]
      simp [List.filter_append, htools, Message.sent, ih]

lemma providerTranscript_append {m : Message φ} (hm : m.isTool = false)
    (before msgs : List (Message φ)) :
    providerTranscript (before ++ m :: msgs) =
      providerTranscript before ++ providerTranscript (m :: msgs) := by
  have hrun : ∀ l : List (Message φ), toolRun (l ++ m :: msgs) = toolRun l := by
    intro l
    induction l with
    | nil => cases m <;> simp [toolRun] at hm ⊢
    | cons k l ih => cases k <;> simp [toolRun, ih]
  induction before with
  | nil => simp
  | cons k before ih =>
    cases k with
    | human content => simp [providerTranscript, ih]
    | system content => simp [providerTranscript, ih]
    | tool result => simpa using ih
    | assistant content toolCalls invalidToolCalls =>
      simp [providerTranscript_assistant, hrun, ih]

lemma find_eq_some_of_forall {α : Type} {p : α → Bool} {l : List α} {a : α} (ha : a ∈ l)
    (hp : p a) (h : ∀ b ∈ l, p b → b = a) : l.find? p = some a := by
  cases hf : l.find? p with
  | none => exact absurd hp (by simpa using List.find?_eq_none.1 hf a ha)
  | some b => rw [h b (List.mem_of_find?_eq_some hf) (List.find?_some hf)]

/-- The answer to a call that has a result is this result. -/
lemma answers_find {toolCalls : List (ToolCall φ)} {invalidToolCalls : List InvalidToolCall}
    {results : List ToolMessage} {call : ToolCall φ} {id : Text} {r : ToolMessage}
    (hcall : call ∈ sentCalls toolCalls invalidToolCalls) (hid : call.id = some id)
    (hne : id ≠ []) (hr : results.find? (·.toolCallId = id) = some r) :
    (answers toolCalls invalidToolCalls results).find? (·.toolCallId = id) = some r := by
  apply find_eq_some_of_forall
  · exact List.mem_filterMap.2 ⟨call, hcall, answerTo_of_find hid hne hr⟩
  · simpa using List.find?_some hr
  · intro q hq hqid
    obtain ⟨other, -, hother⟩ := List.mem_filterMap.1 hq
    have hoid := answerTo_toolCallId invalidToolCalls results other
    rw [hother, Option.map_some, of_decide_eq_true hqid] at hoid
    have hofilter := Option.filter_eq_some_iff.1 hoid.symm
    have hanswer : answerTo invalidToolCalls results other = some r :=
      answerTo_of_find hofilter.1 hne hr
    rw [hother] at hanswer
    exact Option.some.inj hanswer

lemma toolRun_tools (results : List ToolMessage) (msgs : List (Message φ)) :
    toolRun (results.map .tool ++ msgs) = results ++ toolRun msgs := by
  induction results with
  | nil => rfl
  | cons r results ih => simp [toolRun, ih]

/-- What a provider must receive of the messages of a turn. -/
structure Faithful (msgs : List (Message φ)) : Prop where
  wellFormed : WellFormed (providerTranscript msgs)
  kept : (providerTranscript msgs).filter (!·.isTool) =
    (msgs.filter (!·.isTool)).map Message.sent
  results : ∀ (before : List (Message φ)) content toolCalls invalidToolCalls
      (results : List ToolMessage) after,
    msgs = before ++ .assistant content toolCalls invalidToolCalls ::
      (results.map .tool ++ after) →
    ∃ given : List ToolMessage, providerTranscript msgs = providerTranscript before ++
        (Message.assistant content toolCalls invalidToolCalls).sent ::
          (given.map .tool ++ providerTranscript after) ∧
      ∀ call ∈ sentCalls toolCalls invalidToolCalls, ∀ id r, call.id = some id → id ≠ [] →
        results.find? (·.toolCallId = id) = some r → given.find? (·.toolCallId = id) = some r
  idempotent : providerTranscript (providerTranscript msgs) = providerTranscript msgs

/-- The transcript is what a provider must receive exactly when every call can be answered. -/
theorem transcript_faithful (msgs : List (Message φ)) :
    Faithful msgs ↔ ∀ m ∈ msgs, m.Answerable := by
  constructor
  · intro h
    exact wellFormed_providerTranscript_iff.1 h.wellFormed
  · intro h
    have hw := wellFormed_providerTranscript_iff.2 h
    refine ⟨hw, filter_providerTranscript msgs, ?_, hw.providerTranscript_eq⟩
    rintro before content toolCalls invalidToolCalls results after rfl
    refine ⟨answers toolCalls invalidToolCalls (results ++ toolRun after), ?_, ?_⟩
    · rw [providerTranscript_append (isTool_assistant ..), providerTranscript_assistant,
        toolRun_tools, providerTranscript_tools]
    · intro call hcall id r hid hne hr
      exact answers_find hcall hid hne (by simp [List.find?_append, hr])

/-- A valid call that came without an id. -/
def callWithoutId : ToolCall NonFinite where
  name := some (Text.ofString "get_weather")
  args := []
  id := none

/-- A call without an id is sent without an answer. -/
theorem call_without_id_unanswered : ¬ Faithful [Message.assistant [] [callWithoutId] []] := by
  intro h
  have := wellFormed_providerTranscript_iff.1 h.wellFormed _ (List.mem_singleton_self _)
  exact absurd (this.1 _ (List.mem_singleton_self _)) (by decide)

end RentCompass.Agent
