import RentCompass.Agent.BatchPlan
import RentCompass.Runs

/-!
# The ledger of a turn's batches

Every call of a batch is answered once and leaves one entry in the ledger, unless it is a duplicate.
What the ledger has seen is not sent out again, and reads stay below their caps.
-/

namespace RentCompass.Agent

variable {φ : Type} [FloatFormat φ] {cfg : Settings φ}

/-! ### The ids of calls -/

def Message.calls : Message φ → List (ToolCall φ)
  | .assistant _ calls _ => calls
  | _ => []

def ToolCall.ids (call : ToolCall φ) : List Text := (call.id.filter (· ≠ [])).toList

def InvalidToolCall.ids (bad : InvalidToolCall) : List Text := (bad.id.filter (· ≠ [])).toList

/-- The ids of a message's calls, and of its malformed ones. -/
def callIds (calls : List (ToolCall φ)) (invalid : List InvalidToolCall) : List Text :=
  calls.flatMap (·.ids) ++ invalid.flatMap (·.ids)

def Message.ids : Message φ → List Text
  | .assistant _ calls invalid => callIds calls invalid
  | _ => []

/-- The messages the model adds at a node. -/
def Node.messages : Node φ → List (Message φ)
  | .agent messages _ _ => messages
  | _ => []

def Node.ids (node : Node φ) : List Text := node.messages.flatMap (·.ids)

/-- All calls have an id of their own. -/
structure Identified (nodes : List (Node φ)) : Prop where
  present : ∀ node ∈ nodes, ∀ m ∈ node.messages, ∀ call ∈ m.calls, present call.id
  distinct : (nodes.flatMap (·.ids)).Nodup

omit [FloatFormat φ] in
lemma ToolCall.ids_of_present {call : ToolCall φ} (h : present call.id) (i : Nat) :
    call.ids = [callId call i] := by
  cases hid : call.id with
  | none => simp [present, hid] at h
  | some id =>
    have hne : id ≠ [] := by simpa [present, hid] using h
    simp [ids, callId, hid, Option.filter, hne]

lemma InvalidToolCall.ids_eq (bad : InvalidToolCall) :
    bad.ids = if present bad.id then [bad.id.getD []] else [] := by
  cases hid : bad.id with
  | none => simp [ids, present, hid]
  | some id => by_cases hne : id = [] <;> simp [ids, present, hid, Option.filter, hne]

lemma malformed_ids (invalid : List InvalidToolCall) :
    (invalid.filter fun bad => present bad.id).map (fun bad => bad.answer.toolCallId) =
      invalid.flatMap (·.ids) := by
  induction invalid with
  | nil => rfl
  | cons bad invalid ih =>
    rw [List.flatMap_cons, ← ih, InvalidToolCall.ids_eq, List.filter_cons]
    by_cases h : present bad.id
    · rw [if_pos h, if_pos h]
      rfl
    · rw [if_neg h, if_neg h]
      rfl

/-! ### Answers -/

omit [FloatFormat φ] in
lemma toolMessages_append (l r : List (Message φ)) :
    toolMessages (l ++ r) = toolMessages l ++ toolMessages r := by
  simp [toolMessages]

omit [FloatFormat φ] in
@[simp] lemma toolMessages_map_tool (results : List ToolMessage) :
    toolMessages (results.map .tool : List (Message φ)) = results := by
  induction results with
  | nil => rfl
  | cons r results ih => simp [toolMessages]

omit [FloatFormat φ] in
lemma toolMessages_of_plain {messages : List (Message φ)} (h : ∀ m ∈ messages, m.isTool = false) :
    toolMessages messages = [] := by
  rw [toolMessages, List.filterMap_eq_nil_iff]
  intro m hm
  have hplain := h m hm
  cases m with
  | tool result => cases hplain
  | _ => rfl

omit [FloatFormat φ] in
/-- No result is an evidence note. -/
lemma isEvidenceNote_tool (cfg : Settings φ) (result : ToolMessage) :
    cfg.isEvidenceNote (.tool result) = false := by
  rw [← Bool.not_eq_true]
  intro h
  obtain ⟨content, hc⟩ := cfg.noteHuman _ h
  cases hc

omit [FloatFormat φ] in
lemma toolMessages_applyEvidenceNote (note : Option Text) (messages : List (Message φ)) :
    toolMessages (applyEvidenceNote cfg note messages) = toolMessages messages := by
  have hnote : toolMessages (note.map (Message.human (φ := φ))).toList = [] := by
    cases note <;> rfl
  rw [applyEvidenceNote, toolMessages_append, hnote, List.append_nil]
  induction messages with
  | nil => rfl
  | cons m messages ih =>
    cases hm : cfg.isEvidenceNote m with
    | true =>
      obtain ⟨content, rfl⟩ := cfg.noteHuman m hm
      simpa [List.filter_cons, hm, toolMessages] using ih
    | false =>
      rw [List.filter_cons, hm]
      cases m <;> simpa [toolMessages] using ih

/-- The results a batch adds. -/
def Batch.results (cfg : Settings φ) (b : Batch φ) (s : Turn φ) : List ToolMessage :=
  b.answers cfg s ++ (b.malformed cfg s).map (·.answer)

/-- The messages with a batch's results. -/
lemma executeTools_messages (b : Batch φ) (s : Turn φ) : (executeTools cfg b s).messages =
    match b.evidenceNote with
    | some note => applyEvidenceNote cfg note (s.messages ++ (b.results cfg s).map .tool)
    | none => s.messages ++ (b.results cfg s).map .tool := by
  have hmap : (b.results cfg s).map .tool = (b.answers cfg s).map .tool ++
      (b.malformed cfg s).map fun bad => (.tool bad.answer : Message φ) := by
    simp [Batch.results, Function.comp_def]
  rw [hmap]
  rfl

lemma toolMessages_executeTools (b : Batch φ) (s : Turn φ) :
    toolMessages (executeTools cfg b s).messages = toolMessages s.messages ++ b.results cfg s := by
  rw [executeTools_messages]
  cases b.evidenceNote with
  | none => rw [toolMessages_append, toolMessages_map_tool]
  | some note => rw [toolMessages_applyEvidenceNote, toolMessages_append, toolMessages_map_tool]

lemma written_calls (cfg : Settings φ) (b : Batch φ) (s : Turn φ) :
    (b.written cfg s).map (·.1.call) = (batchOf s.messages).1 := by
  have hplan := planBatch_planned cfg b.env s (batchOf s.messages).1
  have hmap : (b.written cfg s).map (·.1.call) =
      ((b.plan cfg s).zipIdx.map Prod.fst).map (·.call) := by
    simp only [Batch.written, List.map_map, Function.comp_def]
  rw [hmap, List.zipIdx_map_fst]
  exact hplan.calls

/-- The answers of a batch whose calls all have an id are in the order of the calls. -/
lemma batch_answers_ids (cfg : Settings φ) (b : Batch φ) {s : Turn φ}
    (h : ∀ call ∈ (batchOf s.messages).1, present call.id) :
    (b.answers cfg s).map (·.toolCallId) = (batchOf s.messages).1.flatMap (·.ids) := by
  have hids : ∀ p ∈ b.written cfg s, p.1.call.ids = [(p.2.2.message p.1 p.2.1).toolCallId] := by
    intro p hp
    refine ToolCall.ids_of_present (h _ ?_) p.2.1
    rw [← written_calls cfg b s]
    exact List.mem_map_of_mem hp
  rw [← written_calls cfg b s, List.flatMap_map, List.flatMap_congr hids,
    ← List.map_eq_flatMap, Batch.answers, List.map_map]
  rfl

/-! ### Calls that wait for an answer -/

/-- The last message that is no evidence note. -/
def lastOpen (cfg : Settings φ) (messages : List (Message φ)) : Option (Message φ) :=
  (messages.filter (!cfg.isEvidenceNote ·)).getLast?

omit [FloatFormat φ] in
/-- The batch of a node has no calls, or those of the last open message. -/
lemma batchOf_cases (cfg : Settings φ) (messages : List (Message φ)) :
    batchOf messages = ([], []) ∨ ∃ content calls invalid, batchOf messages = (calls, invalid) ∧
      lastOpen cfg messages = some (.assistant content calls invalid) := by
  cases hlast : messages.getLast? with
  | none => simp [batchOf, hlast]
  | some m =>
    cases m with
    | assistant content calls invalid =>
      right
      obtain ⟨before, rfl⟩ := List.getLast?_eq_some_iff.1 hlast
      have hnote : cfg.isEvidenceNote (.assistant content calls invalid) = false := by
        rw [← Bool.not_eq_true]
        intro h
        obtain ⟨_, hc⟩ := cfg.noteHuman _ h
        cases hc
      exact ⟨content, calls, invalid, by simp [batchOf], by
        simp [lastOpen, List.filter_append, hnote]⟩
    | _ => simp [batchOf, hlast]

/-- After a batch the last open message has no calls, or nothing has changed. -/
lemma lastOpen_executeTools (cfg : Settings φ) (b : Batch φ) (s : Turn φ) :
    (∃ m, lastOpen cfg (executeTools cfg b s).messages = some m ∧ m.calls = [] ∧ m.ids = []) ∨
    (lastOpen cfg (executeTools cfg b s).messages = lastOpen cfg s.messages ∧
      b.results cfg s = []) := by
  have hresults : (∃ m, lastOpen cfg (s.messages ++ (b.results cfg s).map .tool) = some m ∧
      m.calls = [] ∧ m.ids = []) ∨ (lastOpen cfg (s.messages ++ (b.results cfg s).map .tool) =
        lastOpen cfg s.messages ∧ b.results cfg s = []) := by
    rcases List.eq_nil_or_concat (b.results cfg s) with hnil | ⟨before, r, hr⟩
    · right
      simp [hnil]
    · left
      refine ⟨.tool r, ?_, rfl, rfl⟩
      rw [hr, List.concat_eq_append, List.map_append, lastOpen, ← List.append_assoc,
        List.filter_append]
      simp [isEvidenceNote_tool]
  rw [executeTools_messages]
  cases b.evidenceNote with
  | none => exact hresults
  | some note =>
    have hnote (messages : List (Message φ)) :
        lastOpen cfg (applyEvidenceNote cfg note messages) = lastOpen cfg messages ∨
          ∃ content, lastOpen cfg (applyEvidenceNote cfg note messages) = some (.human content) := by
      cases note with
      | none => simp [lastOpen, applyEvidenceNote, List.filter_filter]
      | some content =>
        cases hc : cfg.isEvidenceNote (.human content) with
        | true => simp [lastOpen, applyEvidenceNote, List.filter_append, List.filter_filter, hc]
        | false =>
          right
          exact ⟨content, by simp [lastOpen, applyEvidenceNote, List.filter_append, hc]⟩
    rcases hnote (s.messages ++ (b.results cfg s).map .tool) with heq | ⟨content, hc⟩
    · simpa only [heq] using hresults
    · exact .inl ⟨.human content, hc, rfl, rfl⟩

/-- Answers so far are to different calls, and those that wait have none. -/
structure Log.AnswersOnce (cfg : Settings φ) (used : List Text) (l : Log φ) : Prop where
  answered : ((toolMessages l.turn.messages).map (·.toolCallId)).Nodup
  known : ∀ id ∈ (toolMessages l.turn.messages).map (·.toolCallId), id ∈ used
  present : ∀ m ∈ lastOpen cfg l.turn.messages, ∀ call ∈ m.calls, present call.id
  waiting : ∀ m ∈ lastOpen cfg l.turn.messages, m.ids.Nodup ∧
    ∀ id ∈ m.ids, id ∈ used ∧ id ∉ (toolMessages l.turn.messages).map (·.toolCallId)

/-- The ids of the calls a node takes up. -/
def pendingIds (messages : List (Message φ)) : List Text :=
  callIds (batchOf messages).1 (batchOf messages).2

omit [FloatFormat φ] in
lemma Log.AnswersOnce.pending {used : List Text} {l : Log φ} (h : l.AnswersOnce cfg used) :
    (∀ call ∈ (batchOf l.turn.messages).1, Agent.present call.id) ∧
      (pendingIds l.turn.messages).Nodup ∧ ∀ id ∈ pendingIds l.turn.messages,
        id ∈ used ∧ id ∉ (toolMessages l.turn.messages).map (·.toolCallId) := by
  rcases batchOf_cases cfg l.turn.messages with hb | ⟨content, calls, invalid, hb, hlast⟩
  · simp [pendingIds, hb, callIds]
  · have hwait := h.waiting _ (by rw [hlast]; exact rfl)
    refine ⟨?_, ?_, ?_⟩
    · rw [hb]
      exact h.present _ (by rw [hlast]; exact rfl)
    · rw [pendingIds, hb]
      exact hwait.1
    · rw [pendingIds, hb]
      exact hwait.2

/-- A batch answers its calls and its malformed ones, in this order. -/
lemma Log.AnswersOnce.results_ids {used : List Text} {l : Log φ} (h : l.AnswersOnce cfg used)
    (b : Batch φ) :
    (b.results cfg l.turn).map (·.toolCallId) = pendingIds l.turn.messages := by
  obtain ⟨hpresent, hnodup, hfresh⟩ := h.pending
  have hanswers := batch_answers_ids cfg b hpresent
  have hmalformed : (b.malformed cfg l.turn).map (fun bad => bad.answer.toolCallId) =
      (batchOf l.turn.messages).2.flatMap (·.ids) := by
    have hkeep : ∀ bad ∈ (batchOf l.turn.messages).2, (Agent.present bad.id && bad.id.all
        (· ∉ (toolMessages l.turn.messages ++ b.answers cfg l.turn).map (·.toolCallId))) =
          Agent.present bad.id := by
      intro bad hbad
      cases hid : bad.id with
      | none => rfl
      | some id =>
        by_cases hne : id = []
        · simp [Agent.present, hne]
        · have hin : id ∈ (batchOf l.turn.messages).2.flatMap (·.ids) :=
            List.mem_flatMap.2 ⟨bad, hbad, by simp [InvalidToolCall.ids, hid, Option.filter, hne]⟩
          have hnew := (hfresh id (List.mem_append_right _ hin)).2
          have hnot : id ∉ (b.answers cfg l.turn).map (·.toolCallId) := by
            rw [hanswers]
            exact fun hcall => (List.nodup_append.1 hnodup).2.2 id hcall id hin rfl
          have hall : id ∉ (toolMessages l.turn.messages ++ b.answers cfg l.turn).map
              (·.toolCallId) := by
            rw [List.map_append, List.mem_append]
            exact fun h => h.elim hnew hnot
          simp only [Agent.present, Option.any_some, Option.all_some, hne, ne_eq, not_false_eq_true,
            decide_true, hall, Bool.and_self]
    rw [Batch.malformed, malformedCalls, List.filter_congr hkeep, malformed_ids]
  rw [Batch.results, List.map_append, hanswers, List.map_map]
  exact congrArg _ hmalformed

/-- A node of which the ids are new. -/
lemma Log.AnswersOnce.step {used : List Text} {l : Log φ} (h : l.AnswersOnce cfg used)
    (node : Node φ) (hpresent : ∀ m ∈ node.messages, ∀ call ∈ m.calls, Agent.present call.id)
    (hnodup : node.ids.Nodup) (hnew : ∀ id ∈ node.ids, id ∉ used) :
    (l.step cfg node).AnswersOnce cfg (used ++ node.ids) := by
  cases node with
  | agent messages plain question =>
    have htools : toolMessages (l.turn.messages ++ messages) = toolMessages l.turn.messages := by
      rw [toolMessages_append, toolMessages_of_plain plain, List.append_nil]
    have hopen : ∀ m ∈ lastOpen cfg (l.turn.messages ++ messages),
        m ∈ lastOpen cfg l.turn.messages ∨ m ∈ messages := by
      intro m hm
      rw [lastOpen, List.filter_append] at hm
      rcases List.eq_nil_or_concat (messages.filter (!cfg.isEvidenceNote ·)) with hnil | ⟨b, x, hx⟩
      · left
        rwa [hnil, List.append_nil] at hm
      · right
        rw [hx, List.concat_eq_append, ← List.append_assoc, List.getLast?_concat] at hm
        cases hm
        exact List.mem_of_mem_filter (p := (!cfg.isEvidenceNote ·)) (by rw [hx]; simp)
    have hids : ∀ m ∈ messages, m.ids.Nodup ∧ ∀ id ∈ m.ids,
        id ∈ Node.ids (.agent messages plain question) := by
      intro m hm
      exact ⟨(List.nodup_flatMap.1 hnodup).1 m hm, fun id hid => List.mem_flatMap.2 ⟨m, hm, hid⟩⟩
    refine ⟨?_, ?_, ?_, ?_⟩
    · exact htools ▸ h.answered
    · intro id hid
      exact List.mem_append_left _ (h.known id (htools ▸ hid))
    · intro m hm
      exact (hopen m hm).elim (h.present m) (hpresent m)
    · intro m hm
      have hanswered : (toolMessages (l.turn.messages ++ messages)).map (·.toolCallId) =
          (toolMessages l.turn.messages).map (·.toolCallId) := congrArg _ htools
      rcases hopen m hm with hm | hm
      · refine ⟨(h.waiting m hm).1, fun id hid => ?_⟩
        obtain ⟨hused, hnot⟩ := (h.waiting m hm).2 id hid
        exact ⟨List.mem_append_left _ hused, fun hin => hnot (hanswered ▸ hin)⟩
      · refine ⟨(hids m hm).1, fun id hid => ?_⟩
        have hin := (hids m hm).2 id hid
        exact ⟨List.mem_append_right _ hin, fun hans => hnew id hin (h.known id (hanswered ▸ hans))⟩
  | refine =>
    have hnone : Node.ids (.refine : Node φ) = [] := rfl
    rw [hnone, List.append_nil]
    exact ⟨h.answered, h.known, h.present, h.waiting⟩
  | tools b =>
    have hnone : Node.ids (.tools b : Node φ) = [] := rfl
    rw [hnone, List.append_nil]
    have htools : toolMessages (l.step cfg (.tools b)).turn.messages =
        toolMessages l.turn.messages ++ b.results cfg l.turn := toolMessages_executeTools b l.turn
    obtain ⟨-, hpending, hfresh⟩ := h.pending
    refine ⟨?_, ?_, ?_, ?_⟩
    · rw [htools, List.map_append, h.results_ids b]
      exact List.Nodup.append h.answered hpending fun id hid hid' => (hfresh id hid').2 hid
    · intro id hid
      rw [htools, List.map_append, h.results_ids b, List.mem_append] at hid
      exact hid.elim (h.known id) fun hid => (hfresh id hid).1
    · intro m hm
      rcases lastOpen_executeTools cfg b l.turn with ⟨m', hm', hcalls, -⟩ | ⟨hsame, -⟩
      · rw [Log.step, hm'] at hm
        cases hm
        simp [hcalls]
      · exact h.present m (hsame ▸ hm)
    · intro m hm
      rcases lastOpen_executeTools cfg b l.turn with ⟨m', hm', -, hids⟩ | ⟨hsame, hnil⟩
      · rw [Log.step, hm'] at hm
        cases hm
        simp [hids]
      · rw [htools, hnil, List.append_nil]
        exact h.waiting m (hsame ▸ hm)

omit [FloatFormat φ] in
lemma Log.AnswersOnce.start : (Log.start : Log φ).AnswersOnce cfg [] where
  answered := .nil
  known id hid := by cases hid
  present m hm := by cases hm
  waiting m hm := by cases hm

omit [FloatFormat φ] in
lemma Identified.of_append {nodes : List (Node φ)} {node : Node φ}
    (h : Identified (nodes ++ [node])) : Identified nodes where
  present n hn := h.present n (List.mem_append_left _ hn)
  distinct := by
    have hdistinct := h.distinct
    rw [List.flatMap_append] at hdistinct
    exact (List.nodup_append.1 hdistinct).1

lemma answersOnce_run (cfg : Settings φ) {nodes : List (Node φ)} (h : Identified nodes) :
    (Runs.run (Log.step cfg) Log.start nodes).AnswersOnce cfg (nodes.flatMap (·.ids)) := by
  induction nodes using List.reverseRecOn with
  | nil => exact .start
  | append_singleton nodes node ih =>
    have hdistinct := h.distinct
    rw [List.flatMap_append, List.flatMap_singleton] at hdistinct
    obtain ⟨-, hnode, hdisjoint⟩ := List.nodup_append.1 hdistinct
    rw [Runs.run_append, List.flatMap_append, List.flatMap_singleton]
    exact (ih h.of_append).step node (h.present node (by simp)) hnode
      fun id hid hused => hdisjoint id hused id hid rfl

/-! ### What is sent out -/

/-- The calls of the model that were sent out. -/
def Log.sent (l : Log φ) : List (Text × Text) :=
  (l.dispatched.filter (·.issued)).map fun d => (d.tool, d.digest)

lemma dispatched_sent (b : Batch φ) (s : Turn φ) :
    ((b.dispatched cfg s).filter (·.issued)).map (fun d => (d.tool, d.digest)) =
      (b.admitted cfg s).map (·.key) := by
  have hevidence : ((b.written cfg s).flatMap fun p =>
      p.2.2.evidence.map (·.dispatch)).filter (·.issued) = [] := by
    rw [List.filter_eq_nil_iff]
    intro d hd
    obtain ⟨p, -, hd⟩ := List.mem_flatMap.1 hd
    obtain ⟨a, -, rfl⟩ := List.mem_map.1 hd
    simp [Artifact.dispatch]
  have hissued : ((b.admitted cfg s).map (·.dispatch cfg)).filter (·.issued) =
      (b.admitted cfg s).map (·.dispatch cfg) := by
    rw [List.filter_eq_self]
    intro d hd
    obtain ⟨e, -, rfl⟩ := List.mem_map.1 hd
    rfl
  rw [Batch.dispatched, List.filter_append, hevidence, hissued, List.append_nil, List.map_map]
  rfl

lemma mem_written {b : Batch φ} {s : Turn φ} {p : PlanEntry φ × Nat × Written φ}
    (hp : p ∈ b.written cfg s) : p.1 ∈ b.plan cfg s ∧ Wrote b.env p.1 p.2.2 := by
  obtain ⟨e, he, rfl⟩ := List.mem_map.1 hp
  exact ⟨List.fst_mem_of_mem_zipIdx he, written_wrote cfg b.env b.out s.loopTurn e.1 e.2⟩

lemma exists_written {b : Batch φ} {s : Turn φ} {e : PlanEntry φ} (he : e ∈ b.plan cfg s) :
    ∃ p ∈ b.written cfg s, p.1 = e := by
  have hmap : (b.written cfg s).map (·.1) = b.plan cfg s := by
    simp only [Batch.written, List.map_map, Function.comp_def, List.zipIdx_map_fst]
  rw [← hmap] at he
  obtain ⟨p, hp, rfl⟩ := List.mem_map.1 he
  exact ⟨p, hp, rfl⟩

lemma digest_of_plan {b : Batch φ} {s : Turn φ} {e : PlanEntry φ} (he : e ∈ b.plan cfg s) :
    e.digest = cfg.paramsDigest e.call.tool e.args := by
  have hentry := (planBatch_planned cfg b.env s (batchOf s.messages).1).entry e he
  rw [hentry]
  rfl

/-- A call that is no duplicate is in the ledger after its batch. -/
lemma key_mem_seenIn {b : Batch φ} {s : Turn φ} {e : PlanEntry φ} (he : e ∈ b.plan cfg s)
    (hdup : e.mode.isDup = false) : e.key ∈ seenIn (executeTools cfg b s).artifacts := by
  obtain ⟨p, hp, rfl⟩ := exists_written he
  have hwrote := (mem_written hp).2
  obtain ⟨a, ha⟩ := Option.ne_none_iff_exists'.1 fun h => by
    have := hwrote.silent.1 h
    rw [hdup] at this
    cases this
  refine mem_seenIn.2 ⟨a, ?_, ?_, hwrote.key a ha⟩
  · refine List.mem_append_right _ (List.mem_append_left _ (List.mem_flatMap.2 ⟨p, hp, ?_⟩))
    simp [Written.artifacts, ha]
  · have hkey : a.paramsDigest = p.1.digest := congrArg Prod.snd (hwrote.key a ha)
    rw [hkey, digest_of_plan he]
    exact cfg.digest_ne _ _

lemma seenIn_executeTools {b : Batch φ} {s : Turn φ} {k : Text × Text}
    (hk : k ∈ seenIn s.artifacts) : k ∈ seenIn (executeTools cfg b s).artifacts := by
  rw [executeTools, seenIn_append]
  exact List.mem_append_left _ hk

/-- What was sent out is in the ledger, and different. -/
structure Log.SendsOnce (l : Log φ) : Prop where
  distinct : l.sent.Nodup
  seen : ∀ k ∈ l.sent, k ∈ seenIn l.turn.artifacts

omit [FloatFormat φ] in
lemma isDup_of_isRun {mode : Mode φ} (h : mode.isRun) : mode.isDup = false := by
  cases mode <;> first | rfl | cases h

lemma Log.SendsOnce.step {l : Log φ} (h : l.SendsOnce) (node : Node φ) :
    (l.step cfg node).SendsOnce := by
  cases node with
  | agent messages plain question =>
    refine ⟨h.distinct, fun k hk => ?_⟩
    rw [Log.step, seenIn_append]
    exact List.mem_append_left _ (h.seen k hk)
  | refine => exact ⟨h.distinct, h.seen⟩
  | tools b =>
    have hplan := planBatch_planned cfg b.env l.turn (batchOf l.turn.messages).1
    have hadmitted : ∀ e ∈ b.admitted cfg l.turn, e ∈ b.plan cfg l.turn ∧ e.mode.isRun := by
      intro e he
      unfold Batch.admitted at he
      split_ifs at he
      · exact List.mem_filter.1 he
      · cases he
    have hfresh : ((b.admitted cfg l.turn).map (·.key)).Nodup := by
      unfold Batch.admitted
      split_ifs
      · exact hplan.fresh
      · exact .nil
    have hsent : (l.step cfg (.tools b)).sent =
        l.sent ++ (b.admitted cfg l.turn).map (·.key) := by
      rw [Log.sent, Log.step, List.filter_append, List.map_append, dispatched_sent]
      rfl
    constructor
    · rw [hsent]
      refine List.Nodup.append h.distinct hfresh fun k hk hk' => ?_
      obtain ⟨e, he, rfl⟩ := List.mem_map.1 hk'
      exact hplan.unseen e (hadmitted e he).1 (hadmitted e he).2 (h.seen _ hk)
    · intro k hk
      rw [hsent, List.mem_append] at hk
      rcases hk with hk | hk
      · exact seenIn_executeTools (h.seen k hk)
      · obtain ⟨e, he, rfl⟩ := List.mem_map.1 hk
        exact key_mem_seenIn (hadmitted e he).1 (isDup_of_isRun (hadmitted e he).2)

/-! ### Caps -/

/-- Calls of a tool that were run. -/
def executed (name : Text) (artifacts : List (Artifact φ)) : Nat :=
  artifacts.countP fun a => a.tool = name && a.isExecuted

/-- No more entries count as run than the plan let in. -/
lemma executed_issued_le (cfg : Settings φ) (b : Batch φ) (s : Turn φ) (name : Text) :
    executed name (b.issued cfg s) ≤
      (b.plan cfg s).countP fun e => e.call.tool = name && e.mode.isRun := by
  have hmap : (b.written cfg s).map (·.1) = b.plan cfg s := by
    simp only [Batch.written, List.map_map, Function.comp_def, List.zipIdx_map_fst]
  rw [← hmap, List.countP_map, Batch.issued, executed]
  have hwrote : ∀ p ∈ b.written cfg s, Wrote b.env p.1 p.2.2 := fun p hp => (mem_written hp).2
  generalize b.written cfg s = ws at hwrote ⊢
  induction ws with
  | nil => simp
  | cons p ws ih =>
    rw [List.flatMap_cons, List.countP_append, List.countP_cons]
    have htail := ih fun q hq => hwrote q (List.mem_cons_of_mem _ hq)
    have hhead := hwrote p List.mem_cons_self
    have hone : p.2.2.artifact.toList.countP (fun a => a.tool = name && a.isExecuted) ≤
        if (decide (p.1.call.tool = name) && p.1.mode.isRun) = true then 1 else 0 := by
      cases ha : p.2.2.artifact with
      | none => simp
      | some a =>
        have htool : a.tool = p.1.call.tool := congrArg Prod.fst (hhead.key a ha)
        by_cases hrun : (decide (a.tool = name) && a.isExecuted) = true
        · have hparts := Bool.and_eq_true_iff.1 hrun
          have hmode := hhead.executed a ha hparts.2
          have hname : p.1.call.tool = name := htool ▸ of_decide_eq_true hparts.1
          rw [Option.toList_some, List.countP_singleton, if_pos hrun,
            if_pos (by simp [hname, hmode])]
        · simp [hrun]
    simp only [Function.comp_apply] at htail ⊢
    omega

lemma issued_sublist (cfg : Settings φ) (b : Batch φ) (s : Turn φ) :
    (b.issued cfg s).Sublist ((b.written cfg s).flatMap (·.2.2.artifacts)) := by
  exact List.Sublist.flatMap_right _ fun p _ => List.sublist_append_right _ _

/-- The model's own calls of a tool that were run are in the ledger, and within the cap. -/
structure Log.Capped (cfg : Settings φ) (name : Text) (l : Log φ) : Prop where
  listed : executed name l.issued ≤ executed name l.turn.artifacts
  within : executed name l.issued ≤ cfg.turnToolCallCap name

lemma Log.Capped.step {name : Text} {l : Log φ} (h : l.Capped cfg name) (node : Node φ)
    (hread : ∀ b, node = .tools b → isWrite b.env.specs name = false) :
    (l.step cfg node).Capped cfg name := by
  cases node with
  | agent messages plain question =>
    refine ⟨h.listed.trans ?_, h.within⟩
    exact (List.sublist_append_left _ _).countP_le
  | refine => exact ⟨h.listed, h.within⟩
  | tools b =>
    have hissued : executed name (l.step cfg (.tools b)).issued =
        executed name l.issued + executed name (b.issued cfg l.turn) := by
      simp [Log.step, executed, List.countP_append]
    have hledger : executed name l.turn.artifacts + executed name (b.issued cfg l.turn) ≤
        executed name (executeTools cfg b l.turn).artifacts := by
      have hsub := (issued_sublist cfg b l.turn).countP_le
        (p := fun a => decide (a.tool = name) && a.isExecuted)
      simp only [executeTools, executed, List.countP_append]
      omega
    have hle := executed_issued_le cfg b l.turn name
    have hlisted := h.listed
    have hwithin := h.within
    refine ⟨?_, ?_⟩
    · rw [hissued]
      exact (Nat.add_le_add_right hlisted _).trans hledger
    · rw [hissued]
      have hplan := planBatch_planned cfg b.env l.turn
        (batchOf l.turn.messages).1
      rcases hplan.capped name (hread b rfl) with hnone | hcap
      · have hzero : executed name (b.issued cfg l.turn) = 0 := Nat.le_zero.1 (hnone ▸ hle)
        omega
      · have hcount : executed name l.turn.artifacts + (b.plan cfg l.turn).countP
            (fun e => e.call.tool = name && e.mode.isRun) ≤ cfg.turnToolCallCap name := hcap
        omega

/-! ### The whole turn -/

/-- How a batch settles the calls it takes up. -/
structure BatchSettles (cfg : Settings φ) (b : Batch φ) (s : Turn φ) : Prop where
  /-- Every call has its place, in the order of the message. -/
  planned : (b.written cfg s).map (·.1.call) = (batchOf s.messages).1
  /-- The results added are one for each call and malformed call with an id. -/
  answered : (toolMessages (executeTools cfg b s).messages).map (·.toolCallId) =
    (toolMessages s.messages).map (·.toolCallId) ++ pendingIds s.messages
  /-- The ledger grows by what the calls leave, in their order, and by the malformed ones. -/
  ledger : (executeTools cfg b s).artifacts = s.artifacts ++
    ((b.written cfg s).flatMap (fun p => p.2.2.evidence ++ p.2.2.artifact.toList) ++
      (b.malformed cfg s).map (·.artifact s.loopTurn))
  evidence : ∀ p ∈ b.written cfg s, ∀ a ∈ p.2.2.evidence, a.tool = Text.ofString "calculate_commute"
  /-- A call leaves one entry of its own, with its tool and digest. -/
  entry : ∀ p ∈ b.written cfg s, p.1.mode.isDup = false → ∃ a, p.2.2.artifact = some a ∧
    a.tool = p.1.call.tool ∧ a.paramsDigest = cfg.paramsDigest p.1.call.tool p.1.args
  /-- A duplicate leaves none: its tool and digest are in the ledger, or those of another call. -/
  duplicate : ∀ p ∈ b.written cfg s, p.1.mode.isDup → p.2.2.artifact = none ∧
    (p.1.key ∈ seenIn s.artifacts ∨
      ∃ e ∈ b.plan cfg s, e.mode.isDup = false ∧ e.key = p.1.key)
  waited : ∀ p ∈ b.written cfg s, isWrite b.env.specs p.1.call.tool →
    ∀ a ∈ p.2.2.artifact, a.abandoned = false

lemma Log.AnswersOnce.settles {used : List Text} {l : Log φ} (h : l.AnswersOnce cfg used)
    (b : Batch φ) : BatchSettles cfg b l.turn where
  planned := written_calls cfg b l.turn
  answered := by rw [toolMessages_executeTools, List.map_append, h.results_ids b]
  ledger := rfl
  evidence p hp := (mem_written hp).2.evidence
  entry p hp hdup := by
    obtain ⟨hin, hwrote⟩ := mem_written hp
    obtain ⟨a, ha⟩ := Option.ne_none_iff_exists'.1 fun hnone => by
      have hisDup := hwrote.silent.1 hnone
      rw [hdup] at hisDup
      cases hisDup
    have hkey := hwrote.key a ha
    exact ⟨a, ha, congrArg Prod.fst hkey, (congrArg Prod.snd hkey).trans (digest_of_plan hin)⟩
  duplicate p hp hdup := by
    obtain ⟨hin, hwrote⟩ := mem_written hp
    exact ⟨hwrote.silent.2 hdup, (planBatch_planned cfg b.env l.turn _).dup p.1 hin hdup⟩
  waited p hp := (mem_written hp).2.waited

/-- In a turn whose calls have ids of their own, every batch answers each of its calls and malformed
calls once and leaves one entry for each call that is no duplicate; no id is answered twice, no
call of the model is sent out twice, and no read is run more often than its cap. -/
theorem tool_batch_ledger (cfg : Settings φ) {nodes : List (Node φ)} (h : Identified nodes) :
    (∀ b, BatchSettles cfg b (Runs.run (Log.step cfg) Log.start nodes).turn) ∧
    ((toolMessages (Runs.run (Log.step cfg) Log.start nodes).turn.messages).map
      (·.toolCallId)).Nodup ∧
    (Runs.run (Log.step cfg) Log.start nodes).sent.Nodup ∧
    ∀ name, (∀ b, .tools b ∈ nodes → isWrite b.env.specs name = false) →
      executed name (Runs.run (Log.step cfg) Log.start nodes).issued ≤
        cfg.turnToolCallCap name := by
  have hanswers := answersOnce_run cfg h
  have hsends : (Runs.run (Log.step cfg) Log.start nodes).SendsOnce :=
    Runs.run_preserves (fun l node hl => hl.step node) ⟨.nil, fun k hk => by cases hk⟩ nodes
  refine ⟨hanswers.settles, hanswers.answered, hsends.distinct, fun name hread => ?_⟩
  have hcond : Runs.Along (Log.step cfg)
      (fun _ node => ∀ b, node = .tools b → isWrite b.env.specs name = false) Log.start nodes := by
    refine Runs.along_of_forall _ Log.start fun node hnode b hb => hread b ?_
    rwa [← hb]
  exact (Runs.run_preserves_along (I := Log.Capped cfg name)
    (fun l node hl hnode => hl.step node hnode)
    ⟨le_rfl, Nat.zero_le _⟩ hcond).within

/-- Settings in which every tool runs once, and calls are told apart by tool and arguments. -/
def onceSettings : Settings NonFinite where
  paramsDigest tool params := tool ++ 124 :: (JsonValue.obj params).dumps .default
  digest_ne tool params := by simp
  turnToolCallCap _ := 1
  str v := v.dumps .default
  dumps v := v.dumps .default
  derivedContent _ r := r.data.dumps .default
  isEvidenceNote _ := false
  noteHuman _ h := by cases h

/-- Surroundings with reads only, and nothing to refuse them. -/
def openSurroundings : Surroundings NonFinite where
  specs := []
  commuteReads := rfl
  gate := none
  strict := false
  message := "is it safe?"
  userId := "u"
  sessionId := "s"
  memoryPaused := false
  inject _ args := args
  unready _ := false
  readToolDenial _ _ := none
  commuteForbidden := false

def safetyRead (id area : String) : ToolCall NonFinite where
  name := some "check_safety"
  args := [("area", .str area)]
  id := some id

/-- Two areas to look up, one of them twice, and a malformed call. -/
def safetyTurn : List (Node NonFinite) :=
  [.agent [.assistant "" [safetyRead "a" "Camden", safetyRead "b" "Camden", safetyRead "c" "Kew"]
      [⟨some "check_safety", some "d"⟩]] (by simp) none,
    .tools {
      env := openSurroundings
      out := {
        budget := .remaining
        read := fun _ => .finished { failedCall "check_safety" "" with success := true }
        write := fun _ => .timedOut ""
        validated := fun _ => (.null, [])
        evidenceTainted := false }
      evidenceNote := none }]

lemma safetyTurn_identified : Identified safetyTurn where
  present := by decide
  distinct := by decide

theorem tool_batch_ledger_sample :
    (toolMessages (Runs.run (Log.step onceSettings) Log.start safetyTurn).turn.messages).map
      (·.toolCallId) = ["a", "b", "c", "d"] ∧
    ((toolMessages (Runs.run (Log.step onceSettings) Log.start safetyTurn).turn.messages).map
      (·.toolCallId)).Nodup ∧
    (Runs.run (Log.step onceSettings) Log.start safetyTurn).sent.length = 1 ∧
    (Runs.run (Log.step onceSettings) Log.start safetyTurn).sent.Nodup ∧
    executed (Text.ofString "check_safety")
      (Runs.run (Log.step onceSettings) Log.start safetyTurn).issued ≤ 1 := by
  have h := tool_batch_ledger onceSettings safetyTurn_identified
  have hread : ∀ b, .tools b ∈ safetyTurn → isWrite b.env.specs "check_safety" = false := by
    intro b hb
    simp only [safetyTurn, List.mem_cons, reduceCtorEq, Node.tools.injEq, List.not_mem_nil,
      or_false, false_or] at hb
    rw [hb]
    rfl
  exact ⟨by decide, h.2.1, by decide, h.2.2.1, h.2.2.2 _ hread⟩

end RentCompass.Agent
