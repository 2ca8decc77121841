import RentCompass.Agent.PlanWaves
import RentCompass.Agent.ToolBatch
import RentCompass.Runs

/-!
# The wave executor

`dispatch_tasks` sends every task that is ready, the workers answer in any order, and
`gather_wave` either goes back for the next wave or closes the plan: tasks that can never be
ready are reported as skipped. How a tool call ends is input.
-/

namespace RentCompass.Agent.Plan

variable {φ : Type} [FloatFormat φ]

/-! ### State -/

/-- An entry of `task_plan`. -/
structure PlanTask (φ : Type) extends Task φ where
  index : ℕ

/-- An entry of `task_results`. -/
structure TaskResult (φ : Type) where
  id : Text
  index : ℕ
  tool : Text
  params : Dict (JsonValue φ)
  obs : Text
  raw : JsonValue φ
  runId : Text

/-- An entry of `observations`. -/
structure Observation where
  turn : ℕ
  tool : Text
  observation : Text
  paramsDigest : Text

/-- The channels the executor reads and writes. -/
structure AgentState (φ : Type) where
  runId : Text
  taskPlan : List (PlanTask φ)
  taskResults : List (TaskResult φ)
  planOrigin : Text
  planNotes : List Text
  toolObservation : Text
  toolRawData : JsonValue φ
  contextTainted : Bool
  observations : List Observation
  loopTurn : ℕ
  planJustCompleted : Bool

/-- `bounded_add`, the reducer of `task_results`. -/
def boundedAdd {α : Type} (left right : List α) : List α :=
  let merged := left ++ right
  merged.drop (merged.length - 100)

/-- What the executor is given. -/
structure WaveConfig (φ : Type) where
  str : JsonValue φ → Text
  /-- `_params_digest`. -/
  paramsDigest : (tool : Text) → (params : Dict (JsonValue φ)) → Text
  /-- The seconds `TOOL_TIMEOUTS` has for a tool, as text. -/
  timeout : (tool : Text) → Text

/-! ### Nodes -/

/-- `_completed_task_ids`. -/
def completedTaskIds (s : AgentState φ) : Finset Text :=
  ((s.taskResults.filter (·.runId = s.runId)).map (·.id)).toFinset

/-- The ready set of `fan_out_tasks` and of `gather_wave`. -/
def readyTasks (plan : List (PlanTask φ)) (completed : Finset Text) : List (PlanTask φ) :=
  Waves.ready (·.id) (·.dependsOn) plan completed

/-- Where `fan_out_tasks` goes. -/
inductive FanOut (φ : Type) where
  | send (tasks : List (PlanTask φ))
  | gatherWave

/-- `fan_out_tasks`. -/
def fanOutTasks (s : AgentState φ) : FanOut φ :=
  let ready := readyTasks s.taskPlan (completedTaskIds s)
  if ready.isEmpty then .gatherWave else .send ready

/-- How the tool call of a worker ends. -/
inductive Outcome (φ : Type) where
  | success (data : JsonValue φ)
  | failure (error : Text)
  | timeout
  | exception

/-- `obs` and `raw` of a worker. -/
def Outcome.observed (cfg : WaveConfig φ) (tool : Text) : Outcome φ → Text × JsonValue φ
  | .success data =>
    let obs :=
      match data with
      | .obj fields =>
        match Dict.get? fields "results" with
        | some results => cfg.str results
        | none => data.dumps .default
      | _ => cfg.str data
    (obs, data)
  | .failure error => (Text.ofString "Error: " ++ error, .null)
  | .timeout =>
    (Text.ofString "Error: " ++ tool ++ Text.ofString " timed out after " ++ cfg.timeout tool ++
      Text.ofString "s", .null)
  | .exception => (Text.ofString "Error executing " ++ tool, .null)

/-- `task_worker_node`. -/
def taskWorker (cfg : WaveConfig φ) (runId : Text) (t : PlanTask φ) (outcome : Outcome φ) :
    TaskResult φ where
  id := t.id
  index := t.index
  tool := t.tool
  params := Tools.stripNullFields t.params
  obs := (outcome.observed cfg t.tool).1
  raw := (outcome.observed cfg t.tool).2
  runId := runId

/-- `depends_on` as the f-string of a skipped task shows it. -/
def dependsOnText (cfg : WaveConfig φ) (t : PlanTask φ) : Text :=
  cfg.str (.arr (t.dependsOn.map .str))

/-- The result `gather_wave` reports for a task that can never be ready. -/
def skippedResult (cfg : WaveConfig φ) (runId : Text) (t : PlanTask φ) : TaskResult φ where
  id := t.id
  index := t.index
  tool := t.tool
  params := t.params
  obs := Text.ofString "Error: task '" ++ t.id ++ Text.ofString "' skipped — dependencies " ++
    dependsOnText cfg t ++ Text.ofString " could not be satisfied (cycle or unavailable)."
  raw := .null
  runId := runId

/-- The section of a result in the combined observation. -/
def subSearch (it : TaskResult φ) : Text :=
  Text.ofString "### Sub-search " ++ Text.ofNat (it.index + 1) ++ Text.ofString ": " ++ it.tool ++
    Text.ofString "\nParams: " ++ (JsonValue.obj it.params).dumps .default ++
    Text.ofString "\nResult:\n" ++ it.obs

/-- `combined`. -/
def combined (items : List (TaskResult φ)) (notes : List Text) : Text :=
  let rule := List.replicate 50 61
  Text.ofString "\n" ++ rule ++ Text.ofString "\n## Combined Results\n" ++ rule ++
    Text.ofString "\n\n" ++
    (Text.ofString "\n---\n").intercalate (items.map subSearch) ++
    (if notes.isEmpty then []
      else Text.ofString "\n---\n### Notes (asks I could not complete)\n" ++
        (Text.ofString "\n").intercalate (notes.map (Text.ofString "- " ++ ·))) ++
    Text.ofString "\n\nTotal: " ++ Text.ofNat items.length ++ Text.ofString " tools executed.\n"

/-- `all_raw`. -/
def allRaw (items : List (TaskResult φ)) : Dict (JsonValue φ) :=
  items.foldl (fun raw it =>
    if Tools.truthy it.raw then
      raw.insert (it.tool ++ Text.ofString "_" ++ Text.ofNat (it.index + 1)) it.raw
    else raw) []

/-- The entry of `observations` for a result. -/
def observationOf (cfg : WaveConfig φ) (turn : ℕ) (it : TaskResult φ) : Observation where
  turn := turn
  tool := it.tool
  observation := it.obs
  paramsDigest := cfg.paramsDigest it.tool it.params

/-- The entry of `observations` for a planner note. -/
def noteObservation (turn : ℕ) (note : Text) : Observation where
  turn := turn
  tool := "planner_note"
  observation := note
  paramsDigest := []

/-- `_PLAN_ORIGIN_DIMENSIONS`. -/
def planOriginDimensions : Text := "dimension_followup"

/-- The nodes a plan moves between. -/
inductive Node where
  | dispatchTasks
  | gatherWave
  | generateResponse
  | reflect
  deriving DecidableEq

/-- The state and the node that runs next. -/
structure Machine (φ : Type) where
  node : Node
  state : AgentState φ

/-- The end of `gather_wave`: what becomes of the items of a finished plan. -/
def finalize (cfg : WaveConfig φ) (s : AgentState φ) (items : List (TaskResult φ)) : Machine φ :=
  let raw := allRaw items
  let s' := { s with
    toolObservation := combined items s.planNotes
    contextTainted := s.contextTainted || s.taskPlan.any (·.tool ∈ untrustedTools) }
  if s.planOrigin = planOriginDimensions then
    -- the listings of the search stay under the raw data of the wave
    let anchor : Dict (JsonValue φ) := match s.toolRawData with | .obj anchor => anchor | _ => []
    ⟨.generateResponse, { s' with
      toolRawData := .obj (anchor.update raw)
      observations := s.observations ++ items.map (observationOf cfg (s.loopTurn + 1))
      loopTurn := s.loopTurn + 1 }⟩
  else if s.planOrigin = Text.ofString "plan" then
    ⟨.reflect, { s' with
      toolRawData := .obj raw
      observations := s.observations ++ items.map (observationOf cfg s.loopTurn) ++
        s.planNotes.map (noteObservation s.loopTurn)
      loopTurn := s.loopTurn + 1
      planJustCompleted := true }⟩
  else
    ⟨.generateResponse, { s' with toolRawData := .obj raw }⟩

/-- `items` of `gather_wave`: the results of the run, and the tasks that can never be ready. -/
def gathered (cfg : WaveConfig φ) (s : AgentState φ) : List (TaskResult φ) :=
  let completed := completedTaskIds s
  let pending := s.taskPlan.filter (·.id ∉ completed)
  (s.taskResults.filter (·.runId = s.runId) ++ pending.map (skippedResult cfg s.runId)).insertionSort
    (fun r r' => r.index ≤ r'.index)

/-- `gather_wave_node`. -/
def gatherWave (cfg : WaveConfig φ) (s : AgentState φ) : Machine φ :=
  if (readyTasks s.taskPlan (completedTaskIds s)).isEmpty then finalize cfg s (gathered cfg s)
  else ⟨.dispatchTasks, s⟩

/-! ### Runs -/

/-- The answers of the workers of a wave, in the order the reducer receives them. -/
abbrev Answers (φ : Type) := List (PlanTask φ × Outcome φ)

/-- Merge one answer. -/
def merge (cfg : WaveConfig φ) (s : AgentState φ) (a : PlanTask φ × Outcome φ) : AgentState φ :=
  { s with taskResults := boundedAdd s.taskResults [taskWorker cfg s.runId a.1 a.2] }

/-- One node of the executor, with the workers that `dispatch_tasks` sends. -/
def step (cfg : WaveConfig φ) (m : Machine φ) (answers : Answers φ) : Machine φ :=
  match m.node with
  | .dispatchTasks => ⟨.gatherWave, answers.foldl (merge cfg) m.state⟩
  | .gatherWave => gatherWave cfg m.state
  | _ => m

/-- The workers that answer are the ones that were sent. -/
def Answered (m : Machine φ) (answers : Answers φ) : Prop :=
  match m.node with
  | .dispatchTasks =>
    match fanOutTasks m.state with
    | .send tasks => (answers.map Prod.fst).Perm tasks
    | .gatherWave => answers = []
  | _ => answers = []

omit [FloatFormat φ] in
lemma answered_of_send {m : Machine φ} {answers : Answers φ} {tasks : List (PlanTask φ)}
    (hnode : m.node = .dispatchTasks) (hsend : fanOutTasks m.state = .send tasks)
    (h : (answers.map Prod.fst).Perm tasks) : Answered m answers := by
  simpa only [Answered, hnode, hsend] using h

omit [FloatFormat φ] in
lemma answered_nil {m : Machine φ} (hnode : m.node ≠ .dispatchTasks) : Answered m [] := by
  rcases m with ⟨node, s⟩
  cases node with
  | dispatchTasks => exact absurd rfl hnode
  | gatherWave => rfl
  | generateResponse => rfl
  | reflect => rfl

/-! ### What a run has done -/

@[simp] lemma taskWorker_id (cfg : WaveConfig φ) (runId : Text) (t : PlanTask φ) (o : Outcome φ) :
    (taskWorker cfg runId t o).id = t.id := rfl

@[simp] lemma taskWorker_runId (cfg : WaveConfig φ) (runId : Text) (t : PlanTask φ)
    (o : Outcome φ) : (taskWorker cfg runId t o).runId = runId := rfl

/-- The keys done before the run begins. -/
abbrev doneIn (s : AgentState φ) (k : ℕ) : Finset Text :=
  Waves.after (·.id) (·.dependsOn) s.taskPlan (completedTaskIds s) k

/-- The tasks of the `k`-th wave. -/
abbrev waveOf (s : AgentState φ) (k : ℕ) : List (PlanTask φ) :=
  Waves.wave (·.id) (·.dependsOn) s.taskPlan (completedTaskIds s) k

/-- The results of the workers that answered. -/
def results (cfg : WaveConfig φ) (runId : Text) (sent : Answers φ) : List (TaskResult φ) :=
  sent.map fun a => taskWorker cfg runId a.1 a.2

/-- The channel before the run: what other runs left, and what this run has already. -/
structure Channel (s : AgentState φ) (old mine : List (TaskResult φ)) : Prop where
  eq : s.taskResults = old ++ mine
  old : ∀ r ∈ old, r.runId ≠ s.runId
  mine : ∀ r ∈ mine, r.runId = s.runId

/-- The state when the first `k` waves have been answered. -/
structure Progress (cfg : WaveConfig φ) (s : AgentState φ) (mine : List (TaskResult φ)) (k : ℕ)
    (sent : Answers φ) (s' : AgentState φ) : Prop where
  channel : ∃ old, (∀ r ∈ old, r.runId ≠ s.runId) ∧
    s' = { s with taskResults := old ++ (mine ++ results cfg s.runId sent) }
  sent : (sent.map Prod.fst).Perm ((List.range k).flatMap (waveOf s))

lemma boundedAdd_of_le {α : Type} (old mine : List α) (a : α) (h : mine.length < 100) :
    ∃ old', old' <:+ old ∧ boundedAdd (old ++ mine) [a] = old' ++ (mine ++ [a]) := by
  refine ⟨old.drop ((old ++ mine ++ [a]).length - 100), List.drop_suffix _ _, ?_⟩
  rw [boundedAdd, List.append_assoc, List.drop_append_of_le_length]
  simp only [List.length_append, List.length_cons, List.length_nil]
  omega

lemma foldl_merge (cfg : WaveConfig φ) (s : AgentState φ) (old mine : List (TaskResult φ))
    (answers : Answers φ) (h : mine.length + answers.length ≤ 100) :
    ∃ old', old' <:+ old ∧ answers.foldl (merge cfg) { s with taskResults := old ++ mine } =
      { s with taskResults := old' ++ (mine ++ results cfg s.runId answers) } := by
  induction answers generalizing old mine with
  | nil => exact ⟨old, List.suffix_rfl, by simp [results]⟩
  | cons a answers ih =>
    simp only [List.length_cons] at h
    obtain ⟨old₁, hold₁, hadd⟩ :=
      boundedAdd_of_le old mine (taskWorker cfg s.runId a.1 a.2) (by omega)
    obtain ⟨old₂, hold₂, hfold⟩ := ih old₁ (mine ++ [taskWorker cfg s.runId a.1 a.2])
      (by simp only [List.length_append, List.length_cons, List.length_nil]; omega)
    refine ⟨old₂, hold₂.trans hold₁, ?_⟩
    rw [List.foldl_cons, merge, hadd, hfold]
    simp [results]

section Run

variable {cfg : WaveConfig φ} {s : AgentState φ} {old mine : List (TaskResult φ)}

lemma Channel.progress (h : Channel s old mine) : Progress cfg s mine 0 [] s := by
  refine ⟨⟨old, h.old, ?_⟩, by simp⟩
  simp [results, ← h.eq]

omit [FloatFormat φ] in
lemma Channel.completed (h : Channel s old mine) :
    completedTaskIds s = (mine.map (·.id)).toFinset := by
  have hold : old.filter (fun r => decide (r.runId = s.runId)) = [] := by
    simpa using h.old
  have hmine : mine.filter (fun r => decide (r.runId = s.runId)) = mine := by
    simpa using h.mine
  rw [completedTaskIds, h.eq, List.filter_append, hold, hmine, List.nil_append]

lemma Progress.results_of_run {k : ℕ} {sent : Answers φ} {s' : AgentState φ}
    (h : Progress cfg s mine k sent s') (hchannel : Channel s old mine) :
    s'.taskResults.filter (·.runId = s'.runId) = mine ++ results cfg s.runId sent := by
  obtain ⟨old', hold, rfl⟩ := h.channel
  have hnil : old'.filter (fun r => decide (r.runId = s.runId)) = [] := by
    simpa using hold
  have hmine : mine.filter (fun r => decide (r.runId = s.runId)) = mine := by
    simpa using hchannel.mine
  have hres : (results cfg s.runId sent).filter (fun r => decide (r.runId = s.runId)) =
      results cfg s.runId sent := by
    rw [List.filter_eq_self]
    intro r hr
    obtain ⟨a, -, rfl⟩ := List.mem_map.1 hr
    simp
  simp only [List.filter_append, hnil, hmine, hres, List.nil_append]

/-- The ids completed are those the waves have done. -/
lemma Progress.completed {k : ℕ} {sent : Answers φ} {s' : AgentState φ}
    (h : Progress cfg s mine k sent s') (hchannel : Channel s old mine) :
    completedTaskIds s' = doneIn s k := by
  have hids : ((results cfg s.runId sent).map (·.id)).toFinset =
      (((List.range k).flatMap (waveOf s)).map (·.id)).toFinset := by
    have : (results cfg s.runId sent).map (·.id) = (sent.map Prod.fst).map (·.id) := by
      simp [results]
    rw [this]
    exact List.toFinset_eq_of_perm _ _ (h.sent.map _)
  rw [completedTaskIds, h.results_of_run hchannel, List.map_append, List.toFinset_append, hids,
    ← hchannel.completed, doneIn, Waves.after_eq_union]

lemma Progress.plan {k : ℕ} {sent : Answers φ} {s' : AgentState φ}
    (h : Progress cfg s mine k sent s') : s'.taskPlan = s.taskPlan := by
  obtain ⟨old', -, rfl⟩ := h.channel
  rfl

lemma Progress.ready {k : ℕ} {sent : Answers φ} {s' : AgentState φ}
    (h : Progress cfg s mine k sent s') (hchannel : Channel s old mine) :
    readyTasks s'.taskPlan (completedTaskIds s') = waveOf s k := by
  rw [h.plan, h.completed hchannel]
  rfl

/-- A wave that is answered is the next step of the progress. -/
lemma Progress.answer {k : ℕ} {sent answers : Answers φ} {s' : AgentState φ}
    (h : Progress cfg s mine k sent s') (hsize : mine.length + s.taskPlan.length ≤ 100)
    (hwave : (answers.map Prod.fst).Perm (waveOf s k)) :
    Progress cfg s mine (k + 1) (sent ++ answers) (answers.foldl (merge cfg) s') := by
  obtain ⟨old', hold, rfl⟩ := h.channel
  have hperm : ((sent ++ answers).map Prod.fst).Perm ((List.range (k + 1)).flatMap (waveOf s)) := by
    rw [List.map_append, List.range_succ, List.flatMap_append, List.flatMap_singleton]
    exact h.sent.append hwave
  have hlen : (mine ++ results cfg s.runId sent).length + answers.length ≤ 100 := by
    have hle := Waves.length_flatMap_wave_le (fun t : PlanTask φ => t.id) (·.dependsOn) s.taskPlan
      (completedTaskIds s) (k + 1)
    have heq := hperm.length_eq
    simp only [List.length_map, List.length_append, results] at heq ⊢
    have : sent.length + answers.length ≤ s.taskPlan.length := heq.le.trans hle
    omega
  obtain ⟨old'', hsuffix, hfold⟩ := foldl_merge cfg s old' _ answers hlen
  refine ⟨⟨old'', fun r hr => hold r (hsuffix.subset hr), ?_⟩, hperm⟩
  rw [hfold]
  simp [results]

/-- Where a run is after a number of nodes, and what it has sent. -/
inductive Phase (cfg : WaveConfig φ) (s : AgentState φ) (mine : List (TaskResult φ)) :
    ℕ → Answers φ → Machine φ → Prop
  | dispatch {k : ℕ} {sent : Answers φ} {s' : AgentState φ}
      (progress : Progress cfg s mine k sent s') (more : k = 0 ∨ waveOf s k ≠ []) :
      Phase cfg s mine (2 * k) sent ⟨.dispatchTasks, s'⟩
  | gather {k : ℕ} {sent : Answers φ} {s' : AgentState φ}
      (progress : Progress cfg s mine (k + 1) sent s') (more : k = 0 ∨ waveOf s k ≠ []) :
      Phase cfg s mine (2 * k + 1) sent ⟨.gatherWave, s'⟩
  | ended {i k : ℕ} {sent : Answers φ} {s' : AgentState φ}
      (progress : Progress cfg s mine k sent s') (last : waveOf s k = []) (time : 2 * k ≤ i) :
      Phase cfg s mine i sent (finalize cfg s' (gathered cfg s'))

lemma finalize_ended (cfg : WaveConfig φ) (s : AgentState φ) (items : List (TaskResult φ)) :
    (finalize cfg s items).node = .generateResponse ∨ (finalize cfg s items).node = .reflect := by
  rw [finalize]
  split_ifs
  · exact Or.inl rfl
  · exact Or.inr rfl
  · exact Or.inl rfl

lemma step_finalize (cfg : WaveConfig φ) (s : AgentState φ) (items : List (TaskResult φ))
    {answers : Answers φ} (h : Answered (finalize cfg s items) answers) :
    answers = [] ∧ step cfg (finalize cfg s items) answers = finalize cfg s items := by
  rcases finalize_ended cfg s items with hnode | hnode <;>
    simp only [Answered, hnode] at h <;> simp [step, hnode, h]

/-- The workers that answer in the `i`-th node are those of a wave, if it is a dispatch. -/
def sentAt (s : AgentState φ) (i : ℕ) : List (PlanTask φ) :=
  if i % 2 = 0 then waveOf s (i / 2) else []

/-- What one node does. -/
lemma Phase.step {i : ℕ} {sent answers : Answers φ} {m : Machine φ}
    (hchannel : Channel s old mine) (hsize : mine.length + s.taskPlan.length ≤ 100)
    (h : Phase cfg s mine i sent m) (hans : Answered m answers) :
    Phase cfg s mine (i + 1) (sent ++ answers) (step cfg m answers) ∧
      (answers.map Prod.fst).Perm (sentAt s i) := by
  cases h with
  | @dispatch k _ s' progress more =>
    have hwave : (answers.map Prod.fst).Perm (waveOf s k) := by
      simp only [Answered, fanOutTasks, progress.ready hchannel] at hans
      cases hw : waveOf s k with
      | nil => simpa [hw] using hans
      | cons t ts => simpa [hw] using hans
    refine ⟨.gather (progress.answer hsize hwave) more, ?_⟩
    simpa [sentAt] using hwave
  | @gather k _ s' progress more =>
    obtain rfl : answers = [] := hans
    have hodd : sentAt s (2 * k + 1) = [] := by
      rw [sentAt, if_neg (by omega)]
    rw [hodd, List.append_nil]
    refine ⟨?_, by simp⟩
    simp only [Plan.step, gatherWave, progress.ready hchannel]
    split_ifs with hnil
    · exact .ended progress (List.isEmpty_iff.1 hnil) (by omega)
    · exact .dispatch progress (Or.inr fun h => hnil (by simp [h]))
  | @ended _ k _ s' progress last time =>
    obtain ⟨rfl, hstep⟩ := step_finalize cfg s' (gathered cfg s') hans
    rw [hstep, List.append_nil]
    refine ⟨.ended progress last (by omega), ?_⟩
    have : sentAt s i = [] := by
      rw [sentAt]
      split_ifs
      · exact Waves.wave_of_wave_nil last (by omega)
      · rfl
    simp [this]

/-- What a run does. -/
lemma Phase.run (hchannel : Channel s old mine) (hsize : mine.length + s.taskPlan.length ≤ 100)
    (as : List (Answers φ)) (has : Runs.Along (Plan.step cfg) Answered ⟨.dispatchTasks, s⟩ as) :
    Phase cfg s mine as.length as.flatten (Runs.run (Plan.step cfg) ⟨.dispatchTasks, s⟩ as) ∧
      ∀ (i : ℕ) (answers : Answers φ), as[i]? = some answers →
        (answers.map Prod.fst).Perm (sentAt s i) := by
  induction as using List.reverseRecOn with
  | nil => exact ⟨.dispatch hchannel.progress (Or.inl rfl), by simp⟩
  | append_singleton as a ih =>
    obtain ⟨has, ha, -⟩ := (Runs.along_append _ _ _ _ _).1 has
    obtain ⟨hphase, hsent⟩ := ih has
    obtain ⟨hnext, hperm⟩ := hphase.step hchannel hsize ha
    rw [Runs.run_append]
    refine ⟨by simpa using hnext, fun i answers hi => ?_⟩
    rcases lt_trichotomy i as.length with hlt | rfl | hgt
    · exact hsent i answers (by simpa [List.getElem?_append_left hlt] using hi)
    · simp only [List.getElem?_concat_length, Option.some.injEq] at hi
      rwa [← hi]
    · rw [List.getElem?_eq_none (by simpa using hgt)] at hi
      cases hi

/-- The items a closed plan reports: what the run had before, what its workers answered, and one
item for each task whose needs no order of the tasks could meet. -/
lemma Progress.gathered {k : ℕ} {sent : Answers φ} {s' : AgentState φ}
    (h : Progress cfg s mine k sent s') (hchannel : Channel s old mine) :
    (gathered cfg s').Perm (mine ++ results cfg s.runId sent ++
      (s.taskPlan.filter (·.id ∉ doneIn s k)).map (skippedResult cfg s.runId)) := by
  have hrun : s'.runId = s.runId := by
    obtain ⟨old', -, rfl⟩ := h.channel
    rfl
  rw [Plan.gathered, h.results_of_run hchannel, h.plan, h.completed hchannel, hrun]
  exact List.perm_insertionSort _ _

omit [FloatFormat φ] in
lemma Channel.mem_completed (h : Channel s old mine) (tid : Text) :
    tid ∈ completedTaskIds s ↔ tid ∈ mine.map (·.id) := by
  rw [h.completed, List.mem_toFinset]

omit [FloatFormat φ] in
lemma exists_waveOf {i : ℕ} {t : PlanTask φ} (h : t ∈ sentAt s i) :
    ∃ k, i = 2 * k ∧ t ∈ waveOf s k := by
  rw [sentAt] at h
  split_ifs at h
  · exact ⟨i / 2, by omega, h⟩
  · cases h

omit [FloatFormat φ] in
/-- Every dependency of a task that is sent was done before the run or was sent earlier. -/
lemma sent_before {as : List (Answers φ)}
    (hsent : ∀ (i : ℕ) (answers : Answers φ), as[i]? = some answers →
      (answers.map Prod.fst).Perm (sentAt s i))
    {k : ℕ} (hk : 2 * k < as.length) {t : PlanTask φ} (ht : t ∈ waveOf s k) {d : Text}
    (hd : d ∈ t.dependsOn) : d ∈ completedTaskIds s ∨
      ∃ j < 2 * k, ∃ b ∈ (as[j]?).getD [], b.1.id = d := by
  have hdk := (Waves.mem_wave.1 ht).2.2 d hd
  rw [Waves.after_eq_union, Finset.mem_union] at hdk
  rcases hdk with hd₀ | hdk
  · exact Or.inl hd₀
  · obtain ⟨u, hu, rfl⟩ := List.mem_map.1 (List.mem_toFinset.1 hdk)
    obtain ⟨j, hj, hu⟩ := List.mem_flatMap.1 hu
    have hjk := List.mem_range.1 hj
    have hget := List.getElem?_eq_getElem (show 2 * j < as.length by omega)
    have hu' : u ∈ (as[2 * j].map Prod.fst) := by
      apply (hsent _ _ hget).symm.subset
      simpa [sentAt] using hu
    obtain ⟨b, hb, rfl⟩ := List.mem_map.1 hu'
    exact Or.inr ⟨2 * j, by omega, b, by simpa [hget] using hb, rfl⟩

omit [FloatFormat φ] in
/-- No two nodes send the same id. -/
lemma sent_once {as : List (Answers φ)}
    (hsent : ∀ (i : ℕ) (answers : Answers φ), as[i]? = some answers →
      (answers.map Prod.fst).Perm (sentAt s i))
    {k : ℕ} {t : PlanTask φ} (ht : t ∈ waveOf s k) {j : ℕ} (hj : j ≠ 2 * k)
    {b : PlanTask φ × Outcome φ} (hb : b ∈ (as[j]?).getD []) : b.1.id ≠ t.id := by
  intro heq
  cases hget : as[j]? with
  | none => simp [hget] at hb
  | some bs =>
    simp only [hget, Option.getD_some] at hb
    obtain ⟨k', rfl, hk'⟩ := exists_waveOf ((hsent j bs hget).subset (List.mem_map_of_mem hb))
    exact hj (by rw [Waves.wave_unique hk' ht heq])

/-- From some wave on there is nothing to send, and by then the plan is closed. -/
lemma Phase.closed {n i : ℕ} {sent : Answers φ} {m : Machine φ} (h : Phase cfg s mine i sent m)
    (hlast : waveOf s n = []) (htwo : 2 ≤ i) (hi : 2 * n ≤ i) :
    m.node ∈ [.generateResponse, .reflect] := by
  have hlt : ∀ {k : ℕ}, waveOf s k ≠ [] → k < n := fun hk =>
    not_le.1 fun hnk => hk (Waves.wave_of_wave_nil hlast hnk)
  cases h with
  | @dispatch k _ s' progress more =>
    rcases more with rfl | more
    · omega
    · have := hlt more
      omega
  | @gather k _ s' progress more =>
    rcases more with rfl | more
    · omega
    · have := hlt more
      omega
  | @ended _ k _ s' progress last time =>
    rcases finalize_ended cfg s' (Plan.gathered cfg s') with h | h <;> simp [h]

/-- How a closed plan was closed. -/
lemma Phase.of_closed {i : ℕ} {sent : Answers φ} {m : Machine φ} (h : Phase cfg s mine i sent m)
    (hnode : m.node ∈ [.generateResponse, .reflect]) :
    ∃ k s', Progress cfg s mine k sent s' ∧ waveOf s k = [] ∧
      m = finalize cfg s' (Plan.gathered cfg s') := by
  cases h with
  | dispatch progress more => simp at hnode
  | gather progress more => simp at hnode
  | ended progress last time => exact ⟨_, _, progress, last, rfl⟩

/-- With distinct ids the tasks sent are those that were new and are finished. -/
lemma Progress.sent_perm {k : ℕ} {sent : Answers φ} {s' : AgentState φ}
    (h : Progress cfg s mine k sent s') (hchannel : Channel s old mine)
    (hids : (s.taskPlan.map (·.id)).Nodup) : (sent.map Prod.fst).Perm
      (s.taskPlan.filter fun t => t.id ∉ mine.map (·.id) ∧ t.id ∈ doneIn s k) := by
  have hperm := Waves.flatMap_wave_perm_of_nodup (fun t : PlanTask φ => t.dependsOn)
    (completedTaskIds s) hids k
  refine (h.sent.trans hperm).trans (List.Perm.of_eq ?_)
  apply List.filter_congr
  intro t _
  rw [decide_eq_decide, hchannel.mem_completed]

end Run

/-! ### A plan of three tasks -/

/-- A configuration for plans without values that need showing. -/
def plainConfig : WaveConfig NonFinite where
  str v := v.dumps .default
  paramsDigest tool _ := tool
  timeout _ := "30"

/-- Safety, then the journey, and a task that waits for itself. -/
def threeTasks : List (PlanTask NonFinite) :=
  [⟨⟨"t0", "check_safety", [], []⟩, 0⟩, ⟨⟨"t1", "calculate_commute", [], ["t0"]⟩, 1⟩,
    ⟨⟨"t2", "get_weather", [], ["t2"]⟩, 2⟩]

/-- The result of an earlier run. -/
def earlierResult : TaskResult NonFinite :=
  ⟨"t0", 0, "web_search", [], "found", .null, "before"⟩

def threeTaskState : AgentState NonFinite where
  runId := "now"
  taskPlan := threeTasks
  taskResults := [earlierResult]
  planOrigin := "plan"
  planNotes := []
  toolObservation := []
  toolRawData := .null
  contextTainted := false
  observations := []
  loopTurn := 0
  planJustCompleted := false

/-- The first wave answers, the second runs out of time. -/
def threeTaskAnswers : List (Answers NonFinite) :=
  [[(⟨⟨"t0", "check_safety", [], []⟩, 0⟩, .success (.str "low"))], [],
    [(⟨⟨"t1", "calculate_commute", [], ["t0"]⟩, 1⟩, .timeout)], []]

end RentCompass.Agent.Plan
