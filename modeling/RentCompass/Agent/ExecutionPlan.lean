import RentCompass.Agent.WaveExecutor

/-!
# Execution plans

`build_execution_plan` turns what a planner model asks for into a plan: it names and resolves the
tasks, drops repeated calls, clamps the width and the depth, and falls back to the single-tool
decision when fewer than two tasks are left. The plans it builds run in three waves at most.
-/

namespace RentCompass.Agent.Plan

variable {φ : Type}

/-! ### What the planner is given -/

/-- `MAX_PLAN_TASKS`. -/
def maxPlanTasks : ℕ := 8

/-- `MAX_PLAN_WAVES`. -/
def maxPlanWaves : ℕ := 3

/-- `PLANNABLE_TOOLS`. -/
def plannableTools : List Text :=
  ["web_search", "check_safety", "search_nearby_pois", "calculate_commute",
    "calculate_commute_cost", "get_transport_info", "get_weather", "get_property_details"]

/-- `_MARKET_INTENT_ALIASES`. -/
def marketIntentAliases : List Text :=
  ["market research", "market_research", "market-research", "market_info"]

/-- A single-tool decision, as far as `_resolve_plan_task` reads it. -/
structure Decision (φ : Type) where
  tool : Text
  params : Option (Dict (JsonValue φ))
  clarificationMessage : Text

/-- What the node reads of its surroundings. -/
structure Planner (φ : Type) extends WaveConfig φ where
  lower : Text → Text
  /-- The parameters of the searches that `_plan_web_searches` proposes. -/
  planWebSearches : (query : Text) → List (Dict (JsonValue φ))
  /-- `_build_tool_params` with the task's query as the current message. -/
  buildToolParams : (tool query : Text) → Decision φ
  currentMessage : Text
  /-- `params_digest` of the observations of the turn. -/
  priorDigests : List Text
  /-- The localized opening of a clarification. -/
  clarificationHeader : Text

/-! ### Tasks -/

/-- An entry of `expanded`: a task whose parameters may be known already. -/
structure Expanded (φ : Type) where
  id : Text
  tool : Text
  query : Text
  resolved : Option (Dict (JsonValue φ))
  dependsOn : List Text

section Expansion

variable [FloatFormat φ]

/-- `str(value or "")`. -/
def textOr (cfg : Planner φ) (value : Option (JsonValue φ)) : Text :=
  match value with
  | some v => if Tools.truthy v then cfg.str v else []
  | none => []

/-- The items of `for d in value`, or `none` for the `TypeError`. -/
def iterate : JsonValue φ → Option (List (JsonValue φ))
  | .arr items => some items
  | .str s => some (s.map fun c => .str [c])
  | .obj fields => some (Dict.keys fields |>.map .str)
  | _ => none

/-- `isinstance(d, (str, int))`. -/
def isStrOrInt : JsonValue φ → Bool
  | .str _ => true
  | .int _ => true
  | .bool _ => true
  | _ => false

/-- `deps` of a raw task. -/
def depsOf (cfg : Planner φ) (rt : Dict (JsonValue φ)) : Option (List Text) :=
  match rt.get? "depends_on" with
  | some v =>
    if Tools.truthy v then (iterate v).map fun items => (items.filter isStrOrInt).map cfg.str
    else some []
  | none => some []

/-- `query` of a raw task. -/
def queryOf (cfg : Planner φ) (rt : Dict (JsonValue φ)) : Text :=
  let query :=
    match rt.get? "params_hint" with
    | some (.obj hint) => (textOr cfg (Dict.get? hint "query")).strip
    | _ => []
  if query = [] then cfg.currentMessage else query

/-- `rid` of the `i`-th raw task. -/
def idOf (cfg : Planner φ) (i : ℕ) (rt : Dict (JsonValue φ)) : Text :=
  match rt.get? "id" with
  | some v => if Tools.truthy v then cfg.str v else Text.ofString "t" ++ Text.ofNat i
  | none => Text.ofString "t" ++ Text.ofNat i

/-- The web searches that stand for one market-research task. -/
def marketSearches (cfg : Planner φ) (rid query : Text) (deps : List Text) :
    List (Expanded φ) :=
  let found := cfg.planWebSearches query
  let searches := if found.isEmpty then [[(Text.ofString "query", .str query)]] else found
  (searches.take 5).mapIdx fun k p =>
    let asked : JsonValue φ :=
      match Dict.get? p "query" with
      | some v => if Tools.truthy v then v else .str query
      | none => .str query
    { id := rid ++ Text.ofString "_w" ++ Text.ofNat k
      tool := "web_search"
      query := query
      resolved := some [("query", asked)]
      dependsOn := deps }

/-- The tasks one raw task stands for. What is no dict stands for none; dependencies that cannot
be iterated raise. -/
def expandTask (cfg : Planner φ) (i : ℕ) (rt : JsonValue φ) : Option (List (Expanded φ)) :=
  match rt with
  | .obj rt =>
    let tool := (textOr cfg (Dict.get? rt "tool")).strip
    (depsOf cfg rt).map fun deps =>
      if cfg.lower tool ∈ marketIntentAliases then
        marketSearches cfg (idOf cfg i rt) (queryOf cfg rt) deps
      else
        [{ id := idOf cfg i rt, tool := tool, query := queryOf cfg rt, resolved := none
           dependsOn := deps }]
  | _ => some []

/-- `expanded`. -/
def expandTasks (cfg : Planner φ) (rawTasks : List (JsonValue φ)) : Option (List (Expanded φ)) :=
  (rawTasks.mapIdx (expandTask cfg)).foldr (fun ts rest => do return (← ts) ++ (← rest)) (some [])

end Expansion

/-- `_resolve_plan_task`: the tool and its parameters, or what is missing. -/
def resolvePlanTask (cfg : Planner φ) (tool query : Text) :
    Except Text (Text × Dict (JsonValue φ)) :=
  if tool = Text.ofString "web_search" then
    .ok ("web_search", [("query", .str query)])
  else
    let decision := cfg.buildToolParams tool query
    if decision.tool = Text.ofString "clarification" then
      .error (if decision.clarificationMessage = [] then
        Text.ofString "missing information for " ++ tool else decision.clarificationMessage)
    else .ok (decision.tool, decision.params.getD [])

/-- The accumulators of the resolution loop. -/
structure Resolution (φ : Type) where
  seenDigests : List Text
  tasks : List (Task φ)
  notes : List Text
  userNotes : List Text

/-- A call that is new joins the tasks. -/
def accept (cfg : Planner φ) (r : Resolution φ) (t : Expanded φ) (tool : Text)
    (params : Dict (JsonValue φ)) : Resolution φ :=
  let digest := cfg.paramsDigest tool params
  if digest ∈ r.seenDigests ∨ digest ∈ cfg.priorDigests then r
  else { r with
    seenDigests := digest :: r.seenDigests
    tasks := r.tasks ++ [{ id := t.id, tool := tool, params := params, dependsOn := t.dependsOn }] }

/-- One pass of the resolution loop. -/
def resolveStep (cfg : Planner φ) (r : Resolution φ) (t : Expanded φ) : Resolution φ :=
  match t.resolved with
  | some params => accept cfg r t t.tool params
  | none =>
    if t.tool ∈ plannableTools then
      match resolvePlanTask cfg t.tool t.query with
      | .ok (tool, params) => accept cfg r t tool params
      | .error clar => { r with
        notes := r.notes ++ [Text.ofString "Could not run '" ++ t.tool ++ Text.ofString "' for \"" ++
          t.query ++ Text.ofString "\": " ++ clar]
        userNotes := r.userNotes ++ [clar] }
    else r

/-- Dependencies on tasks that are not in the plan are forgotten. -/
def liveDependencies (tasks : List (Task φ)) : List (Task φ) :=
  tasks.map fun t => { t with dependsOn := t.dependsOn.filter (· ∈ tasks.map Task.id) }

/-- A task is dropped when its depth is `MAX_PLAN_WAVES` or more; without a depth it stays. -/
def shallow (tasks : List (Task φ)) (t : Task φ) : Bool :=
  match planWaveDepths tasks t.id with
  | some d => d < maxPlanWaves
  | none => true

/-- The budget clamps. -/
def clampPlan (tasks : List (Task φ)) : List (Task φ) :=
  let live := liveDependencies (tasks.take maxPlanTasks)
  live.filter (shallow live)

/-- What the node decides. -/
inductive PlanCommand (φ : Type) where
  /-- `_route_base_decision`. -/
  | fallback
  | clarification (message : Text)
  | plan (taskPlan : List (PlanTask φ)) (planNotes : List Text)

/-- `build_execution_plan_node` on what the planner model returned, `none` where nothing could be
parsed. The result is `none` where the node raises. -/
def buildExecutionPlan [FloatFormat φ] (cfg : Planner φ) (rawTasks : Option (List (JsonValue φ))) :
    Option (PlanCommand φ) :=
  match rawTasks.getD [] with
  | [] => some .fallback
  | raw => (expandTasks cfg raw).map fun expanded =>
    let r := expanded.foldl (resolveStep cfg) ⟨[], [], [], []⟩
    let tasks := clampPlan r.tasks
    if tasks.length < 2 then
      if tasks.isEmpty ∧ ¬ r.notes.isEmpty then
        .clarification (cfg.clarificationHeader ++ (Text.ofString "\n- ").intercalate
          (if r.userNotes.isEmpty then r.notes else r.userNotes))
      else .fallback
    else .plan (tasks.mapIdx fun i t => { toTask := t, index := i }) r.notes

/-! ### The calls of a plan -/

/-- The call a task makes. -/
def Task.digest (cfg : Planner φ) (t : Task φ) : Text := cfg.paramsDigest t.tool t.params

/-- No call is made twice, nor one the turn has made before. -/
structure Fresh (cfg : Planner φ) (r : Resolution φ) : Prop where
  seen : r.seenDigests = (r.tasks.map (Task.digest cfg)).reverse
  distinct : (r.tasks.map (Task.digest cfg)).Nodup
  prior : ∀ t ∈ r.tasks, t.digest cfg ∉ cfg.priorDigests

lemma Fresh.accept {cfg : Planner φ} {r : Resolution φ} (h : Fresh cfg r) (t : Expanded φ)
    (tool : Text) (params : Dict (JsonValue φ)) : Fresh cfg (Plan.accept cfg r t tool params) := by
  rw [Plan.accept]
  split_ifs with hseen
  · exact h
  · push Not at hseen
    rw [h.seen, List.mem_reverse] at hseen
    refine ⟨?_, ?_, ?_⟩
    · simp [h.seen, Task.digest]
    · simp only [List.map_append, List.map_singleton]
      refine h.distinct.append (List.nodup_singleton _) ?_
      rw [List.disjoint_singleton]
      exact hseen.1
    · intro u hu
      rcases List.mem_append.1 hu with hu | hu
      · exact h.prior u hu
      · rw [List.mem_singleton.1 hu]
        exact hseen.2

lemma Fresh.resolveStep {cfg : Planner φ} {r : Resolution φ} (h : Fresh cfg r) (t : Expanded φ) :
    Fresh cfg (Plan.resolveStep cfg r t) := by
  rw [Plan.resolveStep]
  cases t.resolved with
  | some params => exact h.accept _ _ _
  | none =>
    dsimp only
    split_ifs
    · cases resolvePlanTask cfg t.tool t.query with
      | ok call => exact h.accept _ _ _
      | error clar => exact ⟨h.seen, h.distinct, h.prior⟩
    · exact h

lemma fresh_foldl {cfg : Planner φ} (ts : List (Expanded φ)) {r : Resolution φ}
    (h : Fresh cfg r) : Fresh cfg (ts.foldl (resolveStep cfg) r) := by
  induction ts generalizing r with
  | nil => exact h
  | cons t ts ih => exact ih (h.resolveStep t)

/-- A pass of the loop adds one task at most, under the id it was asked for. -/
lemma ids_resolveStep (cfg : Planner φ) (r : Resolution φ) (t : Expanded φ) :
    ((resolveStep cfg r t).tasks.map Task.id).Sublist (r.tasks.map Task.id ++ [t.id]) := by
  have haccept : ∀ (tool : Text) (params : Dict (JsonValue φ)),
      ((accept cfg r t tool params).tasks.map Task.id).Sublist (r.tasks.map Task.id ++ [t.id]) := by
    intro tool params
    rw [Plan.accept]
    split_ifs
    · exact List.sublist_append_left _ _
    · simp
  rw [resolveStep]
  cases t.resolved with
  | some params => exact haccept _ _
  | none =>
    dsimp only
    split_ifs
    · cases resolvePlanTask cfg t.tool t.query with
      | ok call => exact haccept _ _
      | error clar => exact List.sublist_append_left _ _
    · exact List.sublist_append_left _ _

lemma ids_foldl (cfg : Planner φ) (ts : List (Expanded φ)) (r : Resolution φ) :
    ((ts.foldl (resolveStep cfg) r).tasks.map Task.id).Sublist
      (r.tasks.map Task.id ++ ts.map Expanded.id) := by
  induction ts generalizing r with
  | nil => simp
  | cons t ts ih =>
    apply (ih (resolveStep cfg r t)).trans
    have := (ids_resolveStep cfg r t).append_right (ts.map Expanded.id)
    simpa using this

/-! ### The waves of a plan -/

lemma map_digest_liveDependencies (cfg : Planner φ) (tasks : List (Task φ)) :
    (liveDependencies tasks).map (Task.digest cfg) = tasks.map (Task.digest cfg) := by
  simp [liveDependencies, Function.comp_def, Task.digest]

lemma length_clampPlan_le (tasks : List (Task φ)) : (clampPlan tasks).length ≤ maxPlanTasks := by
  apply (List.length_filter_le _ _).trans
  simp [liveDependencies]

/-- The calls of the clamped plan are calls of the tasks. -/
lemma digests_clampPlan (cfg : Planner φ) (tasks : List (Task φ)) :
    ((clampPlan tasks).map (Task.digest cfg)).Sublist (tasks.map (Task.digest cfg)) := by
  refine ((List.filter_sublist (p := shallow _)).map _).trans ?_
  rw [map_digest_liveDependencies]
  exact (List.take_sublist _ _).map _

lemma map_id_liveDependencies (tasks : List (Task φ)) :
    (liveDependencies tasks).map Task.id = tasks.map Task.id := by
  simp [liveDependencies, Function.comp_def]

lemma shallow_eq_false {tasks : List (Task φ)} (hids : (tasks.map Task.id).Nodup) {t : Task φ}
    (ht : t ∈ tasks) : shallow tasks t = false ↔ ∃ k, maxPlanWaves ≤ k ∧ At tasks t.id k := by
  have hdepth := fun k => planWaveDepths_eq_some hids ht (k := k)
  rw [shallow]
  cases hd : planWaveDepths tasks t.id with
  | none =>
    simp only [reduceCtorEq, false_iff, not_exists, not_and]
    intro k _ hk
    have := (hdepth k).2 hk
    rw [hd] at this
    cases this
  | some d =>
    have hat : At tasks t.id d := (hdepth d).1 hd
    simp only [decide_eq_false_iff_not, not_lt]
    constructor
    · intro h
      exact ⟨d, h, hat⟩
    · rintro ⟨k, hk, hk'⟩
      rwa [hat.unique hk']

/-- A clamped plan has nothing left for a fourth wave. -/
lemma wave_clampPlan {tasks : List (Task φ)} (hids : (tasks.map Task.id).Nodup) :
    Waves.wave Task.id (Waves.others Task.id Task.dependsOn) (clampPlan tasks) ∅ maxPlanWaves =
      [] := by
  have hlive : ((liveDependencies (tasks.take maxPlanTasks)).map Task.id).Nodup := by
    rw [map_id_liveDependencies]
    exact hids.sublist ((List.take_sublist _ _).map _)
  exact (Waves.after_drop_late hlive fun t ht => shallow_eq_false hlive ht).2

lemma ids_clampPlan {tasks : List (Task φ)} (hids : (tasks.map Task.id).Nodup) :
    ((clampPlan tasks).map Task.id).Nodup := by
  refine List.Nodup.sublist ((List.filter_sublist (p := shallow _)).map _) ?_
  rw [map_id_liveDependencies]
  exact hids.sublist ((List.take_sublist _ _).map _)

section Fresh

variable {s : AgentState φ}

/-- Before a run has results, the wave of a task is the depth that was planned for it, unless it
waits for a task that waits for itself. -/
lemma mem_waveOf_iff (hids : (s.taskPlan.map (·.id)).Nodup) (hfresh : completedTaskIds s = ∅)
    {t : PlanTask φ} (ht : t ∈ s.taskPlan) {k : ℕ} :
    t ∈ waveOf s k ↔ planWaveDepths (s.taskPlan.map PlanTask.toTask) t.id = some k ∧
      Waves.Proper (fun t : PlanTask φ => t.id) (fun t => t.dependsOn) s.taskPlan t := by
  have hids' : ((s.taskPlan.map PlanTask.toTask).map Task.id).Nodup := by
    rwa [List.map_map]
  rw [waveOf, hfresh, Waves.mem_wave_others hids ht, Waves.mem_wave_iff_finishedIn hids ht,
    planWaveDepths_eq_some hids' (List.mem_map_of_mem ht), At, Waves.finishedIn_map]
  rfl

/-- A run of a clamped plan has no fourth wave. -/
lemma waveOf_clamped {tasks : List (Task φ)} (hids : (tasks.map Task.id).Nodup)
    (hplan : s.taskPlan.map PlanTask.toTask = clampPlan tasks)
    (hfresh : completedTaskIds s = ∅) : waveOf s maxPlanWaves = [] := by
  have hplanIds : (s.taskPlan.map (·.id)).Nodup := by
    have := ids_clampPlan hids
    rwa [← hplan, List.map_map] at this
  rw [List.eq_nil_iff_forall_not_mem]
  intro t ht
  have hmem : t ∈ s.taskPlan := (Waves.mem_wave.1 ht).1
  have htask : t.toTask ∈ clampPlan tasks := by
    rw [← hplan]
    exact List.mem_map_of_mem hmem
  rw [waveOf, hfresh, Waves.mem_wave_others hplanIds hmem,
    Waves.mem_wave_iff_finishedIn hplanIds hmem] at ht
  have hat : At (clampPlan tasks) t.id maxPlanWaves := by
    rw [← hplan, At, Waves.finishedIn_map]
    exact ht.1
  rw [At, ← Waves.mem_wave_iff_finishedIn (ids_clampPlan hids) htask, wave_clampPlan hids] at hat
  cases hat

/-- The tasks a closed plan has sent are those that have a wave. -/
lemma mem_sent_iff {cfg : WaveConfig φ} [FloatFormat φ] {mine : List (TaskResult φ)} {k : ℕ}
    {sent : Answers φ} {s' : AgentState φ} (h : Progress cfg s mine k sent s')
    (hlast : waveOf s k = []) (t : PlanTask φ) :
    (∃ o, (t, o) ∈ sent) ↔ ∃ j, t ∈ waveOf s j := by
  have hmem : (∃ o, (t, o) ∈ sent) ↔ t ∈ sent.map Prod.fst := by
    simp
  rw [hmem, h.sent.mem_iff, List.mem_flatMap]
  constructor
  · rintro ⟨j, -, hj⟩
    exact ⟨j, hj⟩
  · rintro ⟨j, hj⟩
    refine ⟨j, List.mem_range.2 (not_le.1 fun hkj => ?_), hj⟩
    rw [waveOf, Waves.wave_of_wave_nil hlast hkj] at hj
    cases hj

end Fresh

section Built

variable [FloatFormat φ]

/-- What a plan that is built is built from. -/
lemma buildExecutionPlan_eq_plan {cfg : Planner φ} {rawTasks : Option (List (JsonValue φ))}
    {plan : List (PlanTask φ)} {notes : List Text}
    (h : buildExecutionPlan cfg rawTasks = some (.plan plan notes)) :
    ∃ expanded, expandTasks cfg (rawTasks.getD []) = some expanded ∧
      2 ≤ plan.length ∧ plan.map PlanTask.toTask =
        clampPlan (expanded.foldl (resolveStep cfg) ⟨[], [], [], []⟩).tasks ∧
      plan.map PlanTask.index = List.range plan.length := by
  rw [buildExecutionPlan] at h
  split at h
  · cases h
  · obtain ⟨expanded, hexpanded, h⟩ := Option.map_eq_some_iff.1 h
    refine ⟨expanded, hexpanded, ?_⟩
    dsimp only at h
    split_ifs at h with htwo
    injection h with hplan _
    subst hplan
    have hmap : ∀ ts : List (Task φ),
        (ts.mapIdx fun i t => ({ toTask := t, index := i } : PlanTask φ)).map PlanTask.toTask =
          ts ∧
        (ts.mapIdx fun i t => ({ toTask := t, index := i } : PlanTask φ)).map PlanTask.index =
          List.range ts.length := by
      intro ts
      constructor <;> apply List.ext_getElem <;> simp
    refine ⟨?_, (hmap _).1, ?_⟩
    · rw [List.length_mapIdx]
      omega
    · simpa using (hmap _).2

/-- A plan that is built asks for two to eight different calls, none made before in the turn. When
the planner gave its tasks distinct ids, every run of the plan is closed within three waves, each
task is sent in the wave `_plan_wave_depths` foresaw, and the tasks never sent are those without
a depth and those that wait for a task that names itself. -/
theorem execution_plan_runs (cfg : Planner φ) (rawTasks : Option (List (JsonValue φ)))
    (plan : List (PlanTask φ)) (notes : List Text)
    (hbuild : buildExecutionPlan cfg rawTasks = some (.plan plan notes)) :
    2 ≤ plan.length ∧ plan.length ≤ maxPlanTasks ∧
    plan.map (·.index) = List.range plan.length ∧
    (plan.map fun t => t.toTask.digest cfg).Nodup ∧
    (∀ t ∈ plan, t.toTask.digest cfg ∉ cfg.priorDigests) ∧
    ((∀ expanded, expandTasks cfg (rawTasks.getD []) = some expanded →
        (expanded.map (·.id)).Nodup) →
      ∀ s : AgentState φ, s.taskPlan = plan → (∀ r ∈ s.taskResults, r.runId ≠ s.runId) →
      ∀ as : List (Answers φ),
        Runs.Along (Plan.step cfg.toWaveConfig) Answered ⟨.dispatchTasks, s⟩ as →
        (2 * maxPlanWaves ≤ as.length →
          (Runs.run (Plan.step cfg.toWaveConfig) ⟨.dispatchTasks, s⟩ as).node ∈
            [.generateResponse, .reflect]) ∧
        (∀ (i : ℕ) (answers : Answers φ), as[i]? = some answers → ∀ a ∈ answers,
          i < 2 * maxPlanWaves ∧
            planWaveDepths (plan.map PlanTask.toTask) a.1.id = some (i / 2)) ∧
        ((Runs.run (Plan.step cfg.toWaveConfig) ⟨.dispatchTasks, s⟩ as).node ∈
            [.generateResponse, .reflect] →
          ∀ t ∈ plan, (∃ o, (t, o) ∈ as.flatten) ↔
            (planWaveDepths (plan.map PlanTask.toTask) t.id).isSome ∧
              Waves.Proper (fun t : PlanTask φ => t.id) (fun t => t.dependsOn) plan t)) := by
  obtain ⟨expanded, hexpanded, htwo, htasks, hindex⟩ := buildExecutionPlan_eq_plan hbuild
  have hnew : Fresh cfg (expanded.foldl (resolveStep cfg) ⟨[], [], [], []⟩) :=
    fresh_foldl expanded ⟨rfl, List.nodup_nil, by simp⟩
  have hlen := length_clampPlan_le (expanded.foldl (resolveStep cfg) ⟨[], [], [], []⟩).tasks
  have hdigests := digests_clampPlan cfg
    (expanded.foldl (resolveStep cfg) ⟨[], [], [], []⟩).tasks
  rw [← htasks, List.map_map] at hdigests
  rw [← htasks, List.length_map] at hlen
  refine ⟨htwo, hlen, hindex, hnew.distinct.sublist hdigests, fun t ht => ?_, ?_⟩
  · have hmem := hdigests.subset (List.mem_map_of_mem (f := Task.digest cfg ∘ PlanTask.toTask) ht)
    obtain ⟨u, hu, hut⟩ := List.mem_map.1 hmem
    rw [show t.toTask.digest cfg = u.digest cfg from hut.symm]
    exact hnew.prior u hu
  · intro hdistinct s hplan hfresh as has
    have hids : ((expanded.foldl (resolveStep cfg) ⟨[], [], [], []⟩).tasks.map Task.id).Nodup :=
      (hdistinct expanded hexpanded).sublist (by simpa using ids_foldl cfg expanded ⟨[], [], [], []⟩)
    have hplanIds : (s.taskPlan.map (·.id)).Nodup := by
      have := ids_clampPlan hids
      rwa [← htasks, List.map_map, ← hplan] at this
    have hchannel : Channel s s.taskResults [] := ⟨by simp, hfresh, by simp⟩
    have hnone : completedTaskIds s = ∅ := by
      rw [hchannel.completed]
      rfl
    have hwave : ∀ {t : PlanTask φ}, t ∈ plan → ∀ k, t ∈ waveOf s k ↔
        planWaveDepths (plan.map PlanTask.toTask) t.id = some k ∧
          Waves.Proper (fun t : PlanTask φ => t.id) (fun t => t.dependsOn) plan t := by
      intro t ht k
      rw [← hplan] at ht ⊢
      exact mem_waveOf_iff hplanIds hnone ht
    have hlast : waveOf s maxPlanWaves = [] := waveOf_clamped hids (by rw [hplan, htasks]) hnone
    have hsize : ([] : List (TaskResult φ)).length + s.taskPlan.length ≤ 100 := by
      rw [hplan]
      simp only [List.length_nil, maxPlanTasks] at hlen ⊢
      omega
    obtain ⟨hphase, hsent⟩ := Phase.run hchannel hsize as has
    refine ⟨fun htime => ?_, fun i answers hi a ha => ?_, fun hnode t ht => ?_⟩
    · exact hphase.closed hlast (by simp only [maxPlanWaves] at htime; omega) htime
    · obtain ⟨k, rfl, hk⟩ := exists_waveOf ((hsent i answers hi).subset (List.mem_map_of_mem ha))
      have hmem : a.1 ∈ plan := by
        rw [← hplan]
        exact (Waves.mem_wave.1 hk).1
      have hlt : k < maxPlanWaves := by
        by_contra hge
        rw [waveOf, Waves.wave_of_wave_nil hlast (by omega)] at hk
        cases hk
      refine ⟨by omega, ?_⟩
      rw [Nat.mul_div_cancel_left k two_pos]
      exact ((hwave hmem k).1 hk).1
    · obtain ⟨k, s', progress, last, -⟩ := hphase.of_closed hnode
      rw [mem_sent_iff progress last, Option.isSome_iff_exists]
      simp only [hwave ht, exists_and_right]

end Built

/-! ### A plan of two tasks -/

/-- A planner that tells calls apart by the tool. -/
def plainPlanner : Planner NonFinite where
  toWaveConfig := { plainConfig with
    str := fun v => match v with | .str s => s | v => v.dumps .default }
  lower := id
  planWebSearches _ := []
  buildToolParams tool query := ⟨tool, some [("query", .str query)], []⟩
  currentMessage := "is it safe, and will it rain?"
  priorDigests := []
  clarificationHeader := []

/-- The safety of the place, and then the weather. -/
def twoRawTasks : List (JsonValue NonFinite) :=
  [.obj [("id", .str "a"), ("tool", .str "check_safety")],
    .obj [("id", .str "b"), ("tool", .str "get_weather"), ("depends_on", .arr [.str "a"])]]

def twoTasks : List (PlanTask NonFinite) :=
  [⟨⟨"a", "check_safety", [("query", .str "is it safe, and will it rain?")], []⟩, 0⟩,
    ⟨⟨"b", "get_weather", [("query", .str "is it safe, and will it rain?")], ["a"]⟩, 1⟩]

def twoTaskAnswers : List (Answers NonFinite) :=
  (twoTasks.map fun t => [[(t, Outcome.success .null)], []]).flatten

/-- Both tasks are sent, the second after the first. -/
theorem two_tasks_run :
    buildExecutionPlan plainPlanner (some twoRawTasks) = some (.plan twoTasks []) ∧
    (∀ (i : ℕ) (answers : Answers NonFinite), twoTaskAnswers[i]? = some answers →
      ∀ a ∈ answers, i < 2 * maxPlanWaves ∧
        planWaveDepths (twoTasks.map PlanTask.toTask) a.1.id = some (i / 2)) ∧
    ∀ t ∈ twoTasks, (∃ o, (t, o) ∈ twoTaskAnswers.flatten) ↔
      (planWaveDepths (twoTasks.map PlanTask.toTask) t.id).isSome ∧
        Waves.Proper (fun t : PlanTask NonFinite => t.id) (fun t => t.dependsOn) twoTasks t := by
  have hbuild : buildExecutionPlan plainPlanner (some twoRawTasks) =
      some (.plan twoTasks []) := rfl
  obtain ⟨-, -, -, -, -, hruns⟩ := execution_plan_runs plainPlanner (some twoRawTasks) twoTasks []
    hbuild
  have hdistinct : ∀ expanded, expandTasks plainPlanner twoRawTasks = some expanded →
      (expanded.map (·.id)).Nodup := by
    intro expanded h
    have : expanded.map (·.id) = [Text.ofString "a", Text.ofString "b"] := by
      cases h
      rfl
    rw [this]
    decide
  obtain ⟨-, hwaves, hsent⟩ := hruns hdistinct
    { threeTaskState with taskPlan := twoTasks } rfl (by simp [threeTaskState, earlierResult])
    twoTaskAnswers
    ⟨answered_of_send rfl rfl (.refl _), answered_nil (by decide),
      answered_of_send rfl rfl (.refl _), answered_nil (by decide), trivial⟩
  exact ⟨hbuild, hwaves, hsent (by decide)⟩

end RentCompass.Agent.Plan
