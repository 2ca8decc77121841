import RentCompass.Runs
import Mathlib.Order.Nat
import Mathlib.Tactic.SplitIfs

/-!
# The pool of graph runners

Graphs run on event loops of their own, at most two of them. A turn that overruns its deadline
quarantines its loop, which takes no work until a heartbeat queued behind the stuck work has run,
and turns go to the other loop meanwhile. A lock is held for one part of this at a time, so the
parts of several turns and callbacks interleave.
-/

namespace RentCompass.Agent.Runners

/-- A compiled graph, with the runner that its attribute names. -/
structure Graph where
  build : ℕ
  runner : ℕ
  deriving DecidableEq

/-- `GraphLoopRunner` -/
structure Runner where
  quarantined : Bool
  graph : Option Graph
  deriving DecidableEq

/-- `_GRAPH_RUNNER_CAPACITY` -/
def capacity : ℕ := 2

/-- The module's globals, what is queued, and what was done. -/
structure Pool where
  /-- `_graph_loop_runners`; a runner is known by its place. -/
  runners : List Runner
  /-- `_graph_loop_runner` -/
  active : Option ℕ
  /-- `agent_graph` -/
  agentGraph : Option Graph
  heartbeats : List ℕ
  /-- Turns that have quarantined their runner and wait for the locks of the pool. -/
  rotating : List ℕ
  /-- Callbacks that have lifted a quarantine and wait for the locks of the pool. -/
  recovering : List ℕ
  built : ℕ
  submitted : List Graph
  deriving DecidableEq

namespace Pool

/-- The pool of a process that starts. -/
def start : Pool := ⟨[⟨false, none⟩], some 0, none, [], [], [], 0, []⟩

def quarantined (p : Pool) (r : ℕ) : Bool := p.runners[r]?.any (·.quarantined)

/-- `runner.available()` -/
def available (p : Pool) (r : ℕ) : Bool := p.runners[r]?.any (!·.quarantined)

def setQuarantined (p : Pool) (r : ℕ) (b : Bool) : Pool :=
  { p with runners := p.runners.modify r fun x => { x with quarantined := b } }

/-- `runner.graph` -/
def graphOf (p : Pool) (r : ℕ) : Option Graph := p.runners[r]?.bind (·.graph)

/-- Build a graph for a runner and publish it. -/
def publish (p : Pool) (r : ℕ) : Pool :=
  let g : Graph := ⟨p.built, r⟩
  { p with
    runners := p.runners.modify r fun x => { x with graph := some g }
    agentGraph := some g
    built := p.built + 1 }

/-- `_ensure_agent_runtime`; building a graph may fail. -/
def ensureAgentRuntime (p : Pool) (builds : Bool) : Option Graph × Pool :=
  match p.active with
  | none => (none, p)
  | some r =>
    if p.available r then
      match p.agentGraph.filter (·.runner = r) with
      | some g => (some g, p)
      | none => if builds then ((p.publish r).agentGraph, p.publish r) else (none, p)
    else (none, p)

/-- `runner.submit`, on the runner of the graph. -/
def submit (p : Pool) (g : Graph) : Pool :=
  if p.available g.runner then { p with submitted := p.submitted ++ [g] } else p

/-- `runner.quarantine`, by a turn that timed out. -/
def quarantine (p : Pool) (r : ℕ) : Pool :=
  if p.available r then
    { p.setQuarantined r true with
      heartbeats := p.heartbeats ++ [r]
      rotating := p.rotating ++ [r] }
  else p

/-- The first other runner that is available. -/
def standby (p : Pool) (r : ℕ) : Option ℕ :=
  (List.range p.runners.length).find? fun s => s ≠ r && p.available s

/-- Turn to the standby, to a new runner, or to none. -/
def turnFrom (p : Pool) (r : ℕ) : Pool :=
  match p.standby r with
  | some s => { p with active := some s, agentGraph := p.graphOf s }
  | none =>
    if p.runners.length < capacity then
      { p with
        runners := p.runners ++ [⟨false, none⟩]
        active := some p.runners.length
        agentGraph := none }
    else { p with active := none, agentGraph := none }

/-- `_quarantine_graph_runner`, behind the locks of the pool. -/
def rotate (p : Pool) (r : ℕ) : Pool :=
  if r ∈ p.rotating then
    { (if p.active = some r then p.turnFrom r else p) with rotating := p.rotating.erase r }
  else p

/-- `_recovered`, where the heartbeat ran, up to the callback. -/
def beat (p : Pool) (r : ℕ) (ran : Bool) : Pool :=
  if r ∈ p.heartbeats then
    let p := { p with heartbeats := p.heartbeats.erase r }
    if ran then { p.setQuarantined r false with recovering := p.recovering ++ [r] } else p
  else p

/-- `_on_graph_runner_recovered` -/
def recover (p : Pool) (r : ℕ) : Pool :=
  if r ∈ p.recovering then
    let p := { p with recovering := p.recovering.erase r }
    if p.active = none then { p with active := some r, agentGraph := p.graphOf r } else p
  else p

end Pool

/-- What a turn or a callback may do next. -/
inductive Action where
  | ensure (builds : Bool)
  | submit (g : Graph)
  | quarantine (r : ℕ)
  | rotate (r : ℕ)
  | beat (r : ℕ) (ran : Bool)
  | recover (r : ℕ)
  deriving DecidableEq

def step (p : Pool) : Action → Pool
  | .ensure builds => (p.ensureAgentRuntime builds).2
  | .submit g => p.submit g
  | .quarantine r => p.quarantine r
  | .rotate r => p.rotate r
  | .beat r ran => p.beat r ran
  | .recover r => p.recover r

/-! ### Flags and graphs -/

namespace Pool

variable {p : Pool} {r s : ℕ} {g : Graph}

lemma available_iff : p.available r ↔ r < p.runners.length ∧ p.quarantined r = false := by
  rw [available, quarantined]
  by_cases hr : r < p.runners.length
  · simp [hr]
  · simp [hr]

lemma lt_of_available (h : p.available r) : r < p.runners.length := (available_iff.1 h).1

@[simp] lemma length_setQuarantined (b : Bool) :
    (p.setQuarantined r b).runners.length = p.runners.length := List.length_modify _ _ _

@[simp] lemma graphOf_setQuarantined (b : Bool) :
    (p.setQuarantined r b).graphOf s = p.graphOf s := by
  rw [graphOf, graphOf, setQuarantined, List.getElem?_modify]
  cases p.runners[s]? with
  | none => rfl
  | some x =>
    by_cases hrs : r = s
    · simp [hrs]
    · simp [hrs]

lemma quarantined_setQuarantined_of_ne (hne : s ≠ r) (b : Bool) :
    (p.setQuarantined r b).quarantined s = p.quarantined s := by
  rw [quarantined, quarantined, setQuarantined, List.getElem?_modify]
  simp [hne.symm]

lemma quarantined_setQuarantined (hr : r < p.runners.length) (b : Bool) :
    (p.setQuarantined r b).quarantined r = b := by
  rw [quarantined, setQuarantined, List.getElem?_modify]
  simp [hr]

@[simp] lemma quarantined_publish : (p.publish r).quarantined s = p.quarantined s := by
  rw [quarantined, quarantined, publish, List.getElem?_modify]
  cases p.runners[s]? with
  | none => rfl
  | some x =>
    by_cases hrs : r = s
    · simp [hrs]
    · simp [hrs]

@[simp] lemma length_publish : (p.publish r).runners.length = p.runners.length :=
  List.length_modify _ _ _

lemma graphOf_publish (r : ℕ) (h : (p.publish r).graphOf s = some g) :
    p.graphOf s = some g ∨ g.runner = s := by
  rw [graphOf, publish, List.getElem?_modify] at h
  rw [graphOf]
  cases hx : p.runners[s]? with
  | none =>
    rw [hx] at h
    cases h
  | some x =>
    rw [hx] at h
    by_cases hrs : r = s
    · right
      subst hrs
      simp only [Option.map_eq_map, Option.map_some, if_pos, Option.bind_some,
        Option.some.injEq] at h
      rw [← h]
    · left
      simpa [hrs] using h

lemma standby_eq_some (h : p.standby r = some s) : s ≠ r ∧ p.available s := by
  simpa using List.find?_some h

lemma standby_eq_none (h : p.standby r = none) (hs : s < p.runners.length) (hne : s ≠ r) :
    p.quarantined s := by
  rw [standby, List.find?_eq_none] at h
  have hnot := h s (List.mem_range.2 hs)
  by_contra hq
  rw [Bool.not_eq_true] at hq
  simp [hne, available_iff, hs, hq] at hnot

lemma getElem?_append_new {x : Runner} (h : (p.runners ++ [⟨false, none⟩])[s]? = some x) :
    p.runners[s]? = some x ∨ x = ⟨false, none⟩ := by
  rw [List.getElem?_append] at h
  split_ifs at h
  · exact Or.inl h
  · exact Or.inr (List.mem_singleton.1 (List.mem_of_getElem? h))

lemma graphOf_append (h : ({ p with runners := p.runners ++ [⟨false, none⟩] } : Pool).graphOf s =
    some g) : p.graphOf s = some g := by
  obtain ⟨x, hx, hgraph⟩ := Option.bind_eq_some_iff.1 h
  rcases getElem?_append_new hx with hx | rfl
  · rw [graphOf, hx]
    exact hgraph
  · cases hgraph

/-! ### What each part can do -/

lemma ensureAgentRuntime_cases (p : Pool) (builds : Bool) :
    (p.ensureAgentRuntime builds = (none, p) ∧
      ((∀ r, p.active = some r → ¬ p.available r) ∨ builds = false)) ∨
    (∃ g, p.active = some g.runner ∧ p.available g.runner ∧
      p.ensureAgentRuntime builds = (some g, p)) ∨
    ∃ r, p.active = some r ∧ p.available r ∧
      p.ensureAgentRuntime builds = (some ⟨p.built, r⟩, p.publish r) := by
  rw [ensureAgentRuntime]
  cases hactive : p.active with
  | none => exact Or.inl ⟨rfl, Or.inl fun r h => nomatch h⟩
  | some r =>
    by_cases havailable : p.available r
    · simp only [havailable, if_true]
      cases hgraph : p.agentGraph.filter (·.runner = r) with
      | some g =>
        obtain ⟨-, hrunner⟩ := Option.filter_eq_some_iff.1 hgraph
        obtain rfl := of_decide_eq_true hrunner
        exact Or.inr (Or.inl ⟨g, rfl, havailable, rfl⟩)
      | none =>
        cases builds with
        | true => exact Or.inr (Or.inr ⟨r, rfl, havailable, rfl⟩)
        | false => exact Or.inl ⟨rfl, Or.inr rfl⟩
    · simp only [havailable]
      refine Or.inl ⟨rfl, Or.inl fun s hs => ?_⟩
      rwa [← Option.some.inj hs]

lemma turnFrom_cases (p : Pool) (r : ℕ) :
    (∃ s, p.standby r = some s ∧
      p.turnFrom r = { p with active := some s, agentGraph := p.graphOf s }) ∨
    (p.runners.length < capacity ∧ p.turnFrom r = { p with
      runners := p.runners ++ [⟨false, none⟩]
      active := some p.runners.length
      agentGraph := none }) ∨
    (p.standby r = none ∧ capacity ≤ p.runners.length ∧
      p.turnFrom r = { p with active := none, agentGraph := none }) := by
  rw [turnFrom]
  cases p.standby r with
  | some s => exact Or.inl ⟨s, rfl, rfl⟩
  | none =>
    right
    by_cases hlt : p.runners.length < capacity
    · exact Or.inl ⟨hlt, if_pos hlt⟩
    · exact Or.inr ⟨rfl, Nat.le_of_not_lt hlt, if_neg hlt⟩

lemma beat_cases (p : Pool) (r : ℕ) (ran : Bool) : p.beat r ran = p ∨
    (r ∈ p.heartbeats ∧ ran = false ∧
      p.beat r ran = { p with heartbeats := p.heartbeats.erase r }) ∨
    (r ∈ p.heartbeats ∧ ran = true ∧
      p.beat r ran = { p.setQuarantined r false with
        heartbeats := p.heartbeats.erase r
        recovering := p.recovering ++ [r] }) := by
  rw [beat]
  by_cases hmem : r ∈ p.heartbeats
  · right
    rw [if_pos hmem]
    cases ran with
    | false => exact Or.inl ⟨hmem, rfl, rfl⟩
    | true => exact Or.inr ⟨hmem, rfl, rfl⟩
  · left
    rw [if_neg hmem]

lemma recover_cases (p : Pool) (r : ℕ) : p.recover r = p ∨
    (r ∈ p.recovering ∧ p.active ≠ none ∧
      p.recover r = { p with recovering := p.recovering.erase r }) ∨
    (r ∈ p.recovering ∧ p.active = none ∧
      p.recover r = { p with
        recovering := p.recovering.erase r
        active := some r
        agentGraph := p.graphOf r }) := by
  rw [recover]
  by_cases hmem : r ∈ p.recovering
  · right
    rw [if_pos hmem]
    by_cases hactive : p.active = none
    · exact Or.inr ⟨hmem, hactive, if_pos hactive⟩
    · exact Or.inl ⟨hmem, hactive, if_neg hactive⟩
  · left
    rw [if_neg hmem]

end Pool

/-! ### What holds between the parts -/

namespace Pool

structure Sound (p : Pool) : Prop where
  pos : 0 < p.runners.length
  size : p.runners.length ≤ capacity
  active : ∀ r, p.active = some r → r < p.runners.length
  heartbeats : ∀ r ∈ p.heartbeats, r < p.runners.length
  recovering : ∀ r ∈ p.recovering, r < p.runners.length
  bound : ∀ r g, p.graphOf r = some g → g.runner = r
  published : ∀ g, p.agentGraph = some g → p.active = some g.runner
  /-- Nothing serves only while something is to come back. -/
  waiting : p.active = none → (∃ r, p.quarantined r) ∨ p.recovering ≠ []

variable {p : Pool}

lemma sound_start : start.Sound where
  pos := Nat.one_pos
  size := by decide
  active := by
    rintro r h
    obtain rfl := Option.some.inj h
    exact Nat.one_pos
  heartbeats := List.forall_mem_nil _
  recovering := List.forall_mem_nil _
  bound := by
    rintro r g h
    cases r with
    | zero => cases h
    | succ r => cases h
  published := by
    rintro g h
    cases h
  waiting := by
    rintro h
    cases h

lemma Sound.publish (h : p.Sound) {r : ℕ} (hr : p.active = some r) : (p.publish r).Sound where
  pos := by
    rw [length_publish]
    exact h.pos
  size := by
    rw [length_publish]
    exact h.size
  active s hs := by
    rw [length_publish]
    exact h.active s hs
  heartbeats s hs := by
    rw [length_publish]
    exact h.heartbeats s hs
  recovering s hs := by
    rw [length_publish]
    exact h.recovering s hs
  bound s g hg := by
    rcases graphOf_publish r hg with hg | hg
    · exact h.bound s g hg
    · exact hg
  published g hg := by
    obtain rfl := Option.some.inj hg
    exact hr
  waiting hnone := by
    rw [show (p.publish r).active = some r from hr] at hnone
    cases hnone

lemma Sound.ensure (h : p.Sound) (builds : Bool) : (p.ensureAgentRuntime builds).2.Sound := by
  rcases ensureAgentRuntime_cases p builds with ⟨heq, -⟩ | ⟨g, -, -, heq⟩ | ⟨r, hr, -, heq⟩ <;>
    rw [heq]
  · exact h
  · exact h
  · exact h.publish hr

lemma Sound.submit (h : p.Sound) (g : Graph) : (p.submit g).Sound := by
  rw [Pool.submit]
  split_ifs
  · exact ⟨h.pos, h.size, h.active, h.heartbeats, h.recovering, h.bound, h.published, h.waiting⟩
  · exact h

lemma Sound.quarantine (h : p.Sound) (r : ℕ) : (p.quarantine r).Sound := by
  rw [Pool.quarantine]
  split_ifs with havailable
  · have hr := lt_of_available havailable
    have hlen : (p.setQuarantined r true).runners.length = p.runners.length :=
      length_setQuarantined true
    refine ⟨hlen ▸ h.pos, hlen ▸ h.size, fun s hs => hlen ▸ h.active s hs, fun s hs => ?_,
      fun s hs => hlen ▸ h.recovering s hs, fun s g hg => ?_, h.published,
      fun _ => Or.inl ⟨r, quarantined_setQuarantined hr true⟩⟩
    · rcases List.mem_append.1 hs with hs | hs
      · exact hlen ▸ h.heartbeats s hs
      · rw [List.mem_singleton.1 hs]
        exact hlen ▸ hr
    · exact h.bound s g ((graphOf_setQuarantined true).symm.trans hg)
  · exact h

/-- Another runner serves, or none where all others are quarantined. -/
lemma Sound.turnFrom (h : p.Sound) (r : ℕ) : (p.turnFrom r).Sound := by
  rcases turnFrom_cases p r with ⟨s, hs, heq⟩ | ⟨hlt, heq⟩ | ⟨hnone, hle, heq⟩ <;> rw [heq]
  · refine ⟨h.pos, h.size, ?_, h.heartbeats, h.recovering, h.bound, ?_, ?_⟩
    · rintro s' hs'
      obtain rfl := Option.some.inj hs'
      exact lt_of_available (standby_eq_some hs).2
    · intro g hg
      rw [h.bound s g hg]
    · rintro ⟨⟩
  · have hlen : (p.runners ++ [(⟨false, none⟩ : Runner)]).length = p.runners.length + 1 :=
      List.length_append
    refine ⟨?_, ?_, ?_, ?_, ?_, ?_, ?_, ?_⟩
    · exact hlen ▸ Nat.succ_pos _
    · exact hlen ▸ hlt
    · rintro s hs
      obtain rfl := Option.some.inj hs
      exact hlen ▸ Nat.lt_succ_self _
    · exact fun s hs => hlen ▸ (h.heartbeats s hs).trans (Nat.lt_succ_self _)
    · exact fun s hs => hlen ▸ (h.recovering s hs).trans (Nat.lt_succ_self _)
    · exact fun s g hg => h.bound s g (graphOf_append hg)
    · rintro g ⟨⟩
    · rintro ⟨⟩
  · refine ⟨h.pos, h.size, ?_, h.heartbeats, h.recovering, h.bound, ?_, fun _ => Or.inl ?_⟩
    · rintro s ⟨⟩
    · rintro g ⟨⟩
    · -- the pool is full, so there is another runner
      obtain ⟨s, hs, hne⟩ : ∃ s < p.runners.length, s ≠ r := by
        rw [capacity] at hle
        by_cases hzero : r = 0
        · exact ⟨1, hle, by rw [hzero]; exact Nat.one_ne_zero⟩
        · exact ⟨0, h.pos, fun heq => hzero heq.symm⟩
      exact ⟨s, standby_eq_none hnone hs hne⟩

lemma Sound.rotate (h : p.Sound) (r : ℕ) : (p.rotate r).Sound := by
  rw [Pool.rotate]
  split_ifs
  · obtain ⟨hpos, hsize, ha, hb, hr, hg, hp, hw⟩ := h.turnFrom r
    exact ⟨hpos, hsize, ha, hb, hr, hg, hp, hw⟩
  · exact ⟨h.pos, h.size, h.active, h.heartbeats, h.recovering, h.bound, h.published, h.waiting⟩
  · exact h

lemma Sound.beat (h : p.Sound) (r : ℕ) (ran : Bool) : (p.beat r ran).Sound := by
  rcases beat_cases p r ran with heq | ⟨-, -, heq⟩ | ⟨hmem, -, heq⟩ <;> rw [heq]
  · exact h
  · exact ⟨h.pos, h.size, h.active, fun s hs => h.heartbeats s (List.mem_of_mem_erase hs),
      h.recovering, h.bound, h.published, h.waiting⟩
  · have hlen : (p.setQuarantined r false).runners.length = p.runners.length :=
      length_setQuarantined false
    refine ⟨hlen ▸ h.pos, hlen ▸ h.size, fun s hs => hlen ▸ h.active s hs,
      fun s hs => hlen ▸ h.heartbeats s (List.mem_of_mem_erase hs), fun s hs => ?_,
      fun s g hg => ?_, h.published, fun _ => Or.inr ?_⟩
    · rcases List.mem_append.1 hs with hs | hs
      · exact hlen ▸ h.recovering s hs
      · rw [List.mem_singleton.1 hs]
        exact hlen ▸ h.heartbeats r hmem
    · exact h.bound s g ((graphOf_setQuarantined false).symm.trans hg)
    · exact List.append_ne_nil_of_right_ne_nil _ (List.cons_ne_nil _ _)

lemma Sound.recover (h : p.Sound) (r : ℕ) : (p.recover r).Sound := by
  rcases recover_cases p r with heq | ⟨-, hactive, heq⟩ | ⟨hmem, -, heq⟩ <;> rw [heq]
  · exact h
  · exact ⟨h.pos, h.size, h.active, h.heartbeats,
      fun s hs => h.recovering s (List.mem_of_mem_erase hs), h.bound, h.published,
      fun hnone => absurd hnone hactive⟩
  · refine ⟨h.pos, h.size, ?_, h.heartbeats,
      fun s hs => h.recovering s (List.mem_of_mem_erase hs), h.bound, ?_, ?_⟩
    · rintro s hs
      obtain rfl := Option.some.inj hs
      exact h.recovering r hmem
    · intro g hg
      rw [h.bound r g hg]
    · rintro ⟨⟩

lemma Sound.step (h : p.Sound) (a : Action) : (Runners.step p a).Sound := by
  cases a with
  | ensure builds => exact h.ensure builds
  | submit g => exact h.submit g
  | quarantine r => exact h.quarantine r
  | rotate r => exact h.rotate r
  | beat r ran => exact h.beat r ran
  | recover r => exact h.recover r

/-! ### Quarantines -/

variable {r s : ℕ}

lemma quarantined_append : ({ p with runners := p.runners ++ [⟨false, none⟩] } :
    Pool).quarantined s = p.quarantined s := by
  rw [quarantined, quarantined, List.getElem?_append]
  split_ifs with hs
  · rfl
  · rw [List.getElem?_eq_none (Nat.le_of_not_lt hs)]
    cases s - p.runners.length with
    | zero => rfl
    | succ k => rfl

@[simp] lemma quarantined_turnFrom : (p.turnFrom r).quarantined s = p.quarantined s := by
  rcases turnFrom_cases p r with ⟨t, -, heq⟩ | ⟨-, heq⟩ | ⟨-, -, heq⟩ <;> rw [heq]
  · rfl
  · exact quarantined_append
  · rfl

@[simp] lemma quarantined_rotate : (p.rotate r).quarantined s = p.quarantined s := by
  rw [rotate]
  split_ifs
  · exact quarantined_turnFrom
  · rfl
  · rfl

lemma turnFrom_queues (p : Pool) (r : ℕ) : (p.turnFrom r).heartbeats = p.heartbeats ∧
    (p.turnFrom r).submitted = p.submitted := by
  rcases turnFrom_cases p r with ⟨t, -, heq⟩ | ⟨-, heq⟩ | ⟨-, -, heq⟩ <;> rw [heq] <;>
    exact ⟨rfl, rfl⟩

lemma rotate_queues (p : Pool) (r : ℕ) : (p.rotate r).heartbeats = p.heartbeats ∧
    (p.rotate r).submitted = p.submitted := by
  rw [rotate]
  split_ifs
  · exact turnFrom_queues p r
  · exact ⟨rfl, rfl⟩
  · exact ⟨rfl, rfl⟩

/-- Every quarantine has its heartbeat queued. -/
def Beating (p : Pool) : Prop := ∀ r, p.quarantined r → r ∈ p.heartbeats

lemma beating_start : start.Beating := by
  intro r hr
  cases r with
  | zero => cases hr
  | succ r => cases hr

lemma Beating.step (h : p.Beating) (hsound : p.Sound) {a : Action}
    (ha : ∀ r, a ≠ .beat r false) : (Runners.step p a).Beating := by
  cases a with
  | ensure builds =>
    simp only [Runners.step]
    rcases ensureAgentRuntime_cases p builds with ⟨heq, -⟩ | ⟨g, -, -, heq⟩ | ⟨r, -, -, heq⟩ <;>
      rw [heq]
    · exact h
    · exact h
    · exact fun s hs => h s (quarantined_publish ▸ hs)
  | submit g =>
    simp only [Runners.step, submit]
    split_ifs <;> exact h
  | quarantine r =>
    simp only [Runners.step, quarantine]
    split_ifs
    · intro s hs
      by_cases hsr : s = r
      · exact List.mem_append_right _ (List.mem_singleton.2 hsr)
      · exact List.mem_append_left _ (h s ((quarantined_setQuarantined_of_ne hsr true) ▸ hs))
    · exact h
  | rotate r =>
    intro s hs
    rw [Runners.step, (rotate_queues p r).1]
    exact h s (quarantined_rotate ▸ hs)
  | beat r ran =>
    simp only [Runners.step]
    rcases beat_cases p r ran with heq | ⟨-, rfl, -⟩ | ⟨hmem, -, heq⟩
    · rw [heq]
      exact h
    · exact absurd rfl (ha r)
    · rw [heq]
      intro s hs
      have hsr : s ≠ r := by
        rintro rfl
        have hlifted := quarantined_setQuarantined (hsound.heartbeats s hmem) false
        exact Bool.false_ne_true (hlifted.symm.trans hs)
      rw [List.mem_erase_of_ne hsr]
      exact h s ((quarantined_setQuarantined_of_ne hsr false) ▸ hs)
  | recover r =>
    simp only [Runners.step]
    rcases recover_cases p r with heq | ⟨-, -, heq⟩ | ⟨-, -, heq⟩ <;> rw [heq] <;> exact h

/-- A quarantined runner takes no work, and stays quarantined until its heartbeat ran. -/
lemma step_of_quarantined (h : p.quarantined r) {a : Action} (ha : a ≠ .beat r true) :
    (Runners.step p a).quarantined r ∧
      (Runners.step p a).submitted.filter (·.runner = r) =
        p.submitted.filter (·.runner = r) := by
  cases a with
  | ensure builds =>
    simp only [Runners.step]
    rcases ensureAgentRuntime_cases p builds with ⟨heq, -⟩ | ⟨g, -, -, heq⟩ | ⟨s, -, -, heq⟩ <;>
      rw [heq]
    · exact ⟨h, rfl⟩
    · exact ⟨h, rfl⟩
    · exact ⟨quarantined_publish.trans h, rfl⟩
  | submit g =>
    simp only [Runners.step, submit]
    split_ifs with havailable
    · refine ⟨h, ?_⟩
      have hne : g.runner ≠ r := by
        rintro rfl
        rw [(available_iff.1 havailable).2] at h
        cases h
      simp [hne]
    · exact ⟨h, rfl⟩
  | quarantine s =>
    simp only [Runners.step, quarantine]
    split_ifs with havailable
    · refine ⟨?_, rfl⟩
      by_cases hrs : r = s
      · rw [hrs]
        exact quarantined_setQuarantined (lt_of_available havailable) true
      · exact (quarantined_setQuarantined_of_ne hrs true).trans h
    · exact ⟨h, rfl⟩
  | rotate s =>
    rw [Runners.step, (rotate_queues p s).2]
    exact ⟨quarantined_rotate.trans h, rfl⟩
  | beat s ran =>
    simp only [Runners.step]
    rcases beat_cases p s ran with heq | ⟨-, -, heq⟩ | ⟨-, rfl, heq⟩ <;> rw [heq]
    · exact ⟨h, rfl⟩
    · exact ⟨h, rfl⟩
    · have hrs : r ≠ s := fun heq => ha (by rw [heq])
      exact ⟨(quarantined_setQuarantined_of_ne hrs false).trans h, rfl⟩
  | recover s =>
    simp only [Runners.step]
    rcases recover_cases p s with heq | ⟨-, -, heq⟩ | ⟨-, -, heq⟩ <;> rw [heq] <;> exact ⟨h, rfl⟩

/-- Until its heartbeat has run, nothing is put on the loop of a quarantined runner. -/
lemma run_of_quarantined (h : p.quarantined r) {between : List Action}
    (hbetween : Action.beat r true ∉ between) :
    (Runs.run step p between).quarantined r ∧
      (Runs.run step p between).submitted.filter (·.runner = r) =
        p.submitted.filter (·.runner = r) := by
  refine Runs.run_preserves_along (C := fun _ a => a ≠ Action.beat r true)
    (I := fun q : Pool => q.quarantined r ∧
      q.submitted.filter (·.runner = r) = p.submitted.filter (·.runner = r))
    (fun q a hq ha => ?_) ⟨h, rfl⟩
    (Runs.along_of_forall _ _ fun a ha heq => hbetween (heq ▸ ha))
  obtain ⟨hkept, hsame⟩ := step_of_quarantined hq.1 ha
  exact ⟨hkept, hsame.trans hq.2⟩

lemma beating_run {actions : List Action} (hran : ∀ r, Action.beat r false ∉ actions) :
    (Runs.run step .start actions).Sound ∧ (Runs.run step .start actions).Beating :=
  Runs.run_preserves_along (C := fun _ a => ∀ r, a ≠ Action.beat r false)
    (I := fun q : Pool => q.Sound ∧ q.Beating)
    (fun _ a h ha => ⟨h.1.step a, h.2.step h.1 ha⟩) ⟨sound_start, beating_start⟩
    (Runs.along_of_forall _ _ fun _ ha r heq => hran r (heq ▸ ha))

/-- A turn is given a graph of the runner in service. -/
lemma ensureAgentRuntime_eq_some {builds : Bool} {g : Graph}
    (hg : (p.ensureAgentRuntime builds).1 = some g) :
    p.active = some g.runner ∧ p.available g.runner := by
  rcases ensureAgentRuntime_cases p builds with ⟨heq, -⟩ | ⟨g', hactive, hav, heq⟩ |
    ⟨r, hactive, hav, heq⟩
  · rw [heq] at hg
    cases hg
  · rw [heq] at hg
    obtain rfl := Option.some.inj hg
    exact ⟨hactive, hav⟩
  · rw [heq] at hg
    obtain rfl := Option.some.inj hg
    exact ⟨hactive, hav⟩

/-- A turn that is refused, though graphs can be built, waits for a heartbeat or for its callback. -/
lemma Sound.refused (h : p.Sound) (hnone : (p.ensureAgentRuntime true).1 = none) :
    (∃ r, p.quarantined r) ∨ p.recovering ≠ [] := by
  rcases ensureAgentRuntime_cases p true with ⟨-, hrefused⟩ | ⟨g, -, -, heq⟩ | ⟨r, -, -, heq⟩
  · rcases hrefused with hrefused | ⟨⟨⟩⟩
    cases hactive : p.active with
    | none => exact h.waiting hactive
    | some r =>
      left
      have hnot := hrefused r hactive
      rw [available_iff, not_and, Bool.not_eq_false] at hnot
      exact ⟨r, hnot (h.active r hactive)⟩
  · rw [heq] at hnone
    cases hnone
  · rw [heq] at hnone
    cases hnone

end Pool

/-- The runner in service may be healthy again before the turn that quarantined it has the locks:
its callback finds it in service, the turn takes it out, and nothing brings it back. -/
example :
    let p := Runs.run step .start [.ensure true, .quarantine 0, .rotate 0, .quarantine 1,
      .beat 1 true, .recover 1, .rotate 1]
    p.active = none ∧ p.available 1 ∧ p.recovering = [] ∧ p.heartbeats = [0] := by
  decide

end RentCompass.Agent.Runners
