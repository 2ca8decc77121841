import RentCompass.Agent.BatchPlan
import RentCompass.Runs

/-!
# Untrusted content and memory writes

A write is sent out in a batch only past the memory gate, and then either because the user asked
for what it saves, or because nothing untrusted can have caused it.
-/

namespace RentCompass.Agent

variable {φ : Type} [FloatFormat φ] {cfg : Settings φ}

/-- A write that passes the gate is authorized, or the model's own in a turn without taint. -/
lemma writeMode_run {env : Surroundings φ} {tainted : Bool} {name : Text}
    {args : Dict (JsonValue φ)}
    (h : (writeMode cfg env tainted name args).isRun) :
    ∃ gate, env.gate = some gate ∧
      (gate.writeAuthorization env.message (writeContent cfg args) ∨
        tainted = false ∧ env.memoryPaused = false ∧
          gate.isPureRecallQuestion env.message = false) := by
  unfold writeMode at h
  cases hgate : env.gate with
  | none => simp [hgate, Mode.isRun] at h
  | some gate =>
    refine ⟨gate, rfl, ?_⟩
    simp only [hgate] at h
    by_cases hauth : gate.writeAuthorization env.message (writeContent cfg args)
    · exact .inl hauth
    · right
      simp only [Bool.not_eq_true] at hauth
      have hallowed : memoryWriteAllowed tainted false = !tainted := by cases tainted <;> rfl
      simp only [hauth, Bool.not_false, Bool.true_and, hallowed] at h
      split_ifs at h with hrecall hpaused htaint
      · cases h
      · cases h
      · exact ⟨by simpa using htaint, by simpa using hpaused, by simpa using hrecall⟩
      · cases h

/-- What the model was shown of untrusted tools taints the turn. -/
def Log.TaintSound (l : Log φ) : Prop :=
  ∀ p ∈ l.rendered, taintOf p.1 p.2 → l.turn.contextTainted

lemma Batch.tainted_of_rendered {b : Batch φ} {s : Turn φ} {p : Text × JsonValue φ}
    (hp : p ∈ b.rendered cfg s) (htaint : taintOf p.1 p.2) :
    (executeTools cfg b s).contextTainted := by
  obtain ⟨q, hq, rfl⟩ := List.mem_map.1 hp
  have hwrote : q.2.2.tainted := by
    obtain ⟨e, he, hqe⟩ := List.mem_map.1 hq
    subst hqe
    exact (written_wrote cfg b.env b.out s.loopTurn e.1 e.2).tainted htaint
  have hany : (b.written cfg s).any (·.2.2.tainted) = true := List.any_eq_true.2 ⟨q, hq, hwrote⟩
  simp [executeTools, hany]

lemma Log.tainted_step (l : Log φ) (node : Node φ) (h : l.turn.contextTainted) :
    (l.step cfg node).turn.contextTainted := by
  cases node with
  | agent messages plain question => exact h
  | refine => rfl
  | tools b => simp [Log.step, executeTools, h]

lemma Log.TaintSound.step {l : Log φ} (h : l.TaintSound) (node : Node φ) :
    (l.step cfg node).TaintSound := by
  intro p hp htaint
  cases node with
  | agent messages plain question => exact h p hp htaint
  | refine => rfl
  | tools b =>
    rcases List.mem_append.1 hp with hp | hp
    · exact l.tainted_step (.tools b) (h p hp htaint)
    · exact b.tainted_of_rendered hp htaint

/-- What allows a write to be sent out. -/
def MayWrite (b : Batch φ) (l : Log φ) (d : Dispatch) : Prop :=
  ∃ gate, b.env.gate = some gate ∧
    (gate.writeAuthorization b.env.message d.content ∨
      (∀ call ∈ (batchOf l.turn.messages).1, call.tool ∉ untrustedTools) ∧
      (∀ p ∈ l.rendered, p.1 ∈ untrustedTools → p.2 = .null) ∧
      b.env.memoryPaused = false ∧ gate.isPureRecallQuestion b.env.message = false)

/-- A call that is sent out is one of the plan, or looks up a commute. -/
lemma Batch.mem_dispatched {b : Batch φ} {s : Turn φ} {d : Dispatch}
    (hd : d ∈ b.dispatched cfg s) :
    (∃ e ∈ b.plan cfg s, e.mode.isRun ∧ d = e.dispatch cfg) ∨
      (d.issued = false ∧ d.tool = Text.ofString "calculate_commute") := by
  rcases List.mem_append.1 hd with hd | hd
  · left
    obtain ⟨e, he, rfl⟩ := List.mem_map.1 hd
    unfold Batch.admitted at he
    split_ifs at he with hbudget
    · exact ⟨e, List.mem_of_mem_filter he, (List.mem_filter.1 he).2, rfl⟩
    · cases he
  · right
    obtain ⟨q, hq, hd⟩ := List.mem_flatMap.1 hd
    obtain ⟨a, ha, rfl⟩ := List.mem_map.1 hd
    obtain ⟨e, he, rfl⟩ := List.mem_map.1 hq
    exact ⟨rfl, (written_wrote cfg b.env b.out s.loopTurn e.1 e.2).evidence a ha⟩

lemma Log.TaintSound.mayWrite {l : Log φ} (h : l.TaintSound) {b : Batch φ} {d : Dispatch}
    (hd : d ∈ b.dispatched cfg l.turn) (hwrite : isWrite b.env.specs d.tool) :
    MayWrite b l d := by
  rcases b.mem_dispatched hd with ⟨e, he, hrun, rfl⟩ | ⟨-, htool⟩
  · have hplan := planBatch_planned cfg b.env l.turn (batchOf l.turn.messages).1
    obtain ⟨gate, hgate, hallowed⟩ := writeMode_run (hplan.gated e he hrun hwrite)
    refine ⟨gate, hgate, hallowed.imp_right ?_⟩
    rintro ⟨htaint, hpaused, hrecall⟩
    simp only [batchTainted, Bool.or_eq_false_iff, List.any_eq_false, decide_eq_true_eq] at htaint
    refine ⟨htaint.2, fun p hp huntrusted => ?_, hpaused, hrecall⟩
    by_contra hne
    have hshown : taintOf p.1 p.2 := by
      cases hdata : p.2 with
      | null => exact absurd hdata hne
      | _ => simp [taintOf, huntrusted]
    have htainted := h p hp hshown
    rw [htaint.1] at htainted
    cases htainted
  · rw [htool, b.env.commuteReads] at hwrite
    cases hwrite

/-- In a turn, a write is sent out only where the memory gate is there, and only if the user
authorized what it saves, or if nothing untrusted is asked for beside it or was shown before, the
memory is not paused, and the message is no pure recall question. The taint of a turn stays. -/
theorem untrusted_content_writes_nothing (cfg : Settings φ) (nodes : List (Node φ)) :
    (∀ (b : Batch φ), ∀ d ∈ b.dispatched cfg (Runs.run (Log.step cfg) Log.start nodes).turn,
      isWrite b.env.specs d.tool → MayWrite b (Runs.run (Log.step cfg) Log.start nodes) d) ∧
    ∀ node, (Runs.run (Log.step cfg) Log.start nodes).turn.contextTainted →
      ((Runs.run (Log.step cfg) Log.start nodes).step cfg node).turn.contextTainted := by
  have hstart : (Log.start : Log φ).TaintSound := by
    intro p hp
    cases hp
  have hsound : (Runs.run (Log.step cfg) Log.start nodes).TaintSound :=
    Runs.run_preserves (fun l node h => h.step node) hstart nodes
  exact ⟨fun b d hd hwrite => hsound.mayWrite hd hwrite, fun node h => Log.tainted_step _ node h⟩

end RentCompass.Agent
