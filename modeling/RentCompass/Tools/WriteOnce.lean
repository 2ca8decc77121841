import RentCompass.Tools.Execution

/-!
# One start for each key

A write tool that is not safe to retry is started at most once under a key, by whichever execution
claimed it; the others are answered from the record.
-/

namespace RentCompass.Tools

open Rows Runs

variable {φ : Type}

/-! ### What one statement may do -/

/-- The execution has ended. -/
def Stage.ended : Stage φ → Bool
  | .returned _ => true
  | .raised => true
  | _ => false

/-- The statements before the claim is won. -/
def Stage.before : Stage φ → Bool
  | .begin => true
  | .lookUp _ => true
  | .claim _ => true
  | .readBack => true
  | _ => false

/-- The statements of the writer up to the start of the callable. -/
def Stage.starting : Stage φ → Bool
  | .attempt _ _ => true
  | .wait _ _ _ => true
  | _ => false

/-- What an execution knows of itself: it holds the claim from the moment it won it, and its
parameters are the validated ones. -/
structure Execution.Sound (e : Execution φ) : Prop where
  before : e.stage.before → e.claimed = false
  writing : e.stage.before = false → e.stage.ended = false → e.claimed = true
  lookUp : ∀ kwargs, e.stage = .lookUp kwargs → e.tool.inputModel e.params = some kwargs
  claim : ∀ kwargs, e.stage = .claim kwargs → e.tool.inputModel e.params = some kwargs

namespace Execution

variable (e : Execution φ)

@[simp] lemma goTo_stage (stage : Stage φ) : (e.goTo stage).stage = stage := rfl

@[simp] lemma goTo_claimed (stage : Stage φ) : (e.goTo stage).claimed = e.claimed := rfl

@[simp] lemma goTo_key (stage : Stage φ) : (e.goTo stage).key = e.key := rfl

@[simp] lemma goTo_tool (stage : Stage φ) : (e.goTo stage).tool = e.tool := rfl

@[simp] lemma goTo_params (stage : Stage φ) : (e.goTo stage).params = e.params := rfl

@[simp] lemma goTo_calls (stage : Stage φ) : (e.goTo stage).calls = e.calls := rfl

variable [FloatFormat φ] (l : Ledger) (now : Instant) (choice : Choice φ)

lemma moves_recording (success : Bool) (result persisted : JsonValue φ) :
    l.Moves e.key (e.recording l now success result persisted) := by
  unfold recording
  split_ifs
  · exact Ledger.moves_complete ..
  · exact Ledger.moves_fail ..

/-- The ledger moves by a transaction on the key of the execution. -/
lemma moves_step : l.Moves e.key (e.step l now choice).2 := by
  unfold step
  split
  · split
    · exact .refl ..
    · split_ifs <;> exact .refl ..
  · split
    · exact l.moves_getRecord ..
    · split <;> exact l.moves_getRecord ..
  · split_ifs <;> exact l.moves_claim ..
  · exact l.moves_getRecord ..
  · split_ifs <;> exact .refl ..
  · split <;> exact .refl ..
  · split_ifs
    · exact .refl ..
    · split <;> exact .refl ..
  · split
    · exact .refl ..
    · dsimp only
      split_ifs
      · exact e.moves_recording ..
      · exact .refl ..
    · exact e.moves_recording ..
  · split_ifs
    · exact .refl ..
    · split
      · exact .refl ..
      · exact .refl ..
      · exact l.moves_fail ..
  · split <;> exact .refl ..
  · split
    · exact .refl ..
    · exact l.moves_markUnknown e.key _ none now
  · exact .refl ..
  · exact .refl ..

/-- The execution keeps its tool, its key and its parameters. -/
lemma step_same : (e.step l now choice).1.tool = e.tool ∧ (e.step l now choice).1.key = e.key ∧
    (e.step l now choice).1.params = e.params := by
  unfold step
  repeat' split
  all_goals exact ⟨rfl, rfl, rfl⟩

/-- A claim is won by the claim statement, for a key without a row. -/
lemma step_claimed (h : (e.step l now choice).1.claimed) :
    e.claimed ∨ (∃ kwargs, e.stage = .claim kwargs) ∧ (l.claim e.key e.tool.name now).1 := by
  unfold step at h
  split at h
  case h_3 kwargs hs =>
    split_ifs at h with hc
    · exact .inr ⟨⟨kwargs, hs⟩, hc⟩
    · exact .inl h
  all_goals
    left
    revert h
    repeat' split
    all_goals exact id

/-- A claim is kept. -/
lemma step_keeps_claim (h : e.claimed) : (e.step l now choice).1.claimed := by
  unfold step
  repeat' split
  all_goals first
    | exact h
    | rfl

omit [FloatFormat φ] in
lemma sound_of_ended {e : Execution φ} (h : e.stage.ended) : e.Sound := by
  cases hs : e.stage <;> simp [hs, Stage.ended] at h
  all_goals exact ⟨by simp [hs, Stage.before], by simp [hs, Stage.ended], by simp [hs], by simp [hs]⟩

omit [FloatFormat φ] in
lemma sound_of_claimed {e : Execution φ} (hbefore : e.stage.before = false) (h : e.claimed) :
    e.Sound where
  before hb := absurd (hb.symm.trans hbefore) (by simp)
  writing _ _ := h
  lookUp kwargs hs := by simp [hs, Stage.before] at hbefore
  claim kwargs hs := by simp [hs, Stage.before] at hbefore

/-- A statement of an execution that knows itself. -/
lemma step_sound (h : e.Sound) : (e.step l now choice).1.Sound := by
  have hbefore := h.before
  have hclaimed : e.stage.before = false → e.stage.ended = false → e.claimed = true := h.writing
  unfold step
  split
  next hs =>
    have hfree := hbefore (by rw [hs]; rfl)
    split
    · exact sound_of_ended rfl
    · next kwargs hmodel =>
      split_ifs
      · exact sound_of_ended rfl
      · exact ⟨fun _ => hfree, by simp [Stage.before], by simpa using hmodel, by simp⟩
  next kwargs hs =>
    have hfree := hbefore (by rw [hs]; rfl)
    split
    · exact ⟨fun _ => hfree, by simp [Stage.before], by simp, by simpa using h.lookUp kwargs hs⟩
    · split <;> exact sound_of_ended rfl
  next kwargs hs =>
    have hfree := hbefore (by rw [hs]; rfl)
    split_ifs
    · exact sound_of_claimed rfl rfl
    · exact ⟨fun _ => hfree, by simp [Stage.before], by simp, by simp⟩
  next hs => exact sound_of_ended rfl
  next kwargs n hs =>
    split_ifs <;> exact sound_of_claimed rfl (hclaimed (by rw [hs]; rfl) (by rw [hs]; rfl))
  next kwargs n hs =>
    have hmine := hclaimed (by rw [hs]; rfl) (by rw [hs]; rfl)
    split
    · exact sound_of_claimed rfl hmine
    · exact sound_of_claimed rfl hmine
    · exact sound_of_claimed rfl hmine
    · exact h
  next kwargs n result hs =>
    have hmine := hclaimed (by rw [hs]; rfl) (by rw [hs]; rfl)
    split_ifs
    · exact sound_of_claimed rfl hmine
    · split <;> exact sound_of_claimed rfl hmine
  next kwargs n success result persisted hs =>
    have hmine := hclaimed (by rw [hs]; rfl) (by rw [hs]; rfl)
    split <;> exact sound_of_claimed rfl hmine
  next kwargs n hs =>
    have hmine := hclaimed (by rw [hs]; rfl) (by rw [hs]; rfl)
    split_ifs
    · exact sound_of_claimed rfl hmine
    · split <;> exact sound_of_claimed rfl hmine
  next kwargs n handling hs =>
    have hmine := hclaimed (by rw [hs]; rfl) (by rw [hs]; rfl)
    split
    · cases handling <;> exact sound_of_claimed rfl hmine
    · exact sound_of_claimed rfl hmine
  next hs =>
    split <;> exact sound_of_ended rfl
  next => exact h
  next => exact h

end Execution

/-! ### The claims -/

/-- The invariant: the ledger is keyed, every execution knows itself, and the key of a claim has a
row and no second claim. -/
structure Processes.Coherent (s : Processes φ) : Prop where
  keyed : Keyed (·.key) s.ledger
  sound : ∀ e ∈ s.executions, e.Sound
  row : ∀ e ∈ s.executions, e.claimed → ∃ r ∈ s.ledger, r.key = e.key
  one : ∀ (i j : Nat) (e e' : Execution φ), s.executions[i]? = some e →
    s.executions[j]? = some e' → e.claimed → e'.claimed → e.key = e'.key → i = j

lemma Processes.coherent_empty : (Processes.empty : Processes φ).Coherent where
  keyed := keyed_nil
  sound := by simp [Processes.empty]
  row := by simp [Processes.empty]
  one := by simp [Processes.empty]

lemma Ledger.Moves.row {l l' : Ledger} {key : Text} (h : l.Moves key l') {k : Text}
    (hr : ∃ r ∈ l, r.key = k) : ∃ r ∈ l', r.key = k := by
  obtain ⟨r, hr, hk⟩ := hr
  obtain ⟨r', hr', hf⟩ := h.kept r hr
  exact ⟨r', hr', hf.key_eq.trans hk⟩

variable [FloatFormat φ]

/-- The key an action writes under. -/
def Processes.keyOf (s : Processes φ) : Action φ → Text
  | .execute _ key _ => key
  | .step i _ _ => ((s.executions[i]?).map (·.key)).getD []
  | .release key _ => key
  | .markUnknown key _ _ _ => key

lemma Processes.moves_act (s : Processes φ) (a : Action φ) :
    s.ledger.Moves (s.keyOf a) (s.act a).ledger := by
  cases a with
  | execute tool key params => exact .refl ..
  | step i now choice =>
    cases hi : s.executions[i]? with
    | none =>
      rw [Processes.act_step_of_none hi]
      exact .refl ..
    | some e =>
      rw [Processes.act_step hi, Processes.keyOf, hi]
      exact e.moves_step s.ledger now choice
  | release key now => exact s.ledger.moves_markUnknown key _ none now
  | markUnknown key error tool now => exact s.ledger.moves_markUnknown key error tool now

/-- The key of a claim that is won has no row before it and one after it. -/
lemma claim_won {l : Ledger} {key tool : Text} {now : Instant} (h : (l.claim key tool now).1) :
    (∀ r ∈ l, r.key ≠ key) ∧ ∃ r ∈ (l.claim key tool now).2, r.key = key := by
  unfold Ledger.claim at h ⊢
  split at h
  · exact absurd h (by simp)
  · next hnone =>
    refine ⟨fun r hr heq => ?_, _, List.mem_append_right _ (List.mem_singleton_self _), rfl⟩
    obtain ⟨r', hr', hf⟩ := (l.moves_expire key now).kept r hr
    exact Ledger.find_eq_none.1 hnone r' hr' (hf.key_eq.trans heq)

lemma Processes.Coherent.act {s : Processes φ} (h : s.Coherent) (a : Action φ) :
    (s.act a).Coherent := by
  have hmoves := s.moves_act a
  cases a with
  | execute tool key params =>
    refine ⟨h.keyed, fun e he => ?_, fun e he hc => ?_, fun i j e e' hi hj hc hc' => ?_⟩
    · rcases List.mem_append.1 he with he | he
      · exact h.sound e he
      · rw [List.mem_singleton.1 he]
        exact ⟨fun _ => rfl, by simp [Execution.called, Stage.before],
          by simp [Execution.called], by simp [Execution.called]⟩
    · rcases List.mem_append.1 he with he | he
      · exact h.row e he hc
      · rw [List.mem_singleton.1 he] at hc
        exact absurd hc Bool.false_ne_true
    · have hold : ∀ (k : Nat) (e : Execution φ),
          (s.executions ++ [.called tool key params])[k]? = some e → e.claimed →
            s.executions[k]? = some e := by
        intro k e hk hclaimed
        rcases Nat.lt_or_ge k s.executions.length with hlt | hge
        · rwa [List.getElem?_append_left hlt] at hk
        · rw [List.getElem?_append_right hge, List.getElem?_singleton] at hk
          split_ifs at hk
          rw [← Option.some.inj hk] at hclaimed
          exact absurd hclaimed (by simp [Execution.called])
      exact h.one i j e e' (hold i e hi hc) (hold j e' hj hc') hc hc'
  | release key now =>
    exact ⟨hmoves.keyed h.keyed, h.sound, fun e he hc => hmoves.row (h.row e he hc), h.one⟩
  | markUnknown key error tool now =>
    exact ⟨hmoves.keyed h.keyed, h.sound, fun e he hc => hmoves.row (h.row e he hc), h.one⟩
  | step i now choice =>
    cases hi : s.executions[i]? with
    | none => rwa [Processes.act_step_of_none hi]
    | some e =>
      rw [Processes.act_step hi] at hmoves ⊢
      have hmem : e ∈ s.executions := List.mem_of_getElem? hi
      obtain ⟨-, hkey, -⟩ := e.step_same s.ledger now choice
      have hset : ∀ (k : Nat) (e' : Execution φ),
          (s.executions.set i (e.step s.ledger now choice).1)[k]? = some e' →
          (k = i ∧ e' = (e.step s.ledger now choice).1) ∨
            k ≠ i ∧ s.executions[k]? = some e' := by
        intro k e' hk
        by_cases hik : i = k
        · subst hik
          rw [List.getElem?_set_self (List.getElem?_eq_some_iff.1 hi).1] at hk
          exact .inl ⟨rfl, (Option.some.inj hk).symm⟩
        · rw [List.getElem?_set_ne hik] at hk
          exact .inr ⟨Ne.symm hik, hk⟩
      -- a claim that was just won: nobody else holds the key
      have hnew : (e.step s.ledger now choice).1.claimed → ∀ (k : Nat) (e' : Execution φ), k ≠ i →
          s.executions[k]? = some e' → e'.claimed → e'.key ≠ e.key := by
        intro hc k e' hki hk hc' heq
        rcases e.step_claimed s.ledger now choice hc with hold | ⟨-, hwon⟩
        · exact hki (h.one k i e' e hk hi hc' hold heq)
        · obtain ⟨r, hr, hrk⟩ := h.row e' (List.mem_of_getElem? hk) hc'
          exact (claim_won hwon).1 r hr (hrk.trans heq)
      refine ⟨hmoves.keyed h.keyed, fun e' he' => ?_, fun e' he' hc => ?_,
        fun a b ea eb ha hb hca hcb hab => ?_⟩
      · obtain ⟨k, hk⟩ := List.mem_iff_getElem?.1 he'
        rcases hset k e' hk with ⟨-, rfl⟩ | ⟨-, hk⟩
        · exact e.step_sound _ _ _ (h.sound e hmem)
        · exact h.sound e' (List.mem_of_getElem? hk)
      · obtain ⟨k, hk⟩ := List.mem_iff_getElem?.1 he'
        rcases hset k e' hk with ⟨-, rfl⟩ | ⟨-, hk⟩
        · rw [hkey]
          rcases e.step_claimed s.ledger now choice hc with hold | ⟨⟨kwargs, hs⟩, hwon⟩
          · exact hmoves.row (h.row e hmem hold)
          · have hl : (e.step s.ledger now choice).2 =
                (s.ledger.claim e.key e.tool.name now).2 := by
              unfold Execution.step
              rw [hs]
              simp [hwon]
            rw [hl]
            exact (claim_won hwon).2
        · exact hmoves.row (h.row e' (List.mem_of_getElem? hk) hc)
      · rcases hset a ea ha with ⟨rfl, rfl⟩ | ⟨hai, ha'⟩ <;>
          rcases hset b eb hb with ⟨rfl, rfl⟩ | ⟨hbi, hb'⟩
        · rfl
        · exact absurd (hab.symm.trans hkey) (hnew hca b eb hbi hb' hcb)
        · exact absurd (hab.trans hkey) (hnew hcb a ea hai ha' hca)
        · exact h.one a b ea eb ha' hb' hca hcb hab

/-! ### Starts -/

/-- The tool of the execution is not safe to retry. -/
def Action.RetryUnsafe : Action φ → Prop
  | .execute tool _ _ => tool.retrySafe = false
  | _ => True

/-- The invariant of tools that are not retried: a key a callable was started under is claimed by
an execution that is past the start. -/
structure Processes.Launched (s : Processes φ) : Prop where
  once : ∀ e ∈ s.executions, e.tool.retrySafe = false
  past : ∀ key ∈ s.started, ∃ e ∈ s.executions,
    e.claimed ∧ e.key = key ∧ e.stage.before = false ∧ e.stage.starting = false
  waits : ∀ e ∈ s.executions, ∀ kwargs n handling, e.stage ≠ .wait kwargs n handling
  nodup : s.started.Nodup

omit [FloatFormat φ] in
lemma Processes.launched_empty : (Processes.empty : Processes φ).Launched where
  once := by simp [Processes.empty]
  past := by simp [Processes.empty]
  waits := by simp [Processes.empty]
  nodup := by simp [Processes.empty]

namespace Execution

variable {e : Execution φ} {l : Ledger} {now : Instant} {choice : Choice φ}

omit [FloatFormat φ] in
lemma mayRetry_of_not_safe (h : e.tool.retrySafe = false) (n : Nat) : e.mayRetry n = false := by
  simp [mayRetry, h]

/-- An execution that is not retried never waits, and does not come back to the start. -/
lemma step_past (e : Execution φ) (l : Ledger) (now : Instant) (choice : Choice φ)
    (h : e.tool.retrySafe = false)
    (hwait : ∀ kwargs n handling, e.stage ≠ .wait kwargs n handling) :
    (∀ kwargs n handling, (e.step l now choice).1.stage ≠ .wait kwargs n handling) ∧
      (e.stage.before = false → e.stage.starting = false →
        (e.step l now choice).1.stage.before = false ∧
          (e.step l now choice).1.stage.starting = false) := by
  have hretry := mayRetry_of_not_safe h
  unfold step
  split
  next hs =>
    refine ⟨?_, by rw [hs]; simp [Stage.before]⟩
    repeat' split
    all_goals simp
  next hs =>
    refine ⟨?_, by rw [hs]; simp [Stage.before]⟩
    repeat' split
    all_goals simp
  next hs =>
    refine ⟨?_, by rw [hs]; simp [Stage.before]⟩
    split_ifs <;> simp
  next hs => exact ⟨by simp, by rw [hs]; simp [Stage.before]⟩
  next hs =>
    refine ⟨?_, by rw [hs]; simp [Stage.starting]⟩
    split_ifs <;> simp
  next hs =>
    split
    · simp [Stage.before, Stage.starting]
    · simp [Stage.before, Stage.starting]
    · simp [Stage.before, Stage.starting]
    · exact ⟨hwait, fun hb hst => ⟨hb, hst⟩⟩
  next hs =>
    simp only [hretry, Bool.false_eq_true, false_and, and_false, if_false]
    split <;> simp [Stage.before, Stage.starting]
  next hs => split <;> simp [Stage.before, Stage.starting]
  next hs =>
    simp only [hretry, Bool.false_eq_true, if_false]
    split <;> simp [Stage.before, Stage.starting]
  next kwargs n handling hs => exact absurd hs (hwait kwargs n handling)
  next hs => split <;> simp [Stage.before, Stage.starting]
  next => exact ⟨hwait, fun hb hst => ⟨hb, hst⟩⟩
  next => exact ⟨hwait, fun hb hst => ⟨hb, hst⟩⟩

omit [FloatFormat φ] in
/-- A start is a start of the key, from the first statement of an attempt to the call. -/
lemma starts_cases (e e' : Execution φ) : e.starts e' = [] ∨ e.starts e' = [e.key] ∧
    (∃ kwargs n, e.stage = .attempt kwargs n) ∧ ∃ kwargs n, e'.stage = .calling kwargs n := by
  unfold starts
  split
  · next hs hs' => exact .inr ⟨rfl, ⟨_, _, hs⟩, ⟨_, _, hs'⟩⟩
  · exact .inl rfl

end Execution

lemma mem_set_cases {α : Type} {l : List α} {i : Nat} {a b : α} (h : b ∈ l.set i a) :
    b = a ∨ b ∈ l := by
  rcases List.mem_or_eq_of_mem_set h with h | h
  · exact .inr h
  · exact .inl h

lemma Processes.Launched.act {s : Processes φ} (hs : s.Coherent) (h : s.Launched) {a : Action φ}
    (ha : a.RetryUnsafe) : (s.act a).Launched := by
  cases a with
  | execute tool key params =>
    refine ⟨fun e he => ?_, fun k hk => ?_, fun e he => ?_, h.nodup⟩
    · rcases List.mem_append.1 he with he | he
      · exact h.once e he
      · rw [List.mem_singleton.1 he]
        exact ha
    · obtain ⟨e, he, hrest⟩ := h.past k hk
      exact ⟨e, List.mem_append_left _ he, hrest⟩
    · rcases List.mem_append.1 he with he | he
      · exact h.waits e he
      · rw [List.mem_singleton.1 he]
        simp [Execution.called]
  | release key now => exact ⟨h.once, h.past, h.waits, h.nodup⟩
  | markUnknown key error tool now => exact ⟨h.once, h.past, h.waits, h.nodup⟩
  | step i now choice =>
    cases hi : s.executions[i]? with
    | none => rwa [Processes.act_step_of_none hi]
    | some e =>
      rw [Processes.act_step hi]
      have hmem : e ∈ s.executions := List.mem_of_getElem? hi
      obtain ⟨htool, hkey, -⟩ := e.step_same s.ledger now choice
      obtain ⟨hwaits, hpast⟩ := e.step_past s.ledger now choice (h.once e hmem) (h.waits e hmem)
      have hclaimed := e.step_keeps_claim s.ledger now choice
      have hself : (e.step s.ledger now choice).1 ∈
          s.executions.set i (e.step s.ledger now choice).1 :=
        List.mem_set (List.getElem?_eq_some_iff.1 hi).1 _
      -- a key that was started before is still claimed past the start
      have hold : ∀ k ∈ s.started, ∃ e' ∈ s.executions.set i (e.step s.ledger now choice).1,
          e'.claimed ∧ e'.key = k ∧ e'.stage.before = false ∧ e'.stage.starting = false := by
        intro k hk
        obtain ⟨e₀, he₀, hc, hk₀, hb, hst⟩ := h.past k hk
        obtain ⟨j, hj⟩ := List.mem_iff_getElem?.1 he₀
        by_cases hij : i = j
        · subst hij
          have : e₀ = e := Option.some.inj (hj.symm.trans hi)
          subst this
          exact ⟨_, hself, hclaimed hc, hkey.trans hk₀, hpast hb hst⟩
        · exact ⟨e₀, List.mem_of_getElem? (by rw [List.getElem?_set_ne hij]; exact hj),
            hc, hk₀, hb, hst⟩
      have hclass : ∀ e' ∈ s.executions.set i (e.step s.ledger now choice).1,
          e'.tool.retrySafe = false := by
        intro e' he'
        rcases mem_set_cases he' with rfl | he'
        · rw [htool]
          exact h.once e hmem
        · exact h.once e' he'
      have hwaits' : ∀ e' ∈ s.executions.set i (e.step s.ledger now choice).1,
          ∀ kwargs n handling, e'.stage ≠ .wait kwargs n handling := by
        intro e' he'
        rcases mem_set_cases he' with rfl | he'
        · exact hwaits
        · exact h.waits e' he'
      rcases e.starts_cases (e.step s.ledger now choice).1 with
        hnone | ⟨hone, ⟨kwargs, n, hat⟩, kwargs', n', hcall⟩
      · simp only [hnone, List.append_nil]
        exact ⟨hclass, hold, hwaits', h.nodup⟩
      · have hmine : e.claimed :=
          (hs.sound e hmem).writing (by rw [hat]; rfl) (by rw [hat]; rfl)
        have hfresh : e.key ∉ s.started := by
          intro hk
          obtain ⟨e₀, he₀, hc, hk₀, -, hst⟩ := h.past _ hk
          obtain ⟨j, hj⟩ := List.mem_iff_getElem?.1 he₀
          have hji := hs.one j i e₀ e hj hi hc hmine hk₀
          subst hji
          rw [Option.some.inj (hj.symm.trans hi), hat] at hst
          exact absurd hst (by simp [Stage.starting])
        simp only [hone]
        refine ⟨hclass, fun k hk => ?_, hwaits', ?_⟩
        · rcases List.mem_append.1 hk with hk | hk
          · exact hold k hk
          · rw [List.mem_singleton.1 hk]
            exact ⟨_, hself, hclaimed hmine, hkey, by rw [hcall]; rfl, by rw [hcall]; rfl⟩
        · rw [List.nodup_append]
          refine ⟨h.nodup, by simp, fun a ha b hb => ?_⟩
          rw [List.mem_singleton.1 hb]
          exact fun heq => hfresh (heq ▸ ha)

/-! ### Answers from the record -/

/-- The answer carries the recorded result, as it is replayed. -/
def Execution.Replays (e : Execution φ) (row : Invocation) (r : ToolResult φ) : Prop :=
  ∃ kwargs, e.tool.inputModel e.params = some kwargs ∧ e.tool.replay kwargs row = some r.data

/-- The answer to a key is what its record says. -/
def Execution.Reports (e : Execution φ) (row : Invocation) (r : ToolResult φ) : Prop :=
  if row.tool ≠ e.tool.name then r.success = false ∧ r.outcome = some .conflict
  else
    match row.status with
    | .complete => r.outcome = some .replayed ∧ e.Replays row r
    | .failed => r.success = false ∧ r.outcome = some .failed ∧ e.Replays row r
    | .running => r.success = false ∧ r.outcome = some .running
    | .unknown => r.success = false ∧ r.outcome = some .unknown

/-- A statement that ends an execution without the claim answers from the record of its key. -/
def Execution.Reported (e : Execution φ) (l : Ledger) (now : Instant) (choice : Choice φ) : Prop :=
  e.claimed = false → e.key ≠ [] → e.stage.ended = false →
    (e.step l now choice).1.stage.ended → ∀ row, (e.step l now choice).2.find e.key = some row →
      ∃ r, (e.step l now choice).1.stage = .returned r ∧ e.Reports row r

/-- A statement that ends an execution without an answer from the record: the parameters are
invalid, the rehydration raises, or the claim was lost to an execution that has recorded its outcome
or has another tool. -/
def Execution.Unreported (e : Execution φ) (l : Ledger) (now : Instant) : Prop :=
  e.key ≠ [] ∧
    match e.stage with
    | .begin => e.tool.inputModel e.params = none ∧ (l.find e.key).isSome
    | .lookUp kwargs => ∃ row, (l.getRecord e.key now).1 = some row ∧
        row.tool = e.tool.name ∧ e.tool.replay kwargs row = none
    | .readBack => ∃ row, (l.getRecord e.key now).1 = some row ∧
        (row.tool ≠ e.tool.name ∨ row.status = .complete ∨
          row.status = .failed ∧
            ∀ kwargs, e.tool.inputModel e.params = some kwargs →
              e.tool.replay kwargs row ≠ some .null)
    | _ => False

namespace Execution

variable {e : Execution φ} {l : Ledger} {now : Instant} {choice : Choice φ}

/-- An answer from the record is what the record says. -/
lemma reports_answer {kwargs : Dict (JsonValue φ)} {row : Invocation} {r : ToolResult φ}
    (hkwargs : e.tool.inputModel e.params = some kwargs) (h : e.answer kwargs row = some r) :
    e.Reports row r := by
  unfold answer at h
  unfold Reports
  by_cases htool : row.tool ≠ e.tool.name
  · rw [if_pos htool] at h ⊢
    rw [← Option.some.inj h]
    exact ⟨rfl, rfl⟩
  · rw [if_neg htool] at h ⊢
    obtain ⟨replayed, hreplay, hr⟩ := Option.map_eq_some_iff.1 h
    cases hs : row.status with
    | complete =>
      rw [hs] at hr
      subst hr
      exact ⟨rfl, kwargs, hkwargs, hreplay⟩
    | failed =>
      rw [hs] at hr
      subst hr
      exact ⟨rfl, rfl, kwargs, hkwargs, hreplay⟩
    | running =>
      rw [hs] at hr
      subst hr
      exact ⟨rfl, rfl⟩
    | unknown =>
      rw [hs] at hr
      subst hr
      exact ⟨rfl, rfl⟩

/-- Where the claim was lost, only an open record of the same tool is reported as it is. -/
lemma reports_lost_iff {row : Invocation} : e.Reports row (e.lost (some row)) ↔
    ¬ (row.tool ≠ e.tool.name ∨ row.status = .complete ∨ row.status = .failed ∧
      ∀ kwargs, e.tool.inputModel e.params = some kwargs → e.tool.replay kwargs row ≠ some .null) := by
  unfold Reports
  by_cases htool : row.tool ≠ e.tool.name
  · rw [if_pos htool]
    cases hs : row.status <;> simp [htool, lost, failure, hs, InvocationStatus.outcome]
  · rw [if_neg htool]
    cases hs : row.status <;>
      simp [htool, lost, failure, hs, InvocationStatus.outcome, Replays]

lemma not_reports_invalid {row : Invocation} : ¬ e.Reports row e.invalidParameters := by
  unfold Reports
  by_cases htool : row.tool ≠ e.tool.name
  · simp [htool, invalidParameters, failure]
  · cases row.status <;> simp [htool, invalidParameters, failure]

/-- Which statements answer from the record. -/
lemma reported_iff (h : e.Sound) : e.Reported l now choice ↔ ¬ e.Unreported l now := by
  unfold Reported Unreported
  by_cases hkey : e.key = []
  · simp [hkey]
  cases hs : e.stage with
  | begin =>
    have hfree := h.before (by rw [hs]; rfl)
    cases hmodel : e.tool.inputModel e.params with
    | none =>
      have hstep : e.step l now choice = (e.goTo (.returned e.invalidParameters), l) := by
        simp [step, hs, hmodel]
      simp only [hstep, hfree, hkey, not_false_eq_true, Stage.ended, true_and, goTo_stage,
        forall_const, ne_eq]
      rw [Option.isSome_iff_exists]
      constructor
      · rintro hall ⟨row, hrow⟩
        obtain ⟨r, hr, hreports⟩ := hall row hrow
        rw [← Stage.returned.inj hr] at hreports
        exact not_reports_invalid hreports
      · exact fun hnone row hrow => absurd ⟨row, hrow⟩ hnone
    | some kwargs =>
      have hstep : e.step l now choice = (e.goTo (.lookUp kwargs), l) := by
        simp [step, hs, hmodel, hkey]
      simp [hstep, Stage.ended]
  | lookUp kwargs =>
    have hfree := h.before (by rw [hs]; rfl)
    have hkwargs := h.lookUp kwargs hs
    cases hrec : (l.getRecord e.key now).1 with
    | none =>
      have hstep : e.step l now choice =
          (e.goTo (.claim kwargs), (l.getRecord e.key now).2) := by
        simp [step, hs, hrec]
      simp [hstep, Stage.ended]
    | some row =>
      have hfind : (l.getRecord e.key now).2.find e.key = some row := hrec
      cases hanswer : e.answer kwargs row with
      | some r =>
        have hstep : e.step l now choice =
            (e.goTo (.returned r), (l.getRecord e.key now).2) := by
          simp [step, hs, hrec, hanswer]
        have hreplay : ¬ (row.tool = e.tool.name ∧ e.tool.replay kwargs row = none) := by
          rintro ⟨htool, hnone⟩
          simp [answer, htool, hnone] at hanswer
        simp only [hstep, hfind, goTo_stage, Option.some.injEq, exists_eq_left']
        simp [hreplay, reports_answer hkwargs hanswer]
      | none =>
        have hstep : e.step l now choice = (e.goTo .raised, (l.getRecord e.key now).2) := by
          simp [step, hs, hrec, hanswer]
        have hreplay : row.tool = e.tool.name ∧ e.tool.replay kwargs row = none := by
          unfold answer at hanswer
          by_cases htool : row.tool = e.tool.name
          · simpa [htool] using hanswer
          · simp [htool] at hanswer
        simp only [hstep, hfind, goTo_stage, Option.some.injEq, exists_eq_left']
        simp [hreplay, hfree, hkey, Stage.ended]
  | readBack =>
    have hfree := h.before (by rw [hs]; rfl)
    have hstep : e.step l now choice =
        (e.goTo (.returned (e.lost (l.getRecord e.key now).1)), (l.getRecord e.key now).2) := by
      simp [step, hs]
    cases hrec : (l.getRecord e.key now).1 with
    | none =>
      have hfind : (l.getRecord e.key now).2.find e.key = none := hrec
      simp [hstep, hfind]
    | some row =>
      have hfind : (l.getRecord e.key now).2.find e.key = some row := hrec
      simp only [hstep, hfind, hrec, goTo_stage, Stage.returned.injEq, Option.some.injEq,
        exists_eq_left', forall_eq']
      simp [hfree, hkey, Stage.ended, reports_lost_iff]
  | claim kwargs =>
    have hended : (e.step l now choice).1.stage.ended = false := by
      unfold step
      rw [hs]
      dsimp only
      split_ifs <;> rfl
    simp [hended]
  | returned r => simp [Stage.ended]
  | raised => simp [Stage.ended]
  | attempt kwargs n => simp [h.writing (by rw [hs]; rfl) (by rw [hs]; rfl)]
  | calling kwargs n => simp [h.writing (by rw [hs]; rfl) (by rw [hs]; rfl)]
  | finish kwargs n result => simp [h.writing (by rw [hs]; rfl) (by rw [hs]; rfl)]
  | record kwargs n success result persisted =>
    simp [h.writing (by rw [hs]; rfl) (by rw [hs]; rfl)]
  | handle kwargs n => simp [h.writing (by rw [hs]; rfl) (by rw [hs]; rfl)]
  | wait kwargs n handling => simp [h.writing (by rw [hs]; rfl) (by rw [hs]; rfl)]
  | cancelled => simp [h.writing (by rw [hs]; rfl) (by rw [hs]; rfl)]

end Execution

/-! ### Whole runs -/

/-- The statements that look at the row of a key. -/
def Stage.looks : Stage φ → Bool
  | .lookUp _ => true
  | .claim _ => true
  | .readBack => true
  | _ => false

/-- The execution step of an action meets a condition. -/
def Processes.OnStep (P : Execution φ → Ledger → Instant → Choice φ → Prop) (s : Processes φ) :
    Action φ → Prop
  | .step i now choice => ∀ e ∈ s.executions[i]?, P e s.ledger now choice
  | _ => True

/-- After a look at a key no running row of it has a lease that ran out. -/
def Execution.Checked (e : Execution φ) (l : Ledger) (now : Instant) (choice : Choice φ) : Prop :=
  e.stage.looks → ∀ r ∈ (e.step l now choice).2, ¬ Ledger.Expired e.key now r

lemma Ledger.not_expired_claim (l : Ledger) (key tool : Text) (now : Instant) :
    ∀ r ∈ (l.claim key tool now).2, ¬ Expired key now r := by
  unfold claim
  split
  · exact l.not_expired_expire key now
  · intro r hr
    rcases List.mem_append.1 hr with hr | hr
    · exact l.not_expired_expire key now r hr
    · rw [List.mem_singleton.1 hr]
      rintro ⟨-, -, t, ht, hle⟩
      rw [← Option.some.inj ht] at hle
      exact absurd hle (by simp [leaseSeconds, second])

lemma Execution.checked (e : Execution φ) (l : Ledger) (now : Instant) (choice : Choice φ) :
    e.Checked l now choice := by
  intro hlooks
  unfold step
  cases hs : e.stage with
  | lookUp kwargs =>
    dsimp only
    repeat' split
    all_goals exact l.not_expired_expire e.key now
  | claim kwargs =>
    dsimp only
    split_ifs <;> exact l.not_expired_claim e.key e.tool.name now
  | readBack => exact l.not_expired_expire e.key now
  | _ => simp [hs, Stage.looks] at hlooks

/-- What the ledger is for, over a run: a callable is started at most once under a key, a recorded
outcome stays, a lease that ran out is noticed, and every execution without the claim of a key that
has a record is answered from it. -/
structure WrittenOnce (actions : List (Action φ)) : Prop where
  once : (run Processes.act .empty actions).started.Nodup
  terminal : ∀ before after, actions = before ++ after →
    ∀ r ∈ (run Processes.act .empty before).ledger, r.Terminal →
      r ∈ (run Processes.act .empty actions).ledger
  checked : Along Processes.act (Processes.OnStep Execution.Checked) .empty actions
  reported : Along Processes.act (Processes.OnStep Execution.Reported) .empty actions

/-- A recorded outcome is not touched. -/
lemma Processes.terminal_act {s : Processes φ} {r : Invocation} (h : r ∈ s.ledger)
    (ht : r.Terminal) (a : Action φ) : r ∈ (s.act a).ledger := by
  obtain ⟨r', hr', hf⟩ := (s.moves_act a).kept r h
  rwa [← hf.terminal ht]

/-- A condition on the steps that follows from the invariant holds along every run. -/
lemma along_of_coherent {C D : Processes φ → Action φ → Prop}
    (h : ∀ s a, s.Coherent → C s a → D s a) {s : Processes φ} (hs : s.Coherent)
    {actions : List (Action φ)} (hC : Along Processes.act C s actions) :
    Along Processes.act D s actions := by
  induction actions generalizing s with
  | nil => trivial
  | cons a actions ih => exact ⟨h s a hs hC.1, ih (hs.act a) hC.2⟩

lemma Processes.onStep_reported_iff {s : Processes φ} (hs : s.Coherent) (a : Action φ) :
    s.OnStep Execution.Reported a ↔ s.OnStep (fun e l now _ => ¬ e.Unreported l now) a := by
  cases a with
  | step i now choice =>
    have hsound : ∀ e ∈ s.executions[i]?, e.Sound := fun e he =>
      hs.sound e (List.mem_of_getElem? (Option.mem_def.1 he))
    exact forall₂_congr fun e he => Execution.reported_iff (hsound e he)
  | _ => exact Iff.rfl

/-- Write tools that are not safe to retry run at most once under a key and are answered from its
record, exactly as long as no execution ends unreported. -/
theorem write_runs_once (actions : List (Action φ)) (hclass : ∀ a ∈ actions, a.RetryUnsafe) :
    WrittenOnce actions ↔ Along Processes.act
      (Processes.OnStep fun e l now _ => ¬ e.Unreported l now) .empty actions := by
  constructor
  · intro h
    exact along_of_coherent (fun s a hs => (Processes.onStep_reported_iff hs a).1)
      Processes.coherent_empty h.reported
  · intro h
    refine ⟨?_, ?_, ?_, ?_⟩
    · have := run_preserves_along (I := fun s : Processes φ => s.Coherent ∧ s.Launched)
        (fun s a hs ha => ⟨hs.1.act a, hs.2.act hs.1 ha⟩)
        ⟨Processes.coherent_empty, Processes.launched_empty⟩
        (along_of_forall Processes.act .empty hclass)
      exact this.2.nodup
    · rintro before after rfl r hr ht
      rw [run_append]
      exact run_preserves (I := fun s : Processes φ => r ∈ s.ledger)
        (fun s a hs => Processes.terminal_act hs ht a) hr after
    · refine along_of_coherent (fun s a _ _ => ?_) Processes.coherent_empty h
      cases a with
      | step i now choice => exact fun e _ => e.checked s.ledger now choice
      | _ => trivial
    · exact along_of_coherent (fun s a hs => (Processes.onStep_reported_iff hs a).2)
        Processes.coherent_empty h

/-! ### A lost claim -/

/-- `remember` with its parameters as they are. -/
def rememberTool : Tool NonFinite where
  name := Text.ofString "remember"
  version := Text.ofString "1"
  retrySafe := false
  maxRetries := 1
  retryOnError := true
  callable := true
  inputModel := some
  required := []
  outputModel := none
  replayProjection := none
  replayRehydrate := none
  str := fun _ => []

def savedResult : JsonValue NonFinite := .obj [(Text.ofString "success", .bool true)]

/-- Two executions look the key up before either claims it; the second claims it when the first
has finished. -/
def lateClaim : List (Action NonFinite) :=
  [.execute rememberTool (Text.ofString "k") [], .execute rememberTool (Text.ofString "k") [],
    .step 0 0 .proceed, .step 1 0 .proceed, .step 0 0 .proceed, .step 1 0 .proceed,
    .step 0 0 .proceed, .step 0 0 .proceed, .step 0 0 (.returns savedResult), .step 0 0 .proceed,
    .step 0 0 .proceed, .step 1 0 .proceed]

/-- The outcome an execution returned. -/
def Execution.outcome (e : Execution φ) : Option Outcome :=
  match e.stage with
  | .returned r => r.outcome
  | _ => none

/-- The second execution reports a complete write without its result. -/
theorem lost_claim_unreported : ¬ WrittenOnce (lateClaim ++ [.step 1 0 .proceed]) := by
  intro h
  have hlast := ((along_append _ _ _ _ _).1 h.reported).2.1
  -- the second execution stands at its last statement, and the key is complete
  have hstands : ((run Processes.act .empty lateClaim).executions[1]?.map fun e =>
      decide (e.claimed = false ∧ e.key = Text.ofString "k" ∧ e.tool.name = Text.ofString "remember"
        ∧ e.stage.ended = false ∧
        (e.step (run Processes.act .empty lateClaim).ledger 0 .proceed).1.outcome =
          some .complete ∧
        (e.step (run Processes.act .empty lateClaim).ledger 0 .proceed).1.stage.ended ∧
        ((e.step (run Processes.act .empty lateClaim).ledger 0 .proceed).2.find
          (Text.ofString "k")).map (fun row => (row.tool, row.status)) =
          some (Text.ofString "remember", .complete))) = some true := by
    decide +kernel
  obtain ⟨e, he, hdecide⟩ := Option.map_eq_some_iff.1 hstands
  obtain ⟨hfree, hkey, hname, hended, houtcome, hended', hrow⟩ := of_decide_eq_true hdecide
  obtain ⟨row, hrow, htoolstatus⟩ := Option.map_eq_some_iff.1 hrow
  rw [← hkey] at hrow
  obtain ⟨r, hr, hreports⟩ :=
    hlast e he hfree (by rw [hkey]; decide) hended hended' row hrow
  simp only [Prod.mk.injEq] at htoolstatus
  rw [Execution.Reports, if_neg (by rw [htoolstatus.1, hname]; simp), htoolstatus.2] at hreports
  rw [Execution.outcome, hr] at houtcome
  exact absurd (houtcome.symm.trans hreports.1) (by decide)

/-- One execution of one write. -/
def oneWrite : List (Action NonFinite) :=
  [.execute rememberTool (Text.ofString "k") [], .step 0 0 .proceed]

theorem one_write_runs_once : WrittenOnce oneWrite := by
  apply (write_runs_once oneWrite ?_).2
  · refine ⟨trivial, ?_, trivial⟩
    rintro e he ⟨-, hbad⟩
    have hcalled : e = .called rememberTool (Text.ofString "k") [] := (Option.some.inj he).symm
    subst hcalled
    exact absurd hbad.1 (by simp [Execution.called, rememberTool])
  · intro a ha
    rcases List.mem_cons.1 ha with rfl | ha
    · rfl
    · rw [List.mem_singleton.1 ha]
      trivial

end RentCompass.Tools
