import RentCompass.Agent.ToolBatch

/-!
# What is planned and written

Every call of a batch gets one entry in the plan. Those that are to run are told apart by tool and
digest, from each other and from all the ledger has seen, and pass their gates; each leaves one
entry of the ledger of its own.
-/

namespace RentCompass.Agent

variable {φ : Type} [FloatFormat φ] {cfg : Settings φ} {env : Surroundings φ}

/-- What the no-progress guard tells calls apart by. -/
def PlanEntry.key (e : PlanEntry φ) : Text × Text := (e.call.tool, e.digest)

def Artifact.key (a : Artifact φ) : Text × Text := (a.tool, a.paramsDigest)

omit [FloatFormat φ] in
lemma mem_seenIn {artifacts : List (Artifact φ)} {k : Text × Text} :
    k ∈ seenIn artifacts ↔ ∃ a ∈ artifacts, a.paramsDigest ≠ [] ∧ a.key = k := by
  simp [seenIn, Artifact.key, and_assoc]

omit [FloatFormat φ] in
lemma seenIn_append (l r : List (Artifact φ)) : seenIn (l ++ r) = seenIn l ++ seenIn r := by
  simp [seenIn]

/-! ### Modes -/

/-- A call is let in, or refused after it was seen. -/
def Mode.isDup : Mode φ → Bool
  | .skipDup => true
  | _ => false

lemma writeMode_isDup (tainted : Bool) (name : Text) (args : Dict (JsonValue φ)) :
    (writeMode cfg env tainted name args).isDup = false := by
  unfold writeMode
  cases env.gate with
  | none => rfl
  | some gate =>
    dsimp only
    split_ifs <;> rfl

omit [FloatFormat φ] in
lemma readMode_isDup (already : Nat) (name : Text) (args : Dict (JsonValue φ)) :
    (readMode cfg env already name args).isDup = false := by
  unfold readMode
  split_ifs with hcap
  · rfl
  · cases env.readToolDenial name args <;> rfl

omit [FloatFormat φ] in
/-- A read is let in below its cap only. -/
lemma lt_cap_of_readMode {already : Nat} {name : Text} {args : Dict (JsonValue φ)}
    (h : (readMode cfg env already name args).isRun) : already < cfg.turnToolCallCap name := by
  unfold readMode at h
  split_ifs at h with hcap
  · cases h
  · omega

/-! ### The plan -/

/-- The mode a call gets that was not seen before. -/
def gatedMode (cfg : Settings φ) (env : Surroundings φ) (artifacts : List (Artifact φ))
    (tainted : Bool) (p : Planning φ) (name : Text) (args : Dict (JsonValue φ)) : Mode φ :=
  if isWrite env.specs name then writeMode cfg env tainted name args
  else readMode cfg env (alreadyRun artifacts p.plan name) name args

lemma gatedMode_isDup (artifacts : List (Artifact φ)) (tainted : Bool) (p : Planning φ)
    (name : Text) (args : Dict (JsonValue φ)) :
    (gatedMode cfg env artifacts tainted p name args).isDup = false := by
  unfold gatedMode
  split_ifs
  · exact writeMode_isDup tainted name args
  · exact readMode_isDup _ name args

/-- The entry a call gets. -/
def entryOf (cfg : Settings φ) (env : Surroundings φ) (call : ToolCall φ) (mode : Mode φ) :
    PlanEntry φ :=
  let args := finalArgs cfg env call.tool call.args
  ⟨call, cfg.paramsDigest call.tool args, mode, args⟩

/-- What one round of the planning loop does. -/
lemma Planning.add_cases (cfg : Settings φ) (env : Surroundings φ)
    (artifacts : List (Artifact φ)) (tainted : Bool) (p : Planning φ) (call : ToolCall φ) :
    (p.add cfg env artifacts tainted call =
      { p with plan := p.plan ++ [entryOf cfg env call .gateOpen] }) ∨
    ((entryOf cfg env call .skipDup).key ∈ p.seen ∧ p.add cfg env artifacts tainted call =
      { p with plan := p.plan ++ [entryOf cfg env call .skipDup] }) ∨
    ((entryOf cfg env call .skipDup).key ∉ p.seen ∧ p.add cfg env artifacts tainted call =
      { seen := p.seen ++ [(entryOf cfg env call .skipDup).key]
        plan := p.plan ++ [entryOf cfg env call (gatedMode cfg env artifacts tainted p call.tool
          (finalArgs cfg env call.tool call.args))] }) := by
  by_cases hgate : call.tool = "search_properties" ∧
      softGateStillOpen env artifacts (finalArgs cfg env call.tool call.args)
  · exact .inl (if_pos hgate)
  · by_cases hseen : (entryOf cfg env call .skipDup).key ∈ p.seen
    · exact .inr (.inl ⟨hseen, (if_neg hgate).trans (if_pos hseen)⟩)
    · exact .inr (.inr ⟨hseen, (if_neg hgate).trans (if_neg hseen)⟩)

/-- What holds of the plan after each round. -/
structure Planned (cfg : Settings φ) (env : Surroundings φ) (artifacts : List (Artifact φ))
    (tainted : Bool) (batch : List (ToolCall φ)) (p : Planning φ) : Prop where
  calls : p.plan.map (·.call) = batch
  entry : ∀ e ∈ p.plan, e = entryOf cfg env e.call e.mode
  ledgerSeen : ∀ k ∈ seenIn artifacts, k ∈ p.seen
  seenOnly : ∀ k ∈ p.seen, k ∈ seenIn artifacts ∨ ∃ e ∈ p.plan, e.mode.isDup = false ∧ e.key = k
  runSeen : ∀ e ∈ p.plan, e.mode.isRun → e.key ∈ p.seen
  fresh : ((p.plan.filter (·.mode.isRun)).map (·.key)).Nodup
  unseen : ∀ e ∈ p.plan, e.mode.isRun → e.key ∉ seenIn artifacts
  dup : ∀ e ∈ p.plan, e.mode.isDup →
    e.key ∈ seenIn artifacts ∨ ∃ e' ∈ p.plan, e'.mode.isDup = false ∧ e'.key = e.key
  capped : ∀ name, isWrite env.specs name = false →
    p.plan.countP (fun e => e.call.tool = name && e.mode.isRun) = 0 ∨
      alreadyRun artifacts p.plan name ≤ cfg.turnToolCallCap name
  gated : ∀ e ∈ p.plan, e.mode.isRun → isWrite env.specs e.call.tool →
    (writeMode cfg env tainted e.call.tool e.args).isRun

lemma Planned.start (artifacts : List (Artifact φ)) (tainted : Bool) :
    Planned cfg env artifacts tainted [] (Planning.start artifacts) where
  calls := rfl
  entry e he := by cases he
  ledgerSeen k hk := hk
  seenOnly k hk := .inl hk
  runSeen e he := by cases he
  fresh := .nil
  unseen e he := by cases he
  dup e he := by cases he
  capped name _ := .inl rfl
  gated e he := by cases he

/-- A round that lets nothing in. -/
lemma Planned.add_idle {artifacts : List (Artifact φ)} {tainted : Bool} {batch : List (ToolCall φ)}
    {p : Planning φ} (h : Planned cfg env artifacts tainted batch p) (call : ToolCall φ)
    {mode : Mode φ} (hrun : mode.isRun = false)
    (hdup : mode.isDup → (entryOf cfg env call mode).key ∈ p.seen) :
    Planned cfg env artifacts tainted (batch ++ [call])
      { p with plan := p.plan ++ [entryOf cfg env call mode] } where
  calls := by simp [h.calls, entryOf]
  entry e he := by
    rcases List.mem_append.1 he with he | he
    · exact h.entry e he
    · obtain rfl := List.mem_singleton.1 he
      rfl
  ledgerSeen := h.ledgerSeen
  seenOnly k hk := by
    refine (h.seenOnly k hk).imp_right ?_
    rintro ⟨e, he, hmode, hkey⟩
    exact ⟨e, List.mem_append_left _ he, hmode, hkey⟩
  runSeen e he hmode := by
    rcases List.mem_append.1 he with he | he
    · exact h.runSeen e he hmode
    · obtain rfl := List.mem_singleton.1 he
      exact absurd hmode (by simp [entryOf, hrun])
  fresh := by simpa [List.filter_append, entryOf, hrun] using h.fresh
  unseen e he hmode := by
    rcases List.mem_append.1 he with he | he
    · exact h.unseen e he hmode
    · obtain rfl := List.mem_singleton.1 he
      exact absurd hmode (by simp [entryOf, hrun])
  dup e he hmode := by
    have hseen : e.key ∈ p.seen ∨ e.key ∈ seenIn artifacts ∨
        ∃ e' ∈ p.plan, e'.mode.isDup = false ∧ e'.key = e.key := by
      rcases List.mem_append.1 he with he | he
      · exact .inr (h.dup e he hmode)
      · obtain rfl := List.mem_singleton.1 he
        exact .inl (hdup hmode)
    rcases hseen with hseen | hseen
    · refine (h.seenOnly _ hseen).imp_right ?_
      rintro ⟨e', he', hne, hkey⟩
      exact ⟨e', List.mem_append_left _ he', hne, hkey⟩
    · refine hseen.imp_right ?_
      rintro ⟨e', he', hne, hkey⟩
      exact ⟨e', List.mem_append_left _ he', hne, hkey⟩
  capped name hname := by
    simpa [alreadyRun, List.countP_append, entryOf, hrun] using h.capped name hname
  gated e he hmode := by
    rcases List.mem_append.1 he with he | he
    · exact h.gated e he hmode
    · obtain rfl := List.mem_singleton.1 he
      exact absurd hmode (by simp [entryOf, hrun])

/-- A round in which a call is seen for the first time. -/
lemma Planned.add_new {artifacts : List (Artifact φ)} {tainted : Bool} {batch : List (ToolCall φ)}
    {p : Planning φ} (h : Planned cfg env artifacts tainted batch p) (call : ToolCall φ)
    (hnew : (entryOf cfg env call .skipDup).key ∉ p.seen) :
    Planned cfg env artifacts tainted (batch ++ [call])
      { seen := p.seen ++ [(entryOf cfg env call .skipDup).key]
        plan := p.plan ++ [entryOf cfg env call (gatedMode cfg env artifacts tainted p call.tool
          (finalArgs cfg env call.tool call.args))] } := by
  set mode := gatedMode cfg env artifacts tainted p call.tool
    (finalArgs cfg env call.tool call.args) with hmode
  have hkey : (entryOf cfg env call .skipDup).key = (entryOf cfg env call mode).key := rfl
  rw [hkey] at hnew ⊢
  set new := entryOf cfg env call mode with hnewDef
  have hdup : new.mode.isDup = false := by
    rw [hnewDef, hmode]
    exact gatedMode_isDup artifacts tainted p call.tool _
  have hledger : new.key ∉ seenIn artifacts := fun hk => hnew (h.ledgerSeen _ hk)
  constructor
  · simp [h.calls, hnewDef, entryOf]
  · intro e he
    rcases List.mem_append.1 he with he | he
    · exact h.entry e he
    · obtain rfl := List.mem_singleton.1 he
      rfl
  · exact fun k hk => List.mem_append_left _ (h.ledgerSeen k hk)
  · intro k hk
    rcases List.mem_append.1 hk with hk | hk
    · refine (h.seenOnly k hk).imp_right ?_
      rintro ⟨e, he, hne, hek⟩
      exact ⟨e, List.mem_append_left _ he, hne, hek⟩
    · obtain rfl := List.mem_singleton.1 hk
      exact .inr ⟨new, by simp, hdup, rfl⟩
  · intro e he hrun
    rcases List.mem_append.1 he with he | he
    · exact List.mem_append_left _ (h.runSeen e he hrun)
    · obtain rfl := List.mem_singleton.1 he
      simp
  · rw [List.filter_append, List.map_append]
    refine List.Nodup.append h.fresh ?_ ?_
    · by_cases hrun : new.mode.isRun <;> simp [hrun]
    · intro k hk hk'
      obtain ⟨e, he, rfl⟩ := List.mem_map.1 hk
      obtain ⟨hein, herun⟩ := List.mem_filter.1 he
      obtain ⟨e', he', hkeys⟩ := List.mem_map.1 hk'
      obtain rfl := List.mem_singleton.1 (List.mem_of_mem_filter he')
      exact hnew (hkeys ▸ h.runSeen e hein herun)
  · intro e he hrun
    rcases List.mem_append.1 he with he | he
    · exact h.unseen e he hrun
    · obtain rfl := List.mem_singleton.1 he
      exact hledger
  · intro e he hedup
    rcases List.mem_append.1 he with he | he
    · refine (h.dup e he hedup).imp_right ?_
      rintro ⟨e', he', hne, hek⟩
      exact ⟨e', List.mem_append_left _ he', hne, hek⟩
    · obtain rfl := List.mem_singleton.1 he
      rw [hdup] at hedup
      cases hedup
  · intro name hname
    simp only [alreadyRun, List.countP_append, List.countP_singleton]
    by_cases hin : new.call.tool = name ∧ new.mode.isRun
    · right
      have hread : (readMode cfg env (alreadyRun artifacts p.plan call.tool) call.tool
          (finalArgs cfg env call.tool call.args)).isRun := by
        have hgated := hin.2
        have htool : isWrite env.specs call.tool = false := hin.1 ▸ hname
        rwa [hnewDef, entryOf, hmode, gatedMode, htool, if_neg (by simp)] at hgated
      have hlt := lt_cap_of_readMode hread
      have htool : call.tool = name := hin.1
      rw [htool, alreadyRun] at hlt
      simp only [hin.1, hin.2, decide_true, Bool.and_self, if_true]
      omega
    · have hnot : (decide (new.call.tool = name) && new.mode.isRun) = false := by
        simpa [Bool.and_eq_false_iff, not_and] using hin
      simpa [hnot, alreadyRun] using h.capped name hname
  · intro e he hrun hwrite
    rcases List.mem_append.1 he with he | he
    · exact h.gated e he hrun hwrite
    · obtain rfl := List.mem_singleton.1 he
      have htool : isWrite env.specs call.tool = true := hwrite
      rw [hnewDef, entryOf, hmode, gatedMode, htool, if_pos rfl] at hrun
      exact hrun

lemma Planned.add {artifacts : List (Artifact φ)} {tainted : Bool} {batch : List (ToolCall φ)}
    {p : Planning φ} (h : Planned cfg env artifacts tainted batch p) (call : ToolCall φ) :
    Planned cfg env artifacts tainted (batch ++ [call])
      (p.add cfg env artifacts tainted call) := by
  rcases p.add_cases cfg env artifacts tainted call with
    heq | ⟨hseen, heq⟩ | ⟨hnew, heq⟩
  · rw [heq]
    exact h.add_idle call rfl fun hdup => by cases hdup
  · rw [heq]
    exact h.add_idle call rfl fun _ => hseen
  · rw [heq]
    exact h.add_new call hnew

lemma planned_foldl {artifacts : List (Artifact φ)} {tainted : Bool} (batch : List (ToolCall φ))
    {before : List (ToolCall φ)} {p : Planning φ}
    (h : Planned cfg env artifacts tainted before p) :
    Planned cfg env artifacts tainted (before ++ batch)
      (batch.foldl (Planning.add cfg env artifacts tainted) p) := by
  induction batch generalizing before p with
  | nil => simpa using h
  | cons call batch ih =>
    rw [List.append_cons, List.foldl_cons]
    exact ih (h.add call)

/-- The plan of a batch. -/
theorem planBatch_planned (cfg : Settings φ) (env : Surroundings φ) (s : Turn φ)
    (batch : List (ToolCall φ)) :
    Planned cfg env s.artifacts (batchTainted s.contextTainted batch) batch
      (planBatch cfg env s batch) :=
  planned_foldl batch (Planned.start s.artifacts _)

/-! ### What a call leaves -/

/-- What holds of what a call leaves. -/
structure Wrote (env : Surroundings φ) (e : PlanEntry φ) (w : Written φ) : Prop where
  silent : w.artifact = none ↔ e.mode.isDup
  key : ∀ a ∈ w.artifact, a.key = e.key
  executed : ∀ a ∈ w.artifact, a.isExecuted → e.mode.isRun
  /-- A write is always waited for. -/
  waited : isWrite env.specs e.call.tool → ∀ a ∈ w.artifact, a.abandoned = false
  evidence : ∀ a ∈ w.evidence, a.tool = Text.ofString "calculate_commute"
  tainted : taintOf e.call.tool w.rendered → w.tainted

omit [FloatFormat φ] in
/-- A call with one entry of its own. -/
lemma Wrote.of_artifact {e : PlanEntry φ} {w : Written φ} {a : Artifact φ}
    (hdup : e.mode.isDup = false) (ha : w.artifact = some a) (hkey : a.key = e.key)
    (hexec : a.isExecuted → e.mode.isRun)
    (hwait : isWrite env.specs e.call.tool → a.abandoned = false)
    (hev : ∀ a ∈ w.evidence, a.tool = Text.ofString "calculate_commute")
    (htaint : taintOf e.call.tool w.rendered → w.tainted) : Wrote env e w where
  silent := by simp [ha, hdup]
  key b hb := by
    rw [ha] at hb
    cases hb
    exact hkey
  executed b hb := by
    rw [ha] at hb
    cases hb
    exact hexec
  waited hw b hb := by
    rw [ha] at hb
    cases hb
    exact hwait hw
  evidence := hev
  tainted := htaint

/-- A refused call leaves an entry that counts as not run. -/
lemma refused_wrote (cfg : Settings φ) (turn : Nat) {e : PlanEntry φ} (hrun : e.mode.isRun = false) :
    Wrote env e (refused cfg turn e.call.tool e.digest e.mode) := by
  have hrefuse {mode : Mode φ} {w : Written φ} {error : Text} (hmode : e.mode = mode)
      (hdup : mode.isDup = false)
      (ha : w.artifact = some (notRun turn e.call.tool e.digest error)) (hev : w.evidence = [])
      (htaint : w.rendered = .null) : Wrote env e w := by
    refine Wrote.of_artifact (hmode ▸ hdup) ha rfl (fun h => ?_) (fun _ => rfl) (by simp [hev])
      (by simp [htaint, taintOf])
    simp [Artifact.isExecuted, notRun] at h
  cases hmode : e.mode with
  | run =>
    rw [hmode] at hrun
    cases hrun
  | skipDup =>
    exact ⟨by simp [refused, hmode, Mode.isDup], by simp [refused], by simp [refused],
      by simp [refused], by simp [refused], by simp [refused, taintOf]⟩
  | gateOpen => exact hrefuse hmode rfl rfl rfl rfl
  | denyCap cap => exact hrefuse hmode rfl rfl rfl rfl
  | denyRecall => exact hrefuse hmode rfl rfl rfl rfl
  | denyPaused => exact hrefuse hmode rfl rfl rfl rfl
  | denyUnavailable => exact hrefuse hmode rfl rfl rfl rfl
  | deny frozen => exact hrefuse hmode rfl rfl rfl rfl
  | denyPolicy denial => exact hrefuse hmode rfl rfl rfl rfl

omit [FloatFormat φ] in
lemma finishedCall_wrote (cfg : Settings φ) (turn : Nat) {e : PlanEntry φ} (hrun : e.mode.isRun)
    (hdup : e.mode.isDup = false) (r : Tools.ToolResult φ)
    (validated : JsonValue φ × List (CommuteEvidence φ)) :
    Wrote env e (finishedCall cfg env turn e.call.tool e.digest r validated) := by
  unfold finishedCall
  split_ifs
  · refine Wrote.of_artifact hdup rfl rfl (fun _ => hrun) (fun _ => rfl) ?_ id
    intro a ha
    obtain ⟨ev, -, rfl⟩ := List.mem_map.1 ha
    rfl
  · exact Wrote.of_artifact hdup rfl rfl (fun _ => hrun) (fun _ => rfl)
      (fun a ha => absurd ha (by simp [shown])) id

/-- What the call of an entry leaves. -/
lemma written_wrote (cfg : Settings φ) (env : Surroundings φ) (out : Outcomes φ) (turn : Nat)
    (e : PlanEntry φ) (i : Nat) : Wrote env e (written cfg env out turn e i) := by
  by_cases hrun : e.mode.isRun
  · have hmode : e.mode = .run := by
      cases hm : e.mode <;> simp [hm, Mode.isRun] at hrun ⊢
    have hdup : e.mode.isDup = false := by rw [hmode]; rfl
    simp only [written, hmode]
    cases out.budget with
    | softExhausted =>
      exact Wrote.of_artifact hdup rfl rfl (fun _ => hrun) (fun _ => rfl)
        (fun a ha => absurd ha (by simp [refusal])) (by simp [refusal, taintOf])
    | turnExhausted =>
      exact Wrote.of_artifact hdup rfl rfl (fun _ => hrun) (fun _ => rfl) (by simp)
        (by simp [taintOf])
    | remaining =>
      dsimp only
      by_cases hwrite : isWrite env.specs e.call.tool
      · rw [if_pos hwrite]
        cases out.write i with
        | finished r => exact finishedCall_wrote cfg turn hrun hdup r _
        | timedOut error =>
          exact Wrote.of_artifact hdup rfl rfl (fun _ => hrun) (fun _ => rfl) (by simp [writeDone])
            (by simp [writeDone, taintOf])
      · rw [if_neg hwrite]
        cases out.read i with
        | finished r => exact finishedCall_wrote cfg turn hrun hdup r _
        | timedOut error starved =>
          exact Wrote.of_artifact hdup rfl rfl (fun _ => hrun) (fun h => absurd h hwrite)
            (by simp [readDone, shown]) (by simp [readDone, shown, failedCall, taintOf])
        | abandoned error starved =>
          exact Wrote.of_artifact hdup rfl rfl (fun _ => hrun) (fun h => absurd h hwrite)
            (by simp [readDone]) (by simp [readDone, taintOf])
        | specialistDenied error =>
          exact Wrote.of_artifact hdup rfl rfl (fun _ => hrun) (fun h => absurd h hwrite)
            (by simp [readDone, shown]) (by simp [readDone, shown, failedCall, taintOf])
        | specialistUnknown error =>
          exact Wrote.of_artifact hdup rfl rfl (fun _ => hrun) (fun h => absurd h hwrite)
            (by simp [readDone, shown]) (by simp [readDone, shown, failedCall, taintOf])
  · have hrun : e.mode.isRun = false := by simpa using hrun
    have hwritten : written cfg env out turn e i =
        refused cfg turn e.call.tool e.digest e.mode := by
      cases hm : e.mode with
      | run =>
        rw [hm] at hrun
        cases hrun
      | _ => simp [written, hm]
    rw [hwritten]
    exact refused_wrote cfg turn hrun

end RentCompass.Agent
