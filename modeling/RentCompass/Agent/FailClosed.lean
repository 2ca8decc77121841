import RentCompass.Agent.Specialists

/-!
# A specialist batch is a fail-closed partition

Every eligible read call is prepared or rejected, and nothing else is; what is prepared carries
the manager's arguments and the read-only tools of its role; and it is let through only while the
live tool is the one it was prepared for.
-/

namespace RentCompass.Agent

variable {φ : Type} [FloatFormat φ]

/-- The call belongs to a specialist. -/
def ReadCall.eligible (call : ReadCall φ) : Bool := (specialistEligibleRole call.toolName).isSome

/-- Two live tools are the same in every field the boundary pins. -/
structure ToolSpec.Unchanged (spec spec' : ToolSpec φ) : Prop where
  name : spec.name = spec'.name
  version : spec.version = spec'.version
  sideEffect : spec.sideEffect = spec'.sideEffect
  terminal : spec.terminal = spec'.terminal
  retrySafe : spec.retrySafe = spec'.retrySafe
  maxRetries : spec.maxRetries = spec'.maxRetries
  retryOnError : spec.retryOnError = spec'.retryOnError
  inputModelRef : spec.inputModelRef = spec'.inputModelRef
  outputModelRef : spec.outputModelRef = spec'.outputModelRef
  /-- As `dict`s compare. -/
  inputSchema : (JsonValue.obj spec.inputSchema).sorted = (JsonValue.obj spec'.inputSchema).sorted

/-- SHA-256 does not collide on what these two tools are digested from. -/
structure Hashing.Separates (hash : Hashing) (spec spec' : ToolSpec φ) : Prop where
  schema : ∀ t t', spec.schemaText = some t → spec'.schemaText = some t' →
    hash.sha256 t = hash.sha256 t' → t = t'
  security : ∀ t t', spec.securityText hash = .ok t → spec'.securityText hash = .ok t' →
    hash.sha256 t = hash.sha256 t' → t = t'

/-- A prepared call has the arguments of the manager's call and the authority of its role. -/
structure PreparedFor (calls : List (ReadCall φ)) (specs : List (ToolSpec φ))
    (plan : TaskPlan φ) (prepared : PreparedCall) : Prop where
  /-- The arguments are sealed as they are, `dict`s compared as `dict`s. -/
  args : ∃ call ∈ calls, call.index = prepared.index ∧ call.toolName = prepared.toolName ∧
    ∃ fields distinct, call.args = .fields fields distinct ∧
      prepared.args = some (JsonValue.obj fields).sorted ∧
      ∀ key ∈ fields.keys, reservedKey key = false
  role : specialistEligibleRole prepared.toolName = some prepared.role
  grant : prepared.grant.name = prepared.toolName ∧
    ∃ task ∈ plan.tasks, task.role = prepared.role ∧ prepared.grant ∈ task.tools

/-- What the caller may rely on when a batch was prepared. -/
structure FailClosed (hash : Hashing) (calls : List (ReadCall φ)) (specs : List (ToolSpec φ))
    (batch : PreparedBatch φ) : Prop where
  /-- The prepared and the rejected calls are the eligible ones. -/
  partition : (batch.calls.map (·.index) ++ batch.rejected.map (·.1)).Perm
    ((calls.filter (·.eligible)).map (·.index))
  /-- No call is in both. -/
  once : (batch.calls.map (·.index) ++ batch.rejected.map (·.1)).Nodup
  prepared : ∀ prepared ∈ batch.calls, PreparedFor calls specs batch.plan prepared
  grants : ∀ task ∈ batch.plan.tasks, ∀ grant ∈ task.tools,
    ∃ spec ∈ specs, Grantable task.role grant.name spec
  budget : (batch.calls.map (·.argsJson.utf8Length)).sum ≤ maxBatchArgsBytes
  /-- A call is accepted at dispatch only while its tool is the one it was prepared for. -/
  revalidated : ∀ index live prepared,
    revalidateSpecialistCall hash batch index live = .ok prepared →
    prepared ∈ batch.calls ∧ prepared.index = index ∧
    ∃ spec ∈ specs, ∃ spec' ∈ live, spec.name = prepared.toolName ∧
      spec'.name = prepared.toolName ∧ (hash.Separates spec spec' → spec.Unchanged spec')
  /-- No eligible call is dispatched with the manager's authority. -/
  restricted : ∀ live, ∀ call ∈ calls, call.eligible →
    readAuthority hash (.ok batch) live call ≠ .manager

/-! ### Sealing one call -/

lemma snapshotCall_ok {call : ReadCall φ} {entry : SealedCall φ}
    (h : snapshotCall call = .ok entry) :
    entry.call = call ∧ ∃ fields distinct, call.args = .fields fields distinct ∧
      (∀ key ∈ fields.keys, reservedKey key = false) ∧
      (JsonValue.obj fields).canonical maxCallArgsBytes = .ok entry.argsJson := by
  simp only [snapshotCall, Except.bind_eq_ok, Except.ensure_eq_ok] at h
  obtain ⟨-, -, h⟩ := h
  split at h
  · cases h
  · cases h
  · next fields distinct hargs =>
    simp only [Except.bind_eq_ok, Except.ensure_eq_ok, canonicalJson, Except.mapError_eq_ok] at h
    obtain ⟨-, hkeys, -, -, -, -, -, -, argsJson, hjson, h⟩ := h
    cases h
    refine ⟨rfl, fields, distinct, hargs, ?_, hjson⟩
    intro key hkey
    simpa using List.all_eq_true.1 hkeys key hkey

/-! ### Sorting the calls -/

omit [FloatFormat φ] in
lemma Buckets.flatMap_add (role : SpecialistRole) (entry : SealedCall φ) (buckets : Buckets φ) :
    ((buckets.add role entry).flatMap (·.2)).Perm (entry :: buckets.flatMap (·.2)) := by
  induction buckets with
  | nil => simp [Buckets.add]
  | cons bucket buckets ih =>
    obtain ⟨r, entries⟩ := bucket
    by_cases hr : r = role
    · simp only [Buckets.add, hr, if_true, List.flatMap_cons, List.append_assoc]
      exact List.perm_middle
    · simp only [Buckets.add, hr, if_false, List.flatMap_cons]
      exact (ih.append_left entries).trans List.perm_middle

omit [FloatFormat φ] in
lemma Buckets.mem_add {role : SpecialistRole} {entry : SealedCall φ} {buckets : Buckets φ}
    {bucket : SpecialistRole × List (SealedCall φ)} (h : bucket ∈ buckets.add role entry)
    {e : SealedCall φ} (he : e ∈ bucket.2) :
    (e = entry ∧ bucket.1 = role) ∨ ∃ b ∈ buckets, b.1 = bucket.1 ∧ e ∈ b.2 := by
  induction buckets with
  | nil =>
    simp only [Buckets.add, List.mem_singleton] at h
    subst h
    exact .inl ⟨List.mem_singleton.1 he, rfl⟩
  | cons b buckets ih =>
    obtain ⟨r, entries⟩ := b
    by_cases hr : r = role
    · simp only [Buckets.add, hr, if_true, List.mem_cons] at h
      rcases h with rfl | h
      · rcases List.mem_append.1 he with he | he
        · exact .inr ⟨(r, entries), List.mem_cons_self, hr, he⟩
        · exact .inl ⟨List.mem_singleton.1 he, rfl⟩
      · exact .inr ⟨bucket, List.mem_cons_of_mem _ h, rfl, he⟩
    · simp only [Buckets.add, hr, if_false, List.mem_cons] at h
      rcases h with rfl | h
      · exact .inr ⟨_, List.mem_cons_self, rfl, he⟩
      · rcases ih h with hnew | ⟨b, hb, hrole, he⟩
        · exact .inl hnew
        · exact .inr ⟨b, List.mem_cons_of_mem _ hb, hrole, he⟩

/-- The loop's state after some of the calls. -/
structure Sorting.Sorted (done : List (ReadCall φ)) (s : Sorting φ) : Prop where
  partition : ((s.buckets.flatMap (·.2)).map (·.call.index) ++ s.rejected.map (·.1)).Perm
    ((done.filter (·.eligible)).map (·.index))
  sealed : ∀ bucket ∈ s.buckets, ∀ entry ∈ bucket.2, entry.call ∈ done ∧
    snapshotCall entry.call = .ok entry ∧
    specialistEligibleRole entry.call.toolName = some bucket.1
  total : ((s.buckets.flatMap (·.2)).map (·.argsJson.utf8Length)).sum = s.totalArgs
  budget : s.totalArgs ≤ maxBatchArgsBytes

lemma Sorting.sorted_empty : Sorting.Sorted [] (Sorting.empty : Sorting φ) where
  partition := .nil
  sealed := by simp [Sorting.empty]
  total := rfl
  budget := Nat.zero_le _

lemma Sorting.Sorted.reject {done : List (ReadCall φ)} {s : Sorting φ} (h : s.Sorted done)
    {call : ReadCall φ} (hcall : call.eligible) (error : DispatchError) :
    (s.reject call.index error).Sorted (done ++ [call]) where
  partition := by
    have := h.partition.append_right [call.index]
    simpa [Sorting.reject, hcall] using this
  sealed bucket hb entry he := by
    obtain ⟨hd, hs⟩ := h.sealed bucket hb entry he
    exact ⟨List.mem_append_left _ hd, hs⟩
  total := h.total
  budget := h.budget

lemma Sorting.Sorted.accept {done : List (ReadCall φ)} {s : Sorting φ} (h : s.Sorted done)
    {call : ReadCall φ} {role : SpecialistRole} {entry : SealedCall φ}
    (hrole : specialistEligibleRole call.toolName = some role)
    (hsnap : snapshotCall call = .ok entry)
    (hfits : s.totalArgs + entry.argsJson.utf8Length ≤ maxBatchArgsBytes) :
    (s.accept role entry).Sorted (done ++ [call]) := by
  have hcall : entry.call = call := (snapshotCall_ok hsnap).1
  have helig : call.eligible := by simp [ReadCall.eligible, hrole]
  have hperm := Buckets.flatMap_add role entry s.buckets
  constructor
  · have hnew : ((s.buckets.add role entry).flatMap (·.2)).map (·.call.index) ++
        s.rejected.map (·.1) |>.Perm (call.index ::
          ((s.buckets.flatMap (·.2)).map (·.call.index) ++ s.rejected.map (·.1))) := by
      simpa [hcall] using (hperm.map (·.call.index)).append_right (s.rejected.map (·.1))
    refine hnew.trans ((h.partition.cons call.index).trans ?_)
    simpa [helig] using (List.perm_append_singleton call.index _).symm
  · intro bucket hb e he
    rcases Buckets.mem_add hb he with ⟨rfl, hr⟩ | ⟨b, hb, hr, he⟩
    · exact ⟨by simp [hcall], by rw [hcall, hsnap], by rw [hcall, hrole, hr]⟩
    · obtain ⟨hd, hs, he⟩ := h.sealed b hb e he
      exact ⟨List.mem_append_left _ hd, hs, hr ▸ he⟩
  · have hsum := (hperm.map (·.argsJson.utf8Length)).sum_eq
    simp only [List.map_cons, List.sum_cons, h.total] at hsum
    exact hsum.trans (Nat.add_comm _ _)
  · exact hfits

lemma Sorting.Sorted.sort {done : List (ReadCall φ)} {s : Sorting φ} (h : s.Sorted done)
    (call : ReadCall φ) : (s.sort call).Sorted (done ++ [call]) := by
  unfold Sorting.sort
  split
  · next hrole =>
    have helig : call.eligible = false := by simp [ReadCall.eligible, hrole]
    refine ⟨by simpa [helig] using h.partition, ?_, h.total, h.budget⟩
    intro bucket hb entry he
    obtain ⟨hd, hs⟩ := h.sealed bucket hb entry he
    exact ⟨List.mem_append_left _ hd, hs⟩
  · next role hrole =>
    have helig : call.eligible := by simp [ReadCall.eligible, hrole]
    split
    · exact h.reject helig _
    · next entry hsnap =>
      by_cases hfits : maxBatchArgsBytes < s.totalArgs + entry.argsJson.utf8Length
      · rw [if_pos hfits]
        exact h.reject helig _
      · rw [if_neg hfits]
        exact h.accept hrole hsnap (not_lt.1 hfits)

/-- The loop sorts all calls. -/
lemma Sorting.sorted_foldl (calls : List (ReadCall φ)) :
    (calls.foldl Sorting.sort Sorting.empty).Sorted calls := by
  have key : ∀ (rest done : List (ReadCall φ)) (s : Sorting φ), s.Sorted done →
      (rest.foldl Sorting.sort s).Sorted (done ++ rest) := by
    intro rest
    induction rest with
    | nil =>
      intro done s h
      simpa using h
    | cons call rest ih =>
      intro done s h
      simpa using ih (done ++ [call]) (s.sort call) (h.sort call)
  simpa using key calls [] Sorting.empty Sorting.sorted_empty

/-! ### What is prepared -/

variable {hash : Hashing} {ctx : BatchContext}

/-- What preparing a sealed call keeps of it. -/
structure PreparedFrom (hash : Hashing) (specs : List (ToolSpec φ)) (role : SpecialistRole)
    (grants : List ReadOnlyToolGrant) (entry : SealedCall φ) (prepared : PreparedCall) : Prop where
  index : prepared.index = entry.call.index
  toolName : prepared.toolName = entry.call.toolName
  argsJson : prepared.argsJson = entry.argsJson
  role : prepared.role = role
  grant : prepared.grant ∈ grants ∧ prepared.grant.name = prepared.toolName
  spec : ∃ spec ∈ specs, spec.name = prepared.toolName ∧
    spec.securityDigest hash = .ok prepared.specDigest

lemma prepareCall_ok {specs : List (ToolSpec φ)} {ids : BatchIds} {role : SpecialistRole}
    {taskId : Text} {grants : List ReadOnlyToolGrant} {entry : SealedCall φ}
    {prepared : PreparedCall}
    (h : prepareCall hash ctx specs ids role taskId grants entry = .ok prepared) :
    PreparedFrom hash specs role grants entry prepared := by
  simp only [prepareCall, Except.bind_eq_ok, Except.ofOption_eq_ok] at h
  obtain ⟨spec, hspec, digest, hdigest, callId, -, grant, hgrant, artifactId, -, h⟩ := h
  cases h
  refine ⟨rfl, rfl, rfl, rfl, ⟨List.mem_of_find?_eq_some hgrant, ?_⟩,
    spec, List.mem_of_find?_eq_some hspec, ?_, hdigest⟩
  · simpa using List.find?_some hgrant
  · simpa using List.find?_some hspec

lemma SpecialistTask.make_some {taskId parentTaskId : Text} {role : SpecialistRole}
    {objective : Text} {tools : List ReadOnlyToolGrant} {inputs : Dict (JsonValue φ)}
    {task : SpecialistTask φ}
    (h : SpecialistTask.make taskId parentTaskId role objective tools inputs = some task) :
    task.role = role ∧ task.tools = tools := by
  simp only [SpecialistTask.make, Option.bind_eq_bind, Option.bind_eq_some_iff] at h
  obtain ⟨_, -, _, -, _, -, h⟩ := h
  split_ifs at h
  cases h
  exact ⟨rfl, rfl⟩

/-- A role's task and its calls. -/
structure TaskFrom (hash : Hashing) (specs : List (ToolSpec φ))
    (bucket : SpecialistRole × List (SealedCall φ)) (t : PreparedTask φ) : Prop where
  role : t.task.role = bucket.1
  grants : ∀ grant ∈ t.task.tools, ∃ spec ∈ specs, Grantable bucket.1 grant.name spec
  calls : List.Forall₂ (PreparedFrom hash specs bucket.1 t.task.tools) bucket.2 t.calls

lemma prepareTask_ok {specs : List (ToolSpec φ)} {ids : BatchIds}
    {bucket : SpecialistRole × List (SealedCall φ)} {t : PreparedTask φ}
    (h : prepareTask hash ctx specs ids bucket = .ok t) : TaskFrom hash specs bucket t := by
  simp only [prepareTask, Except.bind_eq_ok, Except.ofOption_eq_ok] at h
  obtain ⟨grants, hgrants, inputs, -, task, htask, calls, hcalls, h⟩ := h
  cases h
  obtain ⟨hrole, htools⟩ := SpecialistTask.make_some htask
  refine ⟨hrole, ?_, ?_⟩
  · intro grant hgrant
    exact grantReadOnlyToolsForRole_some hgrants grant (htools ▸ hgrant)
  · refine (List.forall₂_of_mapM_ok hcalls).imp fun entry prepared hp => ?_
    rw [htools]
    exact prepareCall_ok hp

/-- The batch, as the steps that prepared it left it. -/
lemma prepareSpecialistBatch_ok {calls : List (ReadCall φ)} {specs : List (ToolSpec φ)}
    {batch : PreparedBatch φ} (h : prepareSpecialistBatch hash ctx calls specs = .ok batch) :
    (calls.map (·.index)).Nodup ∧
    batch.rejected = (calls.foldl Sorting.sort Sorting.empty).rejected ∧
    ∃ tasks, List.Forall₂ (TaskFrom hash specs)
        (calls.foldl Sorting.sort Sorting.empty).buckets tasks ∧
      batch.plan.tasks = tasks.map (·.task) ∧ batch.calls = tasks.flatMap (·.calls) := by
  simp only [prepareSpecialistBatch, Except.bind_eq_ok, Except.ensure_eq_ok] at h
  obtain ⟨-, -, -, hnodup, -, -, -, -, ids, -, tasks, htasks, plan, hplan, h⟩ := h
  cases h
  refine ⟨hnodup, rfl, tasks, ?_, ?_, rfl⟩
  · exact (List.forall₂_of_mapM_ok htasks).imp fun bucket t ht => prepareTask_ok ht
  · simp only [makePlan, Except.bind_eq_ok, Except.ofOption_eq_ok, Except.mapError_eq_ok] at hplan
    obtain ⟨made, hmade, -, -, hplan⟩ := hplan
    cases hplan
    simp only [TaskPlan.make, Option.bind_eq_bind, Option.bind_eq_some_iff] at hmade
    obtain ⟨_, -, _, -, hmade⟩ := hmade
    split_ifs at hmade
    cases hmade
    rfl

/-- Preparing keeps what is computed from the sealed calls alone. -/
lemma map_calls_eq {α : Type} {specs : List (ToolSpec φ)} {buckets : Buckets φ}
    {tasks : List (PreparedTask φ)} (h : List.Forall₂ (TaskFrom hash specs) buckets tasks)
    {f : PreparedCall → α} {g : SealedCall φ → α}
    (hfg : ∀ role grants entry prepared, PreparedFrom hash specs role grants entry prepared →
      f prepared = g entry) :
    (tasks.flatMap (·.calls)).map f = (buckets.flatMap (·.2)).map g := by
  induction h with
  | nil => rfl
  | cons ht _ ih =>
    simp only [List.flatMap_cons, List.map_append, ih]
    rw [ht.calls.map_eq (hfg _ _)]

lemma preparedFrom_of_mem {specs : List (ToolSpec φ)} {buckets : Buckets φ}
    {tasks : List (PreparedTask φ)} (h : List.Forall₂ (TaskFrom hash specs) buckets tasks)
    {prepared : PreparedCall} (hp : prepared ∈ tasks.flatMap (·.calls)) :
    ∃ bucket ∈ buckets, ∃ entry ∈ bucket.2, ∃ t ∈ tasks, t.task.role = bucket.1 ∧
      PreparedFrom hash specs bucket.1 t.task.tools entry prepared := by
  obtain ⟨t, ht, hp⟩ := List.mem_flatMap.1 hp
  obtain ⟨bucket, hb, htask⟩ := h.exists_left ht
  obtain ⟨entry, he, hp⟩ := htask.calls.exists_left hp
  exact ⟨bucket, hb, entry, he, t, ht, htask.role, hp⟩

/-! ### The live tool -/

lemma revalidateSpecialistCall_ok {batch : PreparedBatch φ} {index : Nat}
    {live : List (ToolSpec φ)} {prepared : PreparedCall}
    (h : revalidateSpecialistCall hash batch index live = .ok prepared) :
    prepared ∈ batch.calls ∧ prepared.index = index ∧ ∃ spec ∈ live,
      spec.name = prepared.toolName ∧ spec.securityDigest hash = .ok prepared.specDigest := by
  simp only [revalidateSpecialistCall, Except.bind_eq_ok, Except.ofOption_eq_ok,
    Except.ensure_eq_ok] at h
  obtain ⟨call, hcall, task, -, -, -, grant, -, -, -, -, -, spec, hspec, -, -, digest, hdigest,
    -, hsame, h⟩ := h
  cases h
  refine ⟨List.mem_of_find?_eq_some hcall, by simpa using List.find?_some hcall, spec,
    List.mem_of_find?_eq_some hspec, by simpa using List.find?_some hspec, ?_⟩
  rw [hdigest, hsame]

lemma ToolSpec.securityText_ok {spec : ToolSpec φ} {t : Text} (h : spec.securityText hash = .ok t) :
    ∃ text payload, spec.schemaText = some text ∧ spec.payload hash = some payload ∧
      payload.canonical maxCallArgsBytes = .ok t := by
  simp only [ToolSpec.securityText, Except.bind_eq_ok, Except.ofOption_eq_ok, canonicalJson,
    Except.mapError_eq_ok] at h
  obtain ⟨payload, hpayload, ht⟩ := h
  have hschema := hpayload
  simp only [ToolSpec.payload, ToolSpec.schemaDigest, Option.map_map, Option.map_eq_some_iff]
    at hschema
  obtain ⟨text, htext, -⟩ := hschema
  exact ⟨text, payload, htext, hpayload, ht⟩

lemma ToolSpec.schemaText_some {spec : ToolSpec φ} {text : Text} (h : spec.schemaText = some text) :
    (JsonValue.obj spec.inputSchema).canonical maxToolInputSchemaBytes = .ok text := by
  unfold ToolSpec.schemaText at h
  cases hc : (JsonValue.obj spec.inputSchema).canonical maxToolInputSchemaBytes with
  | error e => simp [hc, Except.toOption] at h
  | ok t => simpa [hc, Except.toOption] using h

lemma ToolSpec.payload_distinctKeys {spec : ToolSpec φ} {payload : JsonValue φ}
    (h : spec.payload hash = some payload) : payload.distinctKeys := by
  simp only [ToolSpec.payload, Option.map_eq_some_iff] at h
  obtain ⟨digest, -, rfl⟩ := h
  refine JsonValue.distinctKeys_obj.2 ⟨?_, ?_⟩
  · have hkeys : (["name", "version", "side_effect", "terminal", "retry_safe", "max_retries",
        "retry_on_error", "input_model_ref", "output_model_ref",
        "input_schema_digest"].map Text.ofString).Nodup := by decide
    exact hkeys
  · simp [JsonValue.distinctKeys, JsonValue.all]

lemma sha256Label_inj {t t' : Text} (h : sha256Label t = sha256Label t') : t = t' :=
  List.append_cancel_left h

/-- Tools with one security digest are the same, unless SHA-256 collides on them. -/
lemma ToolSpec.unchanged [JsonValue.LawfulFloatFormat φ] {spec spec' : ToolSpec φ} {digest : Text}
    (h : spec.securityDigest hash = .ok digest) (h' : spec'.securityDigest hash = .ok digest)
    (hsep : hash.Separates spec spec') : spec.Unchanged spec' := by
  simp only [ToolSpec.securityDigest, Except.bind_eq_ok] at h h'
  obtain ⟨t, ht, h⟩ := h
  obtain ⟨t', ht', h'⟩ := h'
  have hdigest : sha256Label (hash.sha256 t) = sha256Label (hash.sha256 t') := by
    simpa using h.trans h'.symm
  obtain rfl := hsep.security t t' ht ht' (sha256Label_inj hdigest)
  obtain ⟨text, payload, htext, hpayload, hcanon⟩ := ToolSpec.securityText_ok ht
  obtain ⟨text', payload', htext', hpayload', hcanon'⟩ := ToolSpec.securityText_ok ht'
  have hdict := ToolSpec.payload_distinctKeys hpayload
  have hdict' := ToolSpec.payload_distinctKeys hpayload'
  simp only [ToolSpec.payload, ToolSpec.schemaDigest, htext, htext', Option.map_some,
    Option.some.injEq] at hpayload hpayload'
  subst hpayload hpayload'
  have key := JsonValue.get?_of_sorted_eq (JsonValue.distinctKeys_obj.1 hdict).1
    (JsonValue.distinctKeys_obj.1 hdict').1 (JsonValue.canonical_inj hdict hdict' hcanon hcanon')
  have hschema : hash.sha256 text = hash.sha256 text' :=
    sha256Label_inj (JsonValue.str.inj (Option.some.inj
      (key (Text.ofString "input_schema_digest"))))
  exact {
    name := JsonValue.str.inj (Option.some.inj (key (Text.ofString "name")))
    version := JsonValue.str.inj (Option.some.inj (key (Text.ofString "version")))
    sideEffect := JsonValue.str.inj (Option.some.inj (key (Text.ofString "side_effect")))
    terminal := JsonValue.bool.inj (Option.some.inj (key (Text.ofString "terminal")))
    retrySafe := JsonValue.bool.inj (Option.some.inj (key (Text.ofString "retry_safe")))
    maxRetries := JsonValue.int.inj (Option.some.inj (key (Text.ofString "max_retries")))
    retryOnError := JsonValue.bool.inj (Option.some.inj (key (Text.ofString "retry_on_error")))
    inputModelRef := JsonValue.str.inj (Option.some.inj (key (Text.ofString "input_model_ref")))
    outputModelRef := JsonValue.str.inj (Option.some.inj (key (Text.ofString "output_model_ref")))
    inputSchema := by
      obtain rfl := hsep.schema text text' htext htext' hschema
      exact JsonValue.canonical_inj spec.schemaKeys spec'.schemaKeys
        (ToolSpec.schemaText_some htext) (ToolSpec.schemaText_some htext') }

/-! ### Dispatch -/

lemma readAuthority_ne_manager (batch : PreparedBatch φ) (live : List (ToolSpec φ))
    {call : ReadCall φ} (helig : call.eligible) :
    readAuthority hash (.ok batch) live call ≠ .manager := by
  intro h
  simp only [readAuthority] at h
  split at h
  · cases h
  · split_ifs at h with hcall hrole
    · exact hrole helig
    · split at h <;> cases h

/-! ### The batch -/

/-- Where a batch cannot be prepared every eligible call is denied; where it can, the batch is a
fail-closed partition of them. -/
theorem specialist_batch_fail_closed [JsonValue.LawfulFloatFormat φ] (hash : Hashing)
    (ctx : BatchContext) (calls : List (ReadCall φ)) (specs : List (ToolSpec φ)) :
    (∀ error, prepareSpecialistBatch hash ctx calls specs = .error error →
      ∀ live, ∀ call ∈ calls, call.eligible →
        readAuthority hash (.error error) live call = .denied error) ∧
    ∀ batch, prepareSpecialistBatch hash ctx calls specs = .ok batch →
      FailClosed hash calls specs batch := by
  constructor
  · intro error _ live call _ helig
    exact if_pos helig
  · intro batch hbatch
    obtain ⟨hnodup, hrejected, tasks, htasks, hplan, hcalls⟩ := prepareSpecialistBatch_ok hbatch
    have hsorted := Sorting.sorted_foldl calls
    have hindices : batch.calls.map (·.index) =
        ((calls.foldl Sorting.sort Sorting.empty).buckets.flatMap (·.2)).map (·.call.index) := by
      rw [hcalls]
      exact map_calls_eq htasks fun _ _ _ _ hp => hp.index
    have hpartition : (batch.calls.map (·.index) ++ batch.rejected.map (·.1)).Perm
        ((calls.filter (·.eligible)).map (·.index)) := by
      rw [hindices, hrejected]
      exact hsorted.partition
    have honce := hpartition.nodup_iff.2
      (hnodup.sublist ((List.filter_sublist (l := calls)).map (·.index)))
    constructor
    · exact hpartition
    · exact honce
    · intro prepared hp
      obtain ⟨bucket, hb, entry, he, t, ht, hrole, hfrom⟩ :=
        preparedFrom_of_mem htasks (hcalls ▸ hp)
      obtain ⟨hmem, hsnap, helig⟩ := hsorted.sealed bucket hb entry he
      obtain ⟨-, fields, distinct, hargs, hkeys, hjson⟩ := snapshotCall_ok hsnap
      refine ⟨⟨entry.call, hmem, hfrom.index.symm, hfrom.toolName.symm, fields, distinct, hargs,
        ?_, hkeys⟩, ?_, hfrom.grant.2, t.task, ?_, ?_, hfrom.grant.1⟩
      · rw [PreparedCall.args, hfrom.argsJson]
        exact JsonValue.loads_canonical distinct hjson
      · rw [hfrom.toolName, hfrom.role, helig]
      · rw [hplan]
        exact List.mem_map_of_mem ht
      · rw [hrole, hfrom.role]
    · intro task htask grant hgrant
      rw [hplan] at htask
      obtain ⟨t, ht, rfl⟩ := List.mem_map.1 htask
      obtain ⟨bucket, -, hfrom⟩ := htasks.exists_left ht
      rw [hfrom.role]
      exact hfrom.grants grant hgrant
    · have hsizes : batch.calls.map (·.argsJson.utf8Length) =
          ((calls.foldl Sorting.sort Sorting.empty).buckets.flatMap (·.2)).map
            (·.argsJson.utf8Length) := by
        rw [hcalls]
        exact map_calls_eq htasks fun _ _ _ _ hp => by rw [hp.argsJson]
      rw [hsizes, hsorted.total]
      exact hsorted.budget
    · intro index live prepared h
      obtain ⟨hp, hindex, spec', hlive, hname', hdigest'⟩ := revalidateSpecialistCall_ok h
      obtain ⟨_, -, _, -, _, -, -, hfrom⟩ := preparedFrom_of_mem htasks (hcalls ▸ hp)
      obtain ⟨spec, hspec, hname, hdigest⟩ := hfrom.spec
      exact ⟨hp, hindex, spec, hspec, spec', hlive, hname, hname',
        ToolSpec.unchanged hdigest hdigest'⟩
    · intro live call _ helig
      exact readAuthority_ne_manager batch live helig

/-- A live tool of the area role. -/
def safetySpec : ToolSpec NonFinite where
  name := Text.ofString "check_safety"
  inputSchema := [(Text.ofString "type", .str (Text.ofString "object"))]
  schemaKeys := by decide
  sideEffect := Text.ofString "none"
  retrySafe := true

/-- A call of it with one argument. -/
def safetyCall (index : Nat) (key value : String) : ReadCall NonFinite where
  index := index
  toolName := Text.ofString "check_safety"
  args := .fields [(Text.ofString key, .str (Text.ofString value))]
    (by simp [JsonValue.distinctKeys, JsonValue.all, JsonValue.allFields, Dict.keys])
  paramsDigest := Text.ofString "0123456789abcdef"
  toolCallId := none

def firstTurn : BatchContext where
  rootTaskId := Text.ofString "turn:1"
  runId := Text.ofString "run"
  turn := 0

/-- A batch of two calls, one with a reserved argument. -/
theorem specialist_batch_fail_closed_sample : ∃ batch,
    prepareSpecialistBatch Hashing.standard firstTurn
      [safetyCall 0 "area" "Camden", safetyCall 1 "user_id" "x"] [safetySpec] = .ok batch ∧
    (batch.calls.map (·.index), batch.rejected) = ([0], [(1, .reservedArgument)]) ∧
    FailClosed Hashing.standard [safetyCall 0 "area" "Camden", safetyCall 1 "user_id" "x"]
      [safetySpec] batch := by
  have hrun : (prepareSpecialistBatch Hashing.standard firstTurn
      [safetyCall 0 "area" "Camden", safetyCall 1 "user_id" "x"] [safetySpec]).toOption.map
        (fun batch => (batch.calls.map (·.index), batch.rejected)) =
      some ([0], [(1, .reservedArgument)]) := by decide +kernel
  obtain ⟨batch, hbatch, h⟩ := Except.exists_ok_of_toOption_map hrun
  exact ⟨batch, hbatch, h, (specialist_batch_fail_closed Hashing.standard firstTurn
    [safetyCall 0 "area" "Camden", safetyCall 1 "user_id" "x"] [safetySpec]).2 batch hbatch⟩

end RentCompass.Agent
