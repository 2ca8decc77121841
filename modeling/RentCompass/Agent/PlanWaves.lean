import RentCompass.Json.Value
import RentCompass.Waves

/-!
# Waves of a plan

`_plan_wave_depths` walks the dependencies of every task with one memo and a stack against
cycles. What it calls the depth of a task is the wave the task is finished in, if tasks that name
themselves are forgiven.
-/

namespace RentCompass.Agent.Plan

open Waves (FinishedIn others)

variable {φ : Type}

/-- A task of a plan that is being built. -/
structure Task (φ : Type) where
  id : Text
  tool : Text
  params : Dict (JsonValue φ)
  dependsOn : List Text

/-- The tasks `by_id`. -/
def byId (tasks : List (Task φ)) (tid : Text) : Option (Task φ) :=
  tasks.reverse.find? (·.id = tid)

/-- The dict `depth`. -/
abbrev Depths := Dict (Option ℕ)

/-- The loop of `_dfs` over the dependencies: `best`, if all of them have a depth. -/
def longest (dfs : Text → Depths → Option ℕ × Depths) :
    List Text → Option ℕ → Depths → Option (Option ℕ) × Depths
  | [], best, depth => (some best, depth)
  | d :: deps, best, depth =>
    match dfs d depth with
    | (none, depth) => (none, depth)
    | (some dd, depth) =>
      longest dfs deps (some (match best with | none => dd + 1 | some b => max b (dd + 1))) depth

/-- `_dfs`. A call has one more task on the stack than its caller, so the calls in progress are
never more than there are tasks. -/
def dfs (tasks : List (Task φ)) : ℕ → Text → List Text → Depths → Option ℕ × Depths
  | 0, _, _, depth => (none, depth)
  | fuel + 1, tid, stack, depth =>
    match depth.get? tid with
    | some d => (d, depth)
    | none =>
      match byId tasks tid with
      | none => (none, depth)
      | some t =>
        let deps := others Task.id Task.dependsOn t
        if deps.isEmpty then
          (some 0, depth.insert tid (some 0))
        else if tid ∈ stack then
          (none, depth)
        else
          match longest (fun d => dfs tasks fuel d (tid :: stack)) deps none depth with
          | (none, depth) => (none, depth)
          | (some best, depth) => (best, depth.insert tid best)

/-- `depth` when every task has been visited. -/
def visitAll (tasks : List (Task φ)) : Depths :=
  tasks.foldl (fun depth t => (dfs tasks (tasks.length + 1) t.id [] depth).2) []

/-- `_plan_wave_depths`: what it returns for the id of a task. -/
def planWaveDepths (tasks : List (Task φ)) (tid : Text) : Option ℕ :=
  ((visitAll tasks).get? tid).join

/-! ### What a visit finds -/

variable {tasks : List (Task φ)}

variable (tasks) in
/-- The depth of an id: the wave it is finished in. -/
def At (tid : Text) (k : ℕ) : Prop :=
  FinishedIn Task.id (others Task.id Task.dependsOn) tasks tid k

variable (tasks) in
/-- Every depth recorded is right. -/
def Right (depth : Depths) : Prop :=
  ∀ tid d, depth.get? tid = some d → ∃ k, d = some k ∧ At tasks tid k

/-- Whatever is recorded stays recorded. -/
def Keeps (depth depth' : Depths) : Prop :=
  ∀ tid, (depth.get? tid).isSome → (depth'.get? tid).isSome

lemma Keeps.refl (depth : Depths) : Keeps depth depth := fun _ h => h

lemma Keeps.trans {a b c : Depths} (hab : Keeps a b) (hbc : Keeps b c) : Keeps a c :=
  fun tid h => hbc tid (hab tid h)

lemma keeps_insert (depth : Depths) (tid : Text) (d : Option ℕ) :
    Keeps depth (depth.insert tid d) := by
  intro i hi
  rw [Dict.get?_insert]
  split
  · rfl
  · exact hi

lemma Right.insert {depth : Depths} (h : Right tasks depth) {tid : Text} {k : ℕ}
    (hk : At tasks tid k) : Right tasks (depth.insert tid (some k)) := by
  intro i d hd
  rw [Dict.get?_insert] at hd
  split at hd
  · rename_i heq
    cases hd
    exact ⟨k, rfl, heq ▸ hk⟩
  · exact h i d hd

variable (tasks) in
/-- What a visit of `tid` that starts from `depth` may end in. -/
structure Visit (tid : Text) (depth : Depths) (r : Option ℕ × Depths) : Prop where
  right : Right tasks r.2
  keeps : Keeps depth r.2
  found : ∀ k, r.1 = some k ↔ At tasks tid k
  recorded : r.1.isSome → (r.2.get? tid).isSome

variable (tasks) in
/-- What the loop over `deps` that starts from `best` and `depth` may end in. -/
structure Loop (deps : List Text) (best : Option ℕ) (depth : Depths)
    (r : Option (Option ℕ) × Depths) : Prop where
  right : Right tasks r.2
  keeps : Keeps depth r.2
  all : r.1.isSome ↔ ∀ d ∈ deps, ∃ k, At tasks d k
  some_best : ∀ b, r.1 = some b → best.isSome ∨ deps ≠ [] → b.isSome
  upper : ∀ b, r.1 = some (some b) → (∀ a, best = some a → a ≤ b) ∧
    ∀ d ∈ deps, ∀ k, At tasks d k → k + 1 ≤ b
  attained : ∀ b, r.1 = some (some b) → best = some b ∨
    ∃ d ∈ deps, ∃ k, At tasks d k ∧ k + 1 = b

lemma loop_longest {visit : Text → Depths → Option ℕ × Depths} {deps : List Text}
    (hvisit : ∀ d ∈ deps, ∀ depth, Right tasks depth → Visit tasks d depth (visit d depth))
    (best : Option ℕ) {depth : Depths} (hdepth : Right tasks depth) :
    Loop tasks deps best depth (longest visit deps best depth) := by
  induction deps generalizing best depth with
  | nil =>
    refine ⟨hdepth, .refl _, by simp [longest], ?_, ?_, ?_⟩
    · rintro b hb (h | h)
      · cases hb
        exact h
      · exact absurd rfl h
    · intro b hb
      refine ⟨fun a ha => ?_, by simp⟩
      simp only [longest, Option.some.injEq] at hb
      rw [hb] at ha
      exact (Option.some.inj ha).ge
    · intro b hb
      exact Or.inl (Option.some.inj hb)
  | cons d deps ih =>
    have hd := hvisit d (by simp) depth hdepth
    simp only [longest]
    rcases hr : visit d depth with ⟨_ | dd, depth'⟩ <;> rw [hr] at hd
    · refine ⟨hd.right, hd.keeps, ?_, by simp, by simp, by simp⟩
      simp only [Option.isSome_none, Bool.false_eq_true, List.mem_cons, forall_eq_or_imp, false_iff]
      rintro ⟨⟨k, hk⟩, -⟩
      exact absurd ((hd.found k).2 hk) (by simp)
    · have hk : At tasks d dd := (hd.found dd).1 rfl
      have hloop := ih (fun d hd => hvisit d (by simp [hd]))
        (some (match best with | none => dd + 1 | some b => max b (dd + 1))) hd.right
      refine ⟨hloop.right, hd.keeps.trans hloop.keeps, ?_, ?_, ?_, ?_⟩
      · rw [hloop.all]
        simp only [List.mem_cons, forall_eq_or_imp]
        exact ⟨fun h => ⟨⟨dd, hk⟩, h⟩, fun h => h.2⟩
      · intro b hb _
        exact hloop.some_best b hb (Or.inl rfl)
      · intro b hb
        obtain ⟨hbest, hdeps⟩ := hloop.upper b hb
        have hle := hbest _ rfl
        refine ⟨fun a ha => ?_, ?_⟩
        · subst ha
          exact (le_max_left _ _).trans hle
        · simp only [List.mem_cons, forall_eq_or_imp]
          refine ⟨fun k hk' => ?_, hdeps⟩
          obtain rfl := hk.unique hk'
          cases best with
          | none => exact hle
          | some a => exact (le_max_right _ _).trans hle
      · intro b hb
        rcases hloop.attained b hb with h | ⟨e, he, k, hk, rfl⟩
        · cases best with
          | none => exact Or.inr ⟨d, by simp, dd, hk, Option.some.inj h⟩
          | some a =>
            rcases max_choice a (dd + 1) with hmax | hmax
            · exact Or.inl (by rw [← hmax]; exact h)
            · exact Or.inr ⟨d, by simp, dd, hk, by rw [← hmax]; exact Option.some.inj h⟩
        · exact Or.inr ⟨e, by simp [he], k, hk, rfl⟩

lemma byId_eq_some (hids : (tasks.map Task.id).Nodup) {tid : Text} {t : Task φ} :
    byId tasks tid = some t ↔ t ∈ tasks ∧ t.id = tid := by
  constructor
  · intro h
    have hid := List.find?_some h
    exact ⟨List.mem_reverse.1 (List.mem_of_find?_eq_some h), by simpa using hid⟩
  · rintro ⟨ht, rfl⟩
    obtain ⟨u, hu⟩ : ∃ u, byId tasks t.id = some u :=
      Option.isSome_iff_exists.1 (List.find?_isSome.2 ⟨t, List.mem_reverse.2 ht, by simp⟩)
    have hmem := List.mem_reverse.1 (List.mem_of_find?_eq_some hu)
    have hid : u.id = t.id := by simpa using List.find?_some hu
    rw [hu, List.inj_on_of_nodup_map hids hmem ht hid]

/-- What the stack says: a visit in progress waits for every one begun after it. -/
def Waiting (tasks : List (Task φ)) (stack : List Text) (tid : Text) : Prop :=
  ∀ s ∈ stack, ∀ m, At tasks s m → ∃ k < m, At tasks tid k

/-- The tasks not on the stack bound the calls still to come. -/
def Fuelled (tasks : List (Task φ)) (stack : List Text) (fuel : ℕ) : Prop :=
  ((tasks.map Task.id).toFinset \ stack.toFinset).card < fuel

lemma Fuelled.push {stack : List Text} {fuel : ℕ} (h : Fuelled tasks stack (fuel + 1))
    {t : Task φ} (ht : t ∈ tasks) (hnew : t.id ∉ stack) :
    Fuelled tasks (t.id :: stack) fuel := by
  have hlt : (tasks.map Task.id).toFinset \ (t.id :: stack).toFinset ⊂
      (tasks.map Task.id).toFinset \ stack.toFinset := by
    rw [Finset.ssubset_iff_of_subset]
    · refine ⟨t.id, ?_, ?_⟩
      · simp only [Finset.mem_sdiff, List.mem_toFinset]
        exact ⟨List.mem_map_of_mem ht, hnew⟩
      · simp
    · apply Finset.sdiff_subset_sdiff le_rfl
      intro i hi
      simp_all
  have := Finset.card_lt_card hlt
  simp only [Fuelled] at h ⊢
  omega

lemma Waiting.push {stack : List Text} {t : Task φ} (hids : (tasks.map Task.id).Nodup)
    (h : Waiting tasks stack t.id) (ht : t ∈ tasks) {d : Text}
    (hd : d ∈ others Task.id Task.dependsOn t) : Waiting tasks (t.id :: stack) d := by
  have hbelow : ∀ m, At tasks t.id m → ∃ k < m, At tasks d k := by
    intro m hm
    obtain ⟨j, hj, hjm⟩ := ((Waves.finishedIn_iff hids ht (List.ne_nil_of_mem hd)).1 hm).1 d hd
    exact ⟨j, hjm, hj⟩
  intro s hs m hm
  rcases List.mem_cons.1 hs with rfl | hs
  · exact hbelow m hm
  · obtain ⟨k, hk, htk⟩ := h s hs m hm
    obtain ⟨j, hj, hdj⟩ := hbelow k htk
    exact ⟨j, hj.trans hk, hdj⟩

/-- A visit returns the depth of the task, and `None` exactly where it has none. -/
lemma visit_dfs (hids : (tasks.map Task.id).Nodup) (fuel : ℕ) {tid : Text} {stack : List Text}
    {depth : Depths} (hdepth : Right tasks depth) (hwait : Waiting tasks stack tid)
    (hfuel : Fuelled tasks stack fuel) :
    Visit tasks tid depth (dfs tasks fuel tid stack depth) := by
  induction fuel generalizing tid stack depth with
  | zero => exact absurd hfuel (Nat.not_lt_zero _)
  | succ fuel ih =>
    have hnone : (∀ k, ¬ At tasks tid k) → Visit tasks tid depth (none, depth) := by
      intro h
      refine ⟨hdepth, .refl _, fun k => ?_, by simp⟩
      simpa using h k
    simp only [dfs]
    cases hmemo : depth.get? tid with
    | some d =>
      obtain ⟨k, rfl, hk⟩ := hdepth tid d hmemo
      refine ⟨hdepth, .refl _, fun j => ?_, by simp [hmemo]⟩
      simp only [Option.some.injEq]
      exact ⟨fun h => h ▸ hk, hk.unique⟩
    | none =>
      cases htask : byId tasks tid with
      | none =>
        apply hnone
        intro k hk
        obtain ⟨t, ht, hid⟩ := Waves.FinishedIn.mem_keys hk
        rw [(byId_eq_some hids).2 ⟨ht, hid⟩] at htask
        cases htask
      | some t =>
        obtain ⟨ht, rfl⟩ := (byId_eq_some hids).1 htask
        have hinsert : ∀ {depth' : Depths} {k : ℕ}, Right tasks depth' → Keeps depth depth' →
            At tasks t.id k → Visit tasks t.id depth (some k, depth'.insert t.id (some k)) := by
          intro depth' k hright hkeeps hk
          refine ⟨hright.insert hk, hkeeps.trans (keeps_insert _ _ _), fun j => ?_, ?_⟩
          · simp only [Option.some.injEq]
            exact ⟨fun h => h ▸ hk, hk.unique⟩
          · simp [Dict.get?_insert]
        simp only [List.isEmpty_iff]
        split_ifs with hdeps hstack
        · exact hinsert hdepth (.refl _) (Waves.finishedIn_of_needs_nil hids ht hdeps)
        · apply hnone
          intro k hk
          obtain ⟨j, hj, htj⟩ := hwait _ hstack k hk
          exact absurd (htj.unique hk) hj.ne
        · have hvisit : ∀ d ∈ others Task.id Task.dependsOn t, ∀ depth, Right tasks depth →
              Visit tasks d depth (dfs tasks fuel d (t.id :: stack) depth) :=
            fun d hd depth' hright => ih hright (hwait.push hids ht hd) (hfuel.push ht hstack)
          have hloop := loop_longest hvisit none hdepth
          have hat := fun k => Waves.finishedIn_iff hids ht hdeps (k := k)
          rcases hr : longest (fun d => dfs tasks fuel d (t.id :: stack))
            (others Task.id Task.dependsOn t) none depth with ⟨_ | b, depth'⟩ <;> rw [hr] at hloop
          · refine ⟨hloop.right, hloop.keeps, fun k => ?_, by simp⟩
            simp only [reduceCtorEq, false_iff]
            intro hk
            have := hloop.all.2 fun d hd => ((hat k).1 hk).1 d hd |>.imp fun _ h => h.1
            cases this
          · obtain ⟨k, rfl⟩ := Option.isSome_iff_exists.1 (hloop.some_best b rfl (Or.inr hdeps))
            refine hinsert hloop.right hloop.keeps ((hat k).2 ⟨fun d hd => ?_, ?_⟩)
            · obtain ⟨j, hj⟩ := hloop.all.1 rfl d hd
              exact ⟨j, hj, (hloop.upper k rfl).2 d hd j hj⟩
            · exact (hloop.attained k rfl).resolve_left (by simp)

lemma fuelled_nil (tasks : List (Task φ)) : Fuelled tasks [] (tasks.length + 1) := by
  have := List.toFinset_card_le (tasks.map Task.id)
  simp only [Fuelled, List.toFinset_nil, Finset.sdiff_empty]
  simp at this
  omega

lemma visit_root (hids : (tasks.map Task.id).Nodup) (tid : Text) {depth : Depths}
    (hdepth : Right tasks depth) :
    Visit tasks tid depth (dfs tasks (tasks.length + 1) tid [] depth) := by
  apply visit_dfs hids _ hdepth _ (fuelled_nil tasks)
  intro s hs
  cases hs

/-- Visiting some of the tasks records the depth of each that has one. -/
lemma visit_each (hids : (tasks.map Task.id).Nodup) (ts : List (Task φ)) {depth : Depths}
    (hdepth : Right tasks depth) {depth' : Depths}
    (h : ts.foldl (fun d u => (dfs tasks (tasks.length + 1) u.id [] d).2) depth = depth') :
    Right tasks depth' ∧ Keeps depth depth' ∧
      ∀ u ∈ ts, ∀ k, At tasks u.id k → (depth'.get? u.id).isSome := by
  induction ts generalizing depth with
  | nil =>
    cases h
    exact ⟨hdepth, .refl _, by simp⟩
  | cons u ts ih =>
    have hu := visit_root hids u.id hdepth
    obtain ⟨hright, hkeeps, hrec⟩ := ih hu.right h
    refine ⟨hright, hu.keeps.trans hkeeps, fun v hv k hk => ?_⟩
    rcases List.mem_cons.1 hv with rfl | hv
    · exact hkeeps _ (hu.recorded (by rw [(hu.found k).2 hk]; rfl))
    · exact hrec v hv k hk

/-- What `_plan_wave_depths` calls the depth of a task is the wave it is finished in. -/
theorem planWaveDepths_eq_some (hids : (tasks.map Task.id).Nodup) {t : Task φ} (ht : t ∈ tasks)
    {k : ℕ} : planWaveDepths tasks t.id = some k ↔ At tasks t.id k := by
  obtain ⟨hright, -, hrec⟩ : Right tasks (visitAll tasks) ∧ Keeps [] (visitAll tasks) ∧
      ∀ u ∈ tasks, ∀ k, At tasks u.id k → ((visitAll tasks).get? u.id).isSome :=
    visit_each hids tasks (by intro i d h; cases h) rfl
  rw [planWaveDepths]
  constructor
  · intro h
    obtain ⟨j, hj, hat⟩ := hright t.id _ (Option.join_eq_some_iff.1 h)
    cases hj
    exact hat
  · intro h
    obtain ⟨d, hd⟩ := Option.isSome_iff_exists.1 (hrec t ht k h)
    obtain ⟨j, rfl, hat⟩ := hright t.id d hd
    rw [hd, hat.unique h]
    rfl

end RentCompass.Agent.Plan
