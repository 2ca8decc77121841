import RentCompass.Memory.RetiredTurns
import RentCompass.Runs
import Mathlib.Data.Fintype.Basic

/-!
# Turns that an edit takes out

Jobs of turns run beside each other, and an edit retires some of the turns. What an edit takes out
are the rows that its turns wrote first or last: also a row that another turn stored.
-/

namespace RentCompass.Memory

open Rows

variable {β κ δ π ρ : Type} (rules : MemoryRules κ δ) (user conversation : Text) (edit : List Text)
  {c : MemoryStore β}

/-! ### Runs -/

/-- The memory of one user while turns are remembered and an edit takes some of them out: the store,
the turns each process `ρ` knows to be retired, and the calls of `remember_turn` under way. For the
statements below, the first and the last turn that wrote each row, and whether the edit has been
made. -/
structure EditWorld (κ β π ρ : Type) where
  store : MemoryStore β
  retired : ρ → List Text
  task : π → Option (TurnJob κ × TurnPhase)
  first : Text → Option Text
  last : Text → Option Text
  edited : Bool

inductive EditAct (κ π ρ : Type) where
  | start (p : π) (job : TurnJob κ)
  | step (p : π)
  /-- `retire_turn_rows` of the edit, in one process. -/
  | retire (r : ρ)
  /-- An explicit save. -/
  | save (content kind sessionId now : Text)

namespace EditWorld

variable (host : π → ρ) [DecidableEq π] [LinearOrder δ]

def start (c : MemoryStore β) : EditWorld κ β π ρ :=
  ⟨c, fun _ => [], fun _ => none, fun _ => none, fun _ => none, false⟩

def setTask (s : EditWorld κ β π ρ) (p : π) (task : Option (TurnJob κ × TurnPhase)) :
    EditWorld κ β π ρ :=
  { s with task := fun q => if q = p then task else s.task q }

/-- A turn writes, and is noted for what it writes. -/
def write (s : EditWorld κ β π ρ) (writer : Option Text) (c' : MemoryStore β) : EditWorld κ β π ρ :=
  { s with
    store := c'
    first := found writer s.store c' s.first
    last := credit writer s.store c' s.last }

/-- A part of `remember_turn`, between two of which other calls may come. -/
def turnStep (s : EditWorld κ β π ρ) (p : π) (job : TurnJob κ) : TurnPhase → EditWorld κ β π ρ
  | .entering =>
    if (job.idempotencyKey.filter (· ≠ [])).any fun key => s.store.withKey user key ≠ [] then
      s.setTask p none
    else
      { s with store :=
          if job.erased = [] then s.store else forgetFact rules s.store user job.erased job.now }.setTask
        p (some (job, .logging))
  | .logging =>
    s.setTask p (some (job,
      if job.WasRetired (s.retired (host p)) then .superseding else .writing))
  | .writing =>
    let r := add rules s.store (job.logCall user)
    if r.2 = .unencodable then s.setTask p none
    else
      -- what the message asks to have erased is no writing
      { s.write job.turnId (addRecord rules s.store (job.logCall user)).1 with
        store := r.1 }.setTask p (some (job, .superseding))
  | .superseding =>
    (match job.changes with
    | none => s
    | some changes => s.write job.turnId
        (supersedeSlotFacts rules s.store changes user job.turnId job.now)).setTask
      p (some (job, .checking))
  | .checking =>
    s.setTask p (some (job,
      if job.extraction = none ∨ job.WasRetired (s.retired (host p)) then .sweeping else .extracting))
  | .extracting =>
    s.setTask p (some (job,
      match job.extraction.map (job.consolidation user) with
      | none => .sweeping
      | some m => if m.kept rules = [] then .sweeping else .applying (m.retrieved rules s.store) m.ops))
  | .applying _ [] => s.setTask p (some (job, .sweeping))
  | .applying known ((now, op) :: ops) =>
    match job.extraction.map (job.consolidation user) with
    | none => s.setTask p (some (job, .sweeping))
    | some m =>
      let r := m.apply rules known s.store now op
      (s.write job.turnId r.1).setTask p
        (some (job, if r.2 then .applying known ops else .sweeping))
  | .sweeping =>
    (if job.WasRetired (s.retired (host p)) then
      { s with
        store := retireTurnRows user (job.conversationId.getD []) s.store job.turnId.toList }
    else s).setTask p (some (job, .reflecting))
  | .reflecting =>
    if job.insights = [] ∨ job.WasRetired (s.retired (host p)) then s.setTask p none
    else s.setTask p (some (job, .inferring))
  | .inferring =>
    (s.write job.turnId (job.addInsights rules user s.store job.insights)).setTask p none

def step [DecidableEq ρ] (s : EditWorld κ β π ρ) : EditAct κ π ρ → EditWorld κ β π ρ
  | .start p job =>
    match s.task p with
    | some _ => s
    | none => s.setTask p (some (job, .entering))
  | .step p =>
    match s.task p with
    | none => s
    | some (job, phase) => s.turnStep rules user host p job phase
  | .retire r =>
    { s with
      store := retireTurnRows user conversation s.store edit
      retired := fun r' => if r' = r ∧ conversation ≠ [] then s.retired r ++ edit else s.retired r'
      edited := true }
  | .save content kind sessionId now =>
    s.write none (addRecord rules s.store (rememberCall user content kind sessionId now)).1

/-! ### The edit and the rest -/

/-- A job of the turn may have written, and has not yet looked whether it is retired. -/
def Open (s : EditWorld κ β π ρ) (t : Text) : Prop :=
  ∃ p job phase, s.task p = some (job, phase) ∧ job.turnId = some t ∧ phase.Late

/-- A turn that the edit takes out is the first writer of the row, or the last. -/
def ByEdit (s : EditWorld κ β π ρ) (row : MemoryRow RowMeta) : Prop :=
  OfEdit edit (s.first row.id) ∨ OfEdit edit (s.last row.id)

instance (s : EditWorld κ β π ρ) (row : MemoryRow RowMeta) : Decidable (s.ByEdit edit row) :=
  inferInstanceAs (Decidable (_ ∨ _))

/-- What the job rewrites are extracted rows that come from the conversation. -/
def AtHome (s : EditWorld κ β π ρ) (job : TurnJob κ) : TurnPhase → Prop
  | .superseding => ∀ changes ∈ job.changes, ∀ row ∈ supersededRows rules s.store changes user,
      OfConversation user conversation row
  | .applying known ((_, op) :: _) => ∀ m ∈ job.extraction.map (job.consolidation user),
      ∀ row ∈ s.store.rows, m.rewrites rules known op = some row.id →
        OfConversation user conversation row
  | _ => True

/-- The ids of turns fit the mark of a last writer. The turns of the edit are of its conversation and
rewrite what comes from it; where they run late, their process knows of the edit, and no edit comes
between the last look of a job and what it infers. -/
def InOrder (s : EditWorld κ β π ρ) : EditAct κ π ρ → Prop
  | .start _ job => (∃ t ∈ job.turnId, t ≠ [] ∧ t.length ≤ 80) ∧
      (OfEdit edit job.turnId → job.conversationId = some conversation)
  | .step p => ∀ task ∈ s.task p, OfEdit edit task.1.turnId →
      (s.edited = true → task.1.WasRetired (s.retired (host p))) ∧
        s.AtHome rules user conversation task.1 task.2
  | .retire _ => ∀ p, ∀ task ∈ s.task p, task.2 = .inferring → ¬ OfEdit edit task.1.turnId
  | .save .. => True

instance (s : EditWorld κ β π ρ) (job : TurnJob κ) :
    (phase : TurnPhase) → Decidable (s.AtHome rules user conversation job phase)
  | .superseding => inferInstanceAs (Decidable (∀ changes ∈ job.changes,
      ∀ row ∈ supersededRows rules s.store changes user, _))
  | .applying known ((_, op) :: _) => inferInstanceAs (Decidable
      (∀ m ∈ job.extraction.map (job.consolidation user), ∀ row ∈ s.store.rows,
        m.rewrites rules known op = some row.id → _))
  | .entering | .logging | .writing | .checking | .extracting | .applying _ [] | .sweeping
  | .reflecting | .inferring => inferInstanceAs (Decidable True)

instance [Fintype π] (s : EditWorld κ β π ρ) :
    (a : EditAct κ π ρ) → Decidable (s.InOrder rules user conversation edit host a)
  | .start _ job => inferInstanceAs (Decidable ((∃ t ∈ job.turnId, _) ∧ _))
  | .step p => inferInstanceAs (Decidable (∀ task ∈ s.task p, _))
  | .retire _ => inferInstanceAs (Decidable (∀ p, ∀ task ∈ s.task p, _))
  | .save .. => inferInstanceAs (Decidable True)

variable {user conversation edit} {host}

structure Kept (user conversation : Text) (edit : List Text) (s : EditWorld κ β π ρ) : Prop where
  signed : Signed user conversation edit (fun t => s.edited = true → s.Open t) s.store s.first s.last
  jobs : ∀ p job phase, s.task p = some (job, phase) →
    (∃ t ∈ job.turnId, t ≠ [] ∧ t.length ≤ 80) ∧
      (OfEdit edit job.turnId → job.conversationId = some conversation)
  stopped : s.edited = true → ∀ p job, s.task p = some (job, .inferring) → ¬ OfEdit edit job.turnId

/-- No job of the edit is under way. -/
def Settled (edit : List Text) (s : EditWorld κ β π ρ) : Prop :=
  ∀ p job phase, s.task p = some (job, phase) → ¬ OfEdit edit job.turnId

omit [DecidableEq π] in
lemma kept_start (hids : c.ids.Nodup)
    (hplain : ∀ row ∈ c.rows, ¬ Bears user conversation edit row) :
    (EditWorld.start c : EditWorld κ β π ρ).Kept user conversation edit where
  signed := {
    ids := hids
    entered := fun row hrow t ht henters => absurd ⟨t, ht, .inl henters⟩ (hplain row hrow)
    updated := fun row hrow t ht hupdates => absurd ⟨t, ht, .inr hupdates⟩ (hplain row hrow)
    first := fun row _ t _ hfirst => by cases hfirst
    last := fun row _ t _ hlast => by cases hlast }
  jobs p job phase htask := by cases htask
  stopped hedited := by cases hedited

variable {s : EditWorld κ β π ρ} {p : π} {job : TurnJob κ} {phase : TurnPhase}

omit [DecidableEq π] in
/-- Once the edit is made and no job of it is under way, none of its rows remains. -/
lemma Kept.forgotten (h : s.Kept user conversation edit) (hedited : s.edited = true)
    (hsettled : s.Settled edit) : ∀ row ∈ s.store.rows, ¬ s.ByEdit edit row := by
  have hnone : ∀ t ∈ edit, ¬ (s.edited = true → s.Open t) := by
    intro t ht hopen
    obtain ⟨p, job, phase, htask, hturn, -⟩ := hopen hedited
    exact hsettled p job phase htask ⟨t, ht, hturn⟩
  rintro row hrow (⟨t, ht, hfirst⟩ | ⟨t, ht, hlast⟩)
  · exact hnone t ht (h.signed.first row hrow t ht hfirst).2.2
  · exact hnone t ht (h.signed.last row hrow t ht hlast).2.2

lemma setTask_task_self (task : Option (TurnJob κ × TurnPhase)) : (s.setTask p task).task p = task :=
  if_pos rfl

lemma setTask_task_of_ne {q : π} (hq : q ≠ p) (task : Option (TurnJob κ × TurnPhase)) :
    (s.setTask p task).task q = s.task q :=
  if_neg hq

/-- A job that goes from one late part to another stays open. -/
lemma Open.setTask (htask : s.task p = some (job, phase)) {next : Option TurnPhase}
    (hlate : phase.Late → ∃ phase' ∈ next, phase'.Late) {t : Text} (h : s.Open t) :
    (s.setTask p (next.map (job, ·))).Open t := by
  obtain ⟨q, job', phase', hq, hturn, hphase⟩ := h
  by_cases hqp : q = p
  · subst hqp
    obtain ⟨rfl, rfl⟩ := Prod.mk.inj (Option.some.inj (htask.symm.trans hq))
    obtain ⟨phase', rfl, hphase'⟩ := hlate hphase
    exact ⟨q, job, phase', setTask_task_self _, hturn, hphase'⟩
  · exact ⟨q, job', phase', (setTask_task_of_ne hqp _).trans hq, hturn, hphase⟩

/-- A job goes on, or ends. -/
lemma Kept.turn (h : s.Kept user conversation edit) (htask : s.task p = some (job, phase))
    (next : Option TurnPhase) {c' : MemoryStore β} {first' last' : Text → Option Text}
    (hsigned : Signed user conversation edit
      (fun t => s.edited = true → (s.setTask p (next.map (job, ·))).Open t) c' first' last')
    (hstop : next = some .inferring → s.edited = true → ¬ OfEdit edit job.turnId) :
    ({ s with store := c', first := first', last := last' }.setTask p (next.map (job, ·))).Kept user
      conversation edit where
  signed := hsigned
  jobs q job' phase' hq := by
    by_cases hqp : q = p
    · subst hqp
      rw [setTask_task_self] at hq
      obtain ⟨phase', rfl, hphase⟩ := Option.map_eq_some_iff.1 hq
      obtain ⟨rfl, rfl⟩ := Prod.mk.inj hphase
      exact h.jobs q job phase htask
    · rw [setTask_task_of_ne hqp] at hq
      exact h.jobs q job' phase' hq
  stopped hedited q job' hq := by
    by_cases hqp : q = p
    · subst hqp
      rw [setTask_task_self] at hq
      obtain ⟨phase', rfl, hphase⟩ := Option.map_eq_some_iff.1 hq
      obtain ⟨rfl, rfl⟩ := Prod.mk.inj hphase
      exact hstop rfl hedited
    · rw [setTask_task_of_ne hqp] at hq
      exact h.stopped hedited q job' hq

/-! #### The parts of a job -/

variable (h : s.Kept user conversation edit)

include h in
/-- What a turn is awaited for goes on while its job does. -/
lemma Kept.onward (htask : s.task p = some (job, phase)) (next : Option TurnPhase)
    (hlate : phase.Late → ∃ phase' ∈ next, phase'.Late) :
    Signed user conversation edit
      (fun t => s.edited = true → (s.setTask p (next.map (job, ·))).Open t) s.store s.first s.last :=
  h.signed.mono fun _ _ hopen hedited => (hopen hedited).setTask htask hlate

include h in
omit [DecidableEq π] in
lemma Kept.stamps (htask : s.task p = some (job, phase)) (old : Option Text) :
    stampTurn job.turnId old = job.turnId := by
  obtain ⟨⟨t, ht, hne, hshort⟩, -⟩ := h.jobs p job phase htask
  rw [ht]
  exact stampTurn_some hne hshort old

include h in
lemma Kept.entering (htask : s.task p = some (job, .entering)) :
    (s.turnStep rules user host p job .entering).Kept user conversation edit := by
  unfold turnStep
  dsimp only
  split_ifs with hfound herased
  · exact h.turn htask none (h.onward htask none False.elim) fun heq => by cases heq
  · exact h.turn htask (some .logging) (h.onward htask _ False.elim) fun heq => by cases heq
  · refine h.turn htask (some .logging) ?_ fun heq => by cases heq
    refine (h.onward htask (some .logging) False.elim).lose
      (forgetFact_nodup rules h.signed.ids user _ _) fun row' hrow' => ?_
    obtain ⟨row, hrow, hmarks, hlast⟩ := forgetFact_sameMarks rules h.signed.ids user _ _ row' hrow'
    exact ⟨row, hrow, hmarks, hlast, fun _ _ _ hopen => hopen⟩

include h in
lemma Kept.logging (htask : s.task p = some (job, .logging)) :
    (s.turnStep rules user host p job .logging).Kept user conversation edit := by
  refine h.turn htask (some _) (h.onward htask _ False.elim) fun heq => ?_
  split_ifs at heq <;> cases heq

include h in
lemma Kept.writing (huser : validUserId (some user) = some user)
    (htask : s.task p = some (job, .writing)) :
    (s.turnStep rules user host p job .writing).Kept user conversation edit := by
  obtain ⟨-, hconversation⟩ := h.jobs p job _ htask
  unfold turnStep
  dsimp only
  split_ifs with hraises
  · exact h.turn htask none (h.onward htask none False.elim) fun heq => by cases heq
  refine h.turn htask (some .superseding) ?_ fun heq => by cases heq
  have heffect : Effect (fun _ => False) job.turnId
      (· = ⟨(job.logCall user).row rules user, .native⟩) s.store
      (addRecord rules s.store (job.logCall user)).1 := by
    refine .addRecord rules h.signed.ids fun uid hvalid => ?_
    obtain rfl : user = uid := Option.some.inj (huser.symm.trans hvalid)
    rfl
  have hwritten := (h.onward htask (some .superseding) False.elim).write (ne_nil_of_valid huser)
    heffect (fun _ => False.elim) ?_ ?_ fun _ _ _ => False.elim
  · refine hwritten.lose (add_nodup rules h.signed.ids _) fun row' hrow' => ?_
    obtain ⟨row, hrow, hmarks, hlast⟩ := add_sameMarks rules h.signed.ids _ row' hrow'
    exact ⟨row, hrow, hmarks, hlast, fun _ _ _ hopen => hopen⟩
  · exact fun t _ hturn _ => ⟨p, job, .superseding, setTask_task_self _, hturn, trivial⟩
  · rintro row rfl t ht
    refine ⟨(TurnJob.logCall_enters rules).trans (and_iff_right_of_imp fun hturn =>
      hconversation ⟨t, ht, hturn⟩), ?_, fun _ => nofun⟩
    rintro ⟨-, hmark⟩
    cases hmark

include h in
lemma Kept.superseding (huser : validUserId (some user) = some user)
    (htask : s.task p = some (job, .superseding))
    (hhome : OfEdit edit job.turnId → s.AtHome rules user conversation job .superseding) :
    (s.turnStep rules user host p job .superseding).Kept user conversation edit := by
  have honward := h.onward htask (some .checking) fun _ => ⟨_, rfl, trivial⟩
  unfold turnStep
  dsimp only
  cases hchanges : job.changes with
  | none => exact h.turn htask (some .checking) honward fun heq => by cases heq
  | some changes =>
    refine h.turn htask (some .checking) ?_ fun heq => by cases heq
    have heffect := supersede_effect rules h.signed.ids changes user job.turnId job.now
    refine honward.write (ne_nil_of_valid huser) heffect (fun _ _ => h.stamps htask) ?_
      (fun _ => False.elim) ?_
    · exact fun t _ hturn _ => ⟨p, job, .checking, setTask_task_self _, hturn, trivial⟩
    · rintro hturn row hrow ⟨row', hrow', hid⟩
      have hmem : row' ∈ s.store.rows := List.mem_of_mem_filter (List.mem_of_mem_filter hrow')
      obtain rfl : row' = row := (show Keyed (·.id) s.store.rows from h.signed.ids).eq hmem hrow hid
      exact hhome hturn changes hchanges row' hrow'

include h in
lemma Kept.checking (htask : s.task p = some (job, .checking)) :
    (s.turnStep rules user host p job .checking).Kept user conversation edit := by
  refine h.turn htask (some _) (h.onward htask _ fun _ => ⟨_, rfl, ?_⟩) fun heq => ?_
  · split_ifs <;> trivial
  · split_ifs at heq <;> cases heq

include h in
lemma Kept.extracting (htask : s.task p = some (job, .extracting)) :
    (s.turnStep rules user host p job .extracting).Kept user conversation edit := by
  refine h.turn htask (some _) (h.onward htask _ fun _ => ⟨_, rfl, ?_⟩) fun heq => ?_
  · split
    · trivial
    · split_ifs <;> trivial
  · split at heq
    · cases heq
    · split_ifs at heq <;> cases heq

include h in
lemma Kept.applying (huser : validUserId (some user) = some user)
    {known : List (MemoryRow RowMeta)} {ops : List (Text × Op)}
    (htask : s.task p = some (job, .applying known ops))
    (hhome : OfEdit edit job.turnId → s.AtHome rules user conversation job (.applying known ops)) :
    (s.turnStep rules user host p job (.applying known ops)).Kept user conversation edit := by
  have hswept := h.onward htask (some .sweeping) fun _ => ⟨_, rfl, trivial⟩
  obtain ⟨-, hconversation⟩ := h.jobs p job _ htask
  unfold turnStep
  cases ops with
  | nil => exact h.turn htask (some .sweeping) hswept fun heq => by cases heq
  | cons timed ops =>
    obtain ⟨now, op⟩ := timed
    dsimp only
    cases hm : job.extraction.map (job.consolidation user) with
    | none => exact h.turn htask (some .sweeping) hswept fun heq => by cases heq
    | some m =>
      obtain ⟨extraction, -, rfl⟩ := Option.map_eq_some_iff.1 hm
      have hjob : (job.consolidation user extraction).ForUser := huser
      dsimp only
      -- whatever the operation answers, the sweep is still to come
      have hlate : (if ((job.consolidation user extraction).apply rules known s.store now op).2 then
          TurnPhase.applying known ops else .sweeping).Late := by
        split_ifs <;> trivial
      refine h.turn htask (some _) ?_ fun heq => ?_
      · refine (h.onward htask (some _) fun _ => ⟨_, rfl, hlate⟩).write (ne_nil_of_valid huser)
          (hjob.apply_effect h.signed.ids now op) (fun _ _ => h.stamps htask) ?_
          (fun row hrow => extracted_marks hconversation hrow) ?_
        · exact fun t _ hturn _ => ⟨p, job, _, setTask_task_self _, hturn, hlate⟩
        · exact fun hturn row hrow hrewrites => hhome hturn _ hm row hrow hrewrites
      · split_ifs at heq <;> cases heq

include h in
lemma Kept.sweeping (hconversation : conversation ≠ []) (hedit : [] ∉ edit)
    (htask : s.task p = some (job, .sweeping))
    (hknown : OfEdit edit job.turnId → s.edited = true → job.WasRetired (s.retired (host p))) :
    (s.turnStep rules user host p job .sweeping).Kept user conversation edit := by
  -- a turn that is awaited for another job stays so, and the rows of this one go
  have honward : ∀ t ∈ edit, job.turnId ≠ some t → (s.edited = true → s.Open t) →
      s.edited = true → (s.setTask p (some (job, .reflecting))).Open t := by
    intro t _ hturn hopen hedited
    obtain ⟨q, job', phase', hq, hturn', hphase⟩ := hopen hedited
    by_cases hqp : q = p
    · subst hqp
      obtain ⟨rfl, rfl⟩ := Prod.mk.inj (Option.some.inj (htask.symm.trans hq))
      exact absurd hturn' hturn
    · exact ⟨q, job', phase', (setTask_task_of_ne hqp _).trans hq, hturn', hphase⟩
  unfold turnStep
  dsimp only
  split_ifs with hretired
  · refine h.turn htask (some .reflecting) ?_ fun heq => by cases heq
    refine h.signed.lose (retireTurnRows_nodup h.signed.ids _) fun row hrow =>
      ⟨row, mem_of_mem_retireTurnRows hrow, .refl row, rfl, fun t ht hbears hopen => ?_⟩
    refine honward t ht (fun hturn => ?_) hopen
    have hcase : job.conversationId = some conversation := (h.jobs p job _ htask).2 ⟨t, ht, hturn⟩
    rw [hturn, hcase] at hrow
    refine ((mem_retireTurnRows h.signed.ids hconversation ?_).1 hrow).2 (bears_singleton.2 hbears)
    exact fun hnil => hedit ((List.mem_singleton.1 hnil) ▸ ht)
  · refine h.turn htask (some .reflecting) ?_ fun heq => by cases heq
    exact h.signed.mono fun t ht hopen hedited =>
      honward t ht (fun hturn => hretired (hknown ⟨t, ht, hturn⟩ hedited)) hopen hedited

include h in
lemma Kept.reflecting (htask : s.task p = some (job, .reflecting))
    (hknown : OfEdit edit job.turnId → s.edited = true → job.WasRetired (s.retired (host p))) :
    (s.turnStep rules user host p job .reflecting).Kept user conversation edit := by
  unfold turnStep
  dsimp only
  split_ifs with hends
  · exact h.turn htask none (h.onward htask none False.elim) fun heq => by cases heq
  · exact h.turn htask (some .inferring) (h.onward htask _ False.elim) fun _ hedited hturn =>
      hends (.inr (hknown hturn hedited))

include h in
lemma Kept.inferring (huser : validUserId (some user) = some user)
    (htask : s.task p = some (job, .inferring)) :
    (s.turnStep rules user host p job .inferring).Kept user conversation edit := by
  obtain ⟨-, hconversation⟩ := h.jobs p job _ htask
  refine h.turn htask none ?_ fun heq => by cases heq
  have heffect : Effect (fun _ => False) job.turnId _ s.store
      (job.addInsights rules user s.store job.insights) :=
    TurnJob.addInsights_effect rules huser h.signed.ids job.insights
  refine (h.onward htask none False.elim).write (ne_nil_of_valid huser) heffect
    (fun _ => False.elim) ?_ ?_ fun _ _ _ => False.elim
  · exact fun t ht hturn hedited => absurd ⟨t, ht, hturn⟩ (h.stopped hedited p job htask)
  · rintro row ⟨insight, rfl⟩ t ht
    refine ⟨(TurnJob.insightCall_enters rules).trans (and_iff_right_of_imp fun hturn =>
      hconversation ⟨t, ht, hturn⟩), ?_, fun _ => nofun⟩
    rintro ⟨-, hmark⟩
    cases hmark

/-! #### Steps -/

include h in
lemma Kept.start (htask : s.task p = none) (hid : ∃ t ∈ job.turnId, t ≠ [] ∧ t.length ≤ 80)
    (hconversation : OfEdit edit job.turnId → job.conversationId = some conversation) :
    (s.setTask p (some (job, .entering))).Kept user conversation edit where
  signed := by
    refine h.signed.mono fun t _ hopen hedited => ?_
    obtain ⟨q, job', phase', hq, hturn⟩ := hopen hedited
    have hqp : q ≠ p := by
      rintro rfl
      cases htask.symm.trans hq
    exact ⟨q, job', phase', (setTask_task_of_ne hqp _).trans hq, hturn⟩
  jobs q job' phase' hq := by
    by_cases hqp : q = p
    · subst hqp
      rw [setTask_task_self] at hq
      obtain ⟨rfl, rfl⟩ := Prod.mk.inj (Option.some.inj hq)
      exact ⟨hid, hconversation⟩
    · rw [setTask_task_of_ne hqp] at hq
      exact h.jobs q job' phase' hq
  stopped hedited q job' hq := by
    by_cases hqp : q = p
    · subst hqp
      rw [setTask_task_self] at hq
      cases hq
    · rw [setTask_task_of_ne hqp] at hq
      exact h.stopped hedited q job' hq

variable [DecidableEq ρ]

lemma step_turn (htask : s.task p = some (job, phase)) :
    s.step rules user conversation edit host (.step p) = s.turnStep rules user host p job phase := by
  simp only [EditWorld.step, htask]

include h in
lemma Kept.step (huser : validUserId (some user) = some user) (hconversation : conversation ≠ [])
    (hedit : [] ∉ edit) {a : EditAct κ π ρ}
    (horder : s.InOrder rules user conversation edit host a) :
    (s.step rules user conversation edit host a).Kept user conversation edit := by
  cases a with
  | start p job =>
    unfold EditWorld.step
    dsimp only
    split
    · exact h
    · next htask => exact h.start htask horder.1 horder.2
  | step p =>
    cases htask : s.task p with
    | none =>
      simp only [EditWorld.step, htask]
      exact h
    | some task =>
      obtain ⟨job, phase⟩ := task
      have hknown := fun hturn => (horder (job, phase) htask hturn).1
      have hhome := fun hturn => (horder (job, phase) htask hturn).2
      rw [step_turn rules htask]
      cases phase with
      | entering => exact h.entering rules htask
      | logging => exact h.logging rules htask
      | writing => exact h.writing rules huser htask
      | superseding => exact h.superseding rules huser htask hhome
      | checking => exact h.checking rules htask
      | extracting => exact h.extracting rules htask
      | applying known ops => exact h.applying rules huser htask hhome
      | sweeping => exact h.sweeping rules hconversation hedit htask hknown
      | reflecting => exact h.reflecting rules htask hknown
      | inferring => exact h.inferring rules huser htask
  | retire r =>
    have hgone : ∀ row ∈ (retireTurnRows user conversation s.store edit).rows, row ∈ s.store.rows ∧
        ¬ Bears user conversation edit row :=
      fun row hrow => (mem_retireTurnRows h.signed.ids hconversation hedit).1 hrow
    refine ⟨h.signed.lose (retireTurnRows_nodup h.signed.ids _) fun row hrow => ?_, h.jobs,
      fun _ p job htask => horder p (job, .inferring) htask rfl⟩
    exact ⟨row, (hgone row hrow).1, .refl row, rfl, fun t ht hbears _ =>
      absurd ⟨t, ht, hbears⟩ (hgone row hrow).2⟩
  | save content kind sessionId now =>
    have heffect : Effect (fun _ => False) none
        (· = ⟨(rememberCall user content kind sessionId now).row rules user, .native⟩) s.store
        (addRecord rules s.store (rememberCall user content kind sessionId now)).1 := by
      refine .addRecord rules h.signed.ids fun uid hvalid => ?_
      obtain rfl : user = uid := Option.some.inj (huser.symm.trans hvalid)
      rfl
    refine ⟨?_, h.jobs, h.stopped⟩
    refine h.signed.write (ne_nil_of_valid huser) heffect (fun _ => False.elim) nofun ?_
      fun _ _ _ => False.elim
    rintro row rfl t -
    exact ⟨iff_of_false (save_marks rules).1 nofun, (save_marks rules).2, nofun⟩

/-! #### What is left alone -/

variable (edit) in
/-- The step is neither the edit nor the sweep of one of its turns. -/
def FromOthers (s : EditWorld κ β π ρ) : EditAct κ π ρ → Prop
  | .start _ _ | .save .. => True
  | .retire _ => False
  | .step p => ∀ task ∈ s.task p, OfEdit edit task.1.turnId → task.2 ≠ .sweeping

instance (s : EditWorld κ β π ρ) : (a : EditAct κ π ρ) → Decidable (s.FromOthers edit a)
  | .start _ _ | .save .. => inferInstanceAs (Decidable True)
  | .retire _ => inferInstanceAs (Decidable False)
  | .step p => inferInstanceAs (Decidable (∀ task ∈ s.task p, _))

variable (user conversation edit host) in
def OthersKeep (row : MemoryRow RowMeta) (s : EditWorld κ β π ρ) (a : EditAct κ π ρ) : Prop :=
  s.FromOthers edit a → row ∈ (s.step rules user conversation edit host a).store.rows

instance (row : MemoryRow RowMeta) (s : EditWorld κ β π ρ) (a : EditAct κ π ρ) :
    Decidable (s.OthersKeep rules user conversation edit host row a) :=
  inferInstanceAs (Decidable (_ → _))

/-- A row that stays as it is keeps its writers. -/
lemma writers_step (hids : s.store.ids.Nodup) {a : EditAct κ π ρ} {row : MemoryRow RowMeta}
    (hrow : row ∈ s.store.rows)
    (hstays : row ∈ (s.step rules user conversation edit host a).store.rows)
    (hnodup : (s.step rules user conversation edit host a).store.ids.Nodup) :
    (s.step rules user conversation edit host a).ByEdit edit row ↔ s.ByEdit edit row := by
  have hwrite : ∀ (writer : Option Text) (c' : MemoryStore β), c'.ids.Nodup → row ∈ c'.rows →
      ((s.write writer c').ByEdit edit row ↔ s.ByEdit edit row) := by
    intro writer c' hids' hrow'
    have hmem : row.id ∈ s.store.ids := List.mem_map_of_mem hrow
    have hfirst : found writer s.store c' s.first row.id = s.first row.id :=
      (found_of_mem s.first (List.mem_map_of_mem hrow')).trans (if_pos hmem)
    have hlast : credit writer s.store c' s.last row.id = s.last row.id := by
      rw [credit_of_mem hids' s.last hrow', if_pos hrow]
    show OfEdit edit (found ..) ∨ OfEdit edit (credit ..) ↔ _
    rw [hfirst, hlast]
    rfl
  cases a with
  | start p job =>
    unfold EditWorld.step
    dsimp only
    split <;> rfl
  | retire r => rfl
  | save content kind sessionId now => exact hwrite _ _ hnodup hstays
  | step p =>
    cases htask : s.task p with
    | none => simp only [EditWorld.step, htask]
    | some task =>
      obtain ⟨job, phase⟩ := task
      rw [step_turn rules htask] at hstays hnodup ⊢
      unfold turnStep at hstays hnodup ⊢
      cases phase with
      | entering => dsimp only; split_ifs <;> rfl
      | logging => rfl
      | writing =>
        dsimp only
        split_ifs
        · rfl
        · exact hwrite _ _ (addRecord_nodup rules hids _) (addRecord_kept rules _ _ row hrow)
      | superseding =>
        dsimp only at hstays hnodup ⊢
        cases hchanges : job.changes with
        | none => rfl
        | some changes =>
          rw [hchanges] at hstays hnodup
          exact hwrite _ _ hnodup hstays
      | checking => rfl
      | extracting => rfl
      | applying known ops =>
        cases ops with
        | nil => rfl
        | cons timed ops =>
          dsimp only at hstays hnodup ⊢
          cases hm : job.extraction.map (job.consolidation user) with
          | none => rfl
          | some m =>
            rw [hm] at hstays hnodup
            exact hwrite _ _ hnodup hstays
      | sweeping => dsimp only; split_ifs <;> rfl
      | reflecting => dsimp only; split_ifs <;> rfl
      | inferring => exact hwrite _ _ hnodup hstays

include h in
/-- The edit and the sweeps of its turns leave the rows of others. -/
lemma Kept.leaves (hconversation : conversation ≠ []) (hedit : [] ∉ edit) {a : EditAct κ π ρ}
    {row : MemoryRow RowMeta} (hrow : row ∈ s.store.rows) (hnot : ¬ s.ByEdit edit row)
    (hothers : s.OthersKeep rules user conversation edit host row a) :
    row ∈ (s.step rules user conversation edit host a).store.rows := by
  by_cases hother : s.FromOthers edit a
  · exact hothers hother
  obtain ⟨hfirst, hlast⟩ := not_or.1 hnot
  have hplain := h.signed.not_bears hrow hfirst hlast
  cases a with
  | start p job => exact absurd trivial hother
  | save content kind sessionId now => exact absurd trivial hother
  | retire r => exact (mem_retireTurnRows h.signed.ids hconversation hedit).2 ⟨hrow, hplain⟩
  | step p =>
    simp only [FromOthers, not_forall, not_not] at hother
    obtain ⟨⟨job, phase⟩, htask, ⟨t, ht, hturn⟩, rfl⟩ := hother
    rw [step_turn rules htask]
    unfold turnStep
    dsimp only
    split_ifs
    · have hcase : job.conversationId = some conversation :=
        (h.jobs p job _ htask).2 ⟨t, ht, hturn⟩
      rw [hturn, hcase]
      refine (mem_retireTurnRows h.signed.ids hconversation ?_).2 ⟨hrow, fun hbears => ?_⟩
      · exact fun hnil => hedit ((List.mem_singleton.1 hnil) ▸ ht)
      · exact hplain ⟨t, ht, bears_singleton.1 hbears⟩
    · exact hrow

/-! ### Every run -/

include h in
/-- A row of other turns is there at the end of a run whose other steps keep it. -/
lemma Kept.run_leaves (huser : validUserId (some user) = some user)
    (hconversation : conversation ≠ []) (hedit : [] ∉ edit) {acts : List (EditAct κ π ρ)}
    (horder : Runs.Along (EditWorld.step rules user conversation edit host)
      (InOrder rules user conversation edit host) s acts)
    {row : MemoryRow RowMeta} (hrow : row ∈ s.store.rows) (hnot : ¬ s.ByEdit edit row)
    (hothers : Runs.Along (EditWorld.step rules user conversation edit host)
      (OthersKeep rules user conversation edit host row) s acts) :
    row ∈ (Runs.run (EditWorld.step rules user conversation edit host) s acts).store.rows := by
  refine (Runs.run_preserves_along (I := fun s : EditWorld κ β π ρ =>
    s.Kept user conversation edit ∧ row ∈ s.store.rows ∧ ¬ s.ByEdit edit row)
    ?_ ⟨h, hrow, hnot⟩ (horder.and _ hothers)).2.1
  rintro s a ⟨hkept, hrow, hnot⟩ ⟨horder, hothers⟩
  have hnext := hkept.step rules huser hconversation hedit horder
  have hstays := hkept.leaves rules hconversation hedit hrow hnot hothers
  refine ⟨hnext, hstays, ?_⟩
  rwa [writers_step rules hkept.signed.ids hrow hstays hnext.signed.ids]

variable (user conversation edit host) in
/-- Once the edit is made and its jobs are over, no row remains that a turn of the edit stored, or was
the last to rewrite. A row by other turns, or an explicitly saved one, is there at the end as it was
at any time since when no step has changed it, but for the edit and its sweeps. -/
def TakesOut (c : MemoryStore β) (acts : List (EditAct κ π ρ)) : Prop :=
  let after (acts : List (EditAct κ π ρ)) : EditWorld κ β π ρ :=
    Runs.run (step rules user conversation edit host) (start c) acts
  ((after acts).edited = true → (after acts).Settled edit →
    ∀ row ∈ (after acts).store.rows, ¬ (after acts).ByEdit edit row) ∧
  ∀ n, ∀ row ∈ (after (acts.take n)).store.rows,
    ExplicitRow user row ∨ ¬ (after (acts.take n)).ByEdit edit row →
    Runs.Along (step rules user conversation edit host)
      (OthersKeep rules user conversation edit host row) (after (acts.take n)) (acts.drop n) →
    row ∈ (after acts).store.rows

/-- A turn of a conversation, with one operation of the consolidation. -/
def factTurn (conversation turn : Text) (op : Op) : TurnJob Unit where
  sessionId := "default"
  conversationId := some conversation
  turnId := some turn
  turnStartedAt := none
  idempotencyKey := none
  userMsg := "my rent is up to 1500"
  erased := []
  log := "User asked: my rent is up to 1500"
  changes := none
  extraction := some ⟨["the rent is at most 1500"], false, [("2026-01-02T00:00:00", op)]⟩
  insights := []
  now := "2026-01-02T00:00:00"

def storesRent : Op := .op .add (.scalar none) "the rent is at most 1500"

/-- The id is that of the row that `storesRent` writes. -/
def rewritesRent : Op :=
  .op .update (.text ("semantic_" ++ contentHash "semantic" "alice" "the rent is at most 1500"))
    "the rent is at most 1800"

/-- Every part of a job that infers nothing. -/
def wholeTurn (p : π) (job : TurnJob Unit) : List (EditAct Unit π ρ) :=
  .start p job :: List.replicate 10 (.step p)

/-- A run for Alice in which the edit takes a turn out of a conversation. -/
def rentRun (turn : Text) (host : π → ρ) (acts : List (EditAct Unit π ρ)) :
    EditWorld Unit Unit π ρ :=
  Runs.run (step plainRules "alice" "flat hunt" [turn] host) (start .empty) acts

/-- The second turn rewrites what it has stored. -/
def editedTurn : List (EditAct Unit Unit Unit) :=
  wholeTurn () (factTurn "flat hunt" "first" (.op .add (.scalar none) "a garden is wanted")) ++
    wholeTurn () (factTurn "flat hunt" "second" storesRent) ++
    wholeTurn () (factTurn "flat hunt" "second" rewritesRent) ++ [.retire ()]

lemma editedTurn_inOrder : Runs.Along (step plainRules "alice" "flat hunt" ["second"] id)
    (InOrder plainRules "alice" "flat hunt" ["second"] id) (start .empty : EditWorld Unit Unit _ _)
    editedTurn := by
  decide +kernel

/-- A first turn stores a fact in a conversation, and an edited one rewrites it. -/
def rewrittenFact (conversation turn : Text) : List (EditAct Unit Unit Unit) :=
  wholeTurn () (factTurn conversation "first" storesRent) ++
    wholeTurn () (factTurn "flat hunt" turn rewritesRent) ++ [.retire ()]

/-- The second turn runs late, in a process that has not made the edit. -/
def lateElsewhere : List (EditAct Unit Bool Bool) :=
  .retire false :: wholeTurn true (factTurn "flat hunt" "second" storesRent)

/-- The edit comes when the second turn has an inference to write. -/
def lateInference : List (EditAct Unit Unit Unit) :=
  wholeTurn () { factTurn "flat hunt" "second" storesRent with insights := ["may like to walk"] } ++
    [.retire (), .step ()]

/-- The edit is made and no job is under way, and there is a row by one of its turns. -/
def Remains (s : EditWorld κ β π ρ) (edit : List Text) : Prop :=
  s.edited = true ∧ (∀ p, s.task p = none) ∧ ∃ row ∈ s.store.rows, s.ByEdit edit row

instance [Fintype π] (s : EditWorld κ β π ρ) : Decidable (s.Remains edit) :=
  inferInstanceAs (Decidable (_ ∧ _ ∧ ∃ row ∈ s.store.rows, _))

end EditWorld

end RentCompass.Memory
