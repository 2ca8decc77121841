import RentCompass.Canary.Lifecycle
import RentCompass.Streams

/-!
# The phases of a specialist task

A task is planned, started, and comes to one outcome, or is planned and skipped. The phases it has
had are a beginning of one of these; a stream of transitions is legal where the phases of each task
are, and its counts tell whether every task has come to its end.
-/

namespace RentCompass.Canary

/-- The phases of a task. -/
inductive Phase where
  | planned
  | started
  | completed
  | partials
  | failed
  | skipped
  deriving DecidableEq

namespace Phase

def name : Phase → String
  | planned => "planned"
  | started => "started"
  | completed => "completed"
  | partials => "partial"
  | failed => "failed"
  | skipped => "skipped"

/-- The status that stands for the phase. -/
def status (s : Phase) : Text := s.name

/-- The phase that a status stands for. -/
def ofStatus? (status : Text) : Option Phase :=
  [planned, started, completed, partials, failed, skipped].find? (·.status = status)

/-- The phase ends a task that was started. -/
def isOutcome : Phase → Bool
  | completed | partials | failed => true
  | _ => false

/-- The phase ends the task. -/
def isTerminal : Phase → Bool
  | planned | started => false
  | _ => true

/-- The phases an error code may explain. -/
def isUnmet : Phase → Bool
  | partials | failed | skipped => true
  | _ => false

lemma status_injective : Function.Injective status := by
  intro s t h
  cases s <;> cases t <;> first | rfl | exact absurd h (by decide)

@[simp] lemma status_inj {s t : Phase} : s.status = t.status ↔ s = t := status_injective.eq_iff

lemma ofStatus?_status (s : Phase) : ofStatus? s.status = some s := by
  cases s <;> decide

lemma exists_status_iff {status : Text} :
    (∃ s : Phase, status = s.status) ↔ status ∈ _SPECIALIST_STATUSES.map Text.ofString := by
  constructor
  · rintro ⟨s, rfl⟩
    cases s <;> decide
  · intro h
    simp only [_SPECIALIST_STATUSES, List.map_cons, List.map_nil, List.mem_cons,
      List.not_mem_nil, or_false] at h
    rcases h with h | h | h | h | h | h
    · exact ⟨planned, h⟩
    · exact ⟨started, h⟩
    · exact ⟨completed, h⟩
    · exact ⟨partials, h⟩
    · exact ⟨failed, h⟩
    · exact ⟨skipped, h⟩

end Phase

open Phase

/-! ### One task -/

/-- The phases of a task that has come to its end. -/
def Complete (t : List Phase) : Prop :=
  (∃ o : Phase, o.isOutcome ∧ t = [planned, started, o]) ∨ t = [planned, skipped]

/-- The phases are a beginning of those of a complete task. -/
def Legal (t : List Phase) : Prop := ∃ c, Complete c ∧ t <+: c

/-- The phase may follow the others. -/
def Follows (t : List Phase) (s : Phase) : Prop :=
  s ∉ t ∧ (s ≠ planned → planned ∈ t) ∧ (s.isOutcome → started ∈ t) ∧
    (s = skipped → started ∉ t) ∧ ∀ x ∈ t, ¬ x.isTerminal

instance (t : List Phase) (s : Phase) : Decidable (Follows t s) :=
  inferInstanceAs (Decidable (_ ∧ _))

lemma legal_iff {t : List Phase} :
    Legal t ↔ t = [] ∨ t = [planned] ∨ t = [planned, started] ∨ Complete t := by
  constructor
  · rintro ⟨c, ⟨o, ho, rfl⟩ | rfl, h₀⟩
    · rcases List.prefix_cons_iff.1 h₀ with rfl | ⟨t₁, rfl, h₁⟩
      · exact .inl rfl
      rcases List.prefix_cons_iff.1 h₁ with rfl | ⟨t₂, rfl, h₂⟩
      · exact .inr (.inl rfl)
      rcases List.prefix_cons_iff.1 h₂ with rfl | ⟨t₃, rfl, h₃⟩
      · exact .inr (.inr (.inl rfl))
      rw [List.prefix_nil.1 h₃]
      exact .inr (.inr (.inr (.inl ⟨o, ho, rfl⟩)))
    · rcases List.prefix_cons_iff.1 h₀ with rfl | ⟨t₁, rfl, h₁⟩
      · exact .inl rfl
      rcases List.prefix_cons_iff.1 h₁ with rfl | ⟨t₂, rfl, h₂⟩
      · exact .inr (.inl rfl)
      rw [List.prefix_nil.1 h₂]
      exact .inr (.inr (.inr (.inr rfl)))
  · have hskip : Complete [planned, skipped] := .inr rfl
    have hdone : Complete [planned, started, completed] := .inl ⟨completed, rfl, rfl⟩
    rintro (rfl | rfl | rfl | h)
    · exact ⟨_, hskip, List.nil_prefix⟩
    · exact ⟨_, hskip, ⟨[skipped], rfl⟩⟩
    · exact ⟨_, hdone, ⟨[completed], rfl⟩⟩
    · exact ⟨t, h, List.prefix_refl t⟩

lemma legal_nil : Legal [] := legal_iff.2 (.inl rfl)

lemma Legal.of_concat {t : List Phase} {s : Phase} (h : Legal (t ++ [s])) : Legal t := by
  obtain ⟨c, hc, hprefix⟩ := h
  exact ⟨c, hc, (List.prefix_append t [s]).trans hprefix⟩

instance (t : List Phase) : Decidable (Complete t) :=
  decidable_of_iff (t = [planned, started, completed] ∨ t = [planned, started, partials] ∨
      t = [planned, started, failed] ∨ t = [planned, skipped]) <| by
    constructor
    · rintro (rfl | rfl | rfl | rfl)
      · exact .inl ⟨completed, rfl, rfl⟩
      · exact .inl ⟨partials, rfl, rfl⟩
      · exact .inl ⟨failed, rfl, rfl⟩
      · exact .inr rfl
    · rintro (⟨o, ho, rfl⟩ | rfl)
      · revert ho; cases o <;> decide
      · simp

instance (t : List Phase) : Decidable (Legal t) := decidable_of_iff _ legal_iff.symm

/-- The phases that may follow are told by those that were. -/
lemma legal_concat {t : List Phase} {s : Phase} : Legal (t ++ [s]) ↔ Legal t ∧ Follows t s := by
  refine ⟨fun h => ⟨h.of_concat, ?_⟩, fun ⟨ht, h⟩ => ?_⟩
  · rcases legal_iff.1 h.of_concat with rfl | rfl | rfl | ⟨o, ho, rfl⟩ | rfl
    · revert h; cases s <;> decide
    · revert h; cases s <;> decide
    · revert h; cases s <;> decide
    · revert h ho; cases o <;> cases s <;> decide
    · revert h; cases s <;> decide
  · rcases legal_iff.1 ht with rfl | rfl | rfl | ⟨o, ho, rfl⟩ | rfl
    · revert h; cases s <;> decide
    · revert h; cases s <;> decide
    · revert h; cases s <;> decide
    · revert h ho; cases o <;> cases s <;> decide
    · revert h; cases s <;> decide

/-- The phases of a legal task in numbers. -/
lemma Legal.countP_isTerminal_le {t : List Phase} (h : Legal t) :
    t.countP isTerminal ≤ t.countP (· = planned) := by
  rcases legal_iff.1 h with rfl | rfl | rfl | ⟨o, ho, rfl⟩ | rfl
  · decide
  · decide
  · decide
  · revert ho; cases o <;> decide
  · decide

lemma Legal.complete_iff {t : List Phase} (h : Legal t) :
    t.countP isTerminal = t.countP (· = planned) ↔ t = [] ∨ Complete t := by
  rcases legal_iff.1 h with rfl | rfl | rfl | ⟨o, ho, rfl⟩ | rfl
  · decide
  · decide
  · decide
  · revert ho; cases o <;> decide
  · decide

lemma Complete.legal {t : List Phase} (h : Complete t) : Legal t := ⟨t, h, List.prefix_refl t⟩

lemma Complete.countP_isOutcome {t : List Phase} (h : Complete t) :
    t.countP isOutcome = t.countP (· = started) := by
  rcases h with ⟨o, ho, rfl⟩ | rfl
  · revert ho; cases o <;> decide
  · decide

/-! ### The transitions of a task -/

/-- The plan a task is of, and its name there. -/
abbrev TaskId := Text × Text

/-- A transition, with the parent and the role that the event gives the task. -/
structure Transition where
  parent : Text
  role : Text
  phase : Phase
  deriving DecidableEq

namespace Transition

/-- Both name the same parent and role. -/
def Agrees (a b : Transition) : Prop := a.parent = b.parent ∧ a.role = b.role

/-- The task has one role and one parent. -/
def OneIdentity (t : List Transition) : Prop := ∀ a ∈ t, ∀ b ∈ t, a.Agrees b

lemma oneIdentity_concat {t : List Transition} {x : Transition} :
    OneIdentity (t ++ [x]) ↔ OneIdentity t ∧ ∀ a ∈ t.head?, a.Agrees x := by
  constructor
  · intro h
    refine ⟨fun a ha b hb => h a (List.mem_append_left _ ha) b (List.mem_append_left _ hb), ?_⟩
    intro a ha
    exact h a (List.mem_append_left _ (List.mem_of_mem_head? ha)) x (by simp)
  · rintro ⟨h, hx⟩
    have hall : ∀ a ∈ t, a.Agrees x := by
      cases t with
      | nil => simp
      | cons b t =>
        intro a ha
        have hab := h a ha b (by simp)
        have hbx := hx b rfl
        exact ⟨hab.1.trans hbx.1, hab.2.trans hbx.2⟩
    intro a ha b hb
    rcases List.mem_append.1 ha with ha | ha <;> rcases List.mem_append.1 hb with hb | hb
    · exact h a ha b hb
    · rw [List.mem_singleton.1 hb]
      exact hall a ha
    · rw [List.mem_singleton.1 ha]
      exact ⟨(hall b hb).1.symm, (hall b hb).2.symm⟩
    · rw [List.mem_singleton.1 ha, List.mem_singleton.1 hb]
      exact ⟨rfl, rfl⟩

end Transition

open Transition

/-- What a task has gone through is legal so far. -/
def LegalTrace (t : List Transition) : Prop := Legal (t.map phase) ∧ OneIdentity t

/-- The task has come to its end; of a task there may be nothing. -/
def CompleteTrace (t : List Transition) : Prop :=
  (t = [] ∨ Complete (t.map phase)) ∧ OneIdentity t

def FollowsTrace (t : List Transition) (x : Transition) : Prop :=
  Follows (t.map phase) x.phase ∧ ∀ a ∈ t.head?, a.Agrees x

lemma legalTrace_nil : LegalTrace [] := ⟨legal_nil, by simp [OneIdentity]⟩

lemma legalTrace_concat (t : List Transition) (x : Transition) :
    LegalTrace (t ++ [x]) ↔ LegalTrace t ∧ FollowsTrace t x := by
  rw [LegalTrace, LegalTrace, FollowsTrace, List.map_append, List.map_singleton, legal_concat,
    oneIdentity_concat, and_and_and_comm]

/-! ### Streams of transitions -/

variable {l : List (TaskId × Transition)}

/-- How many transitions are of the kind. -/
def countOf (q : Phase → Bool) (l : List (TaskId × Transition)) : Nat := l.countP fun x => q x.2.phase

lemma countP_phase (q : Phase → Bool) (k : TaskId) :
    (Streams.of k l).countP (fun x => q x.phase) = ((Streams.of k l).map phase).countP q := by
  rw [List.countP_map]
  rfl

/-- The tasks of a legal stream have all come to an end where as many ended as were planned. -/
lemma complete_iff_of_legal (h : Streams.Interleaves LegalTrace l) :
    countOf isTerminal l = countOf (· = planned) l ↔ Streams.Interleaves CompleteTrace l := by
  have hle : ∀ k, (Streams.of k l).countP (fun x => isTerminal x.phase) ≤
      (Streams.of k l).countP fun x => decide (x.phase = planned) := by
    intro k
    rw [countP_phase isTerminal, countP_phase fun s => decide (s = planned)]
    exact (h k).1.countP_isTerminal_le
  refine (Streams.countP_eq_iff (q := fun x : Transition => isTerminal x.phase)
    (r := fun x => decide (x.phase = planned)) hle).trans (forall_congr' fun k => ?_)
  rw [countP_phase isTerminal, countP_phase fun s => decide (s = planned), (h k).1.complete_iff,
    List.map_eq_nil_iff]
  exact ⟨fun hc => ⟨hc, (h k).2⟩, fun hc => hc.1⟩

lemma legal_of_complete (h : Streams.Interleaves CompleteTrace l) :
    Streams.Interleaves LegalTrace l := by
  intro k
  refine ⟨?_, (h k).2⟩
  rcases (h k).1 with hnil | hc
  · rw [hnil]
    exact legal_nil
  · exact hc.legal

/-- Of complete tasks as many come to an outcome as were started. -/
lemma countOf_isOutcome_eq_started (h : Streams.Interleaves CompleteTrace l) :
    countOf isOutcome l = countOf (· = started) l := by
  have heq : ∀ k, (Streams.of k l).countP (fun x => isOutcome x.phase) =
      (Streams.of k l).countP fun x => decide (x.phase = started) := by
    intro k
    rw [countP_phase isOutcome, countP_phase fun s => decide (s = started)]
    rcases (h k).1 with hnil | hc
    · rw [hnil]
      rfl
    · exact hc.countP_isOutcome
  exact (Streams.countP_eq_iff (q := fun x : Transition => isOutcome x.phase)
    (r := fun x => decide (x.phase = started)) fun k => (heq k).le).2 heq

lemma countOf_isOutcome (l : List (TaskId × Transition)) : countOf isOutcome l =
    countOf (· = completed) l + countOf (· = partials) l + countOf (· = failed) l := by
  induction l with
  | nil => rfl
  | cons x l ih =>
    simp only [countOf, List.countP_cons] at ih ⊢
    rw [ih]
    cases x.2.phase <;> simp [isOutcome] <;> omega

lemma countOf_isTerminal (l : List (TaskId × Transition)) :
    countOf isTerminal l = countOf isOutcome l + countOf (· = skipped) l := by
  induction l with
  | nil => rfl
  | cons x l ih =>
    simp only [countOf, List.countP_cons] at ih ⊢
    rw [ih]
    cases x.2.phase <;> simp [isOutcome, isTerminal] <;> omega

end RentCompass.Canary
