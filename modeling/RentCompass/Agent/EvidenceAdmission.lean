import RentCompass.Agent.FailClosed
import RentCompass.Agent.SpecialistResults

/-!
# Which evidence is admitted

A batch that was prepared has one result for each task, whatever the ledger. A call counts exactly
where one entry of the ledger has its artifact id and agrees with it; a task whose calls do not all
have such an entry fails; and neither the order of the ledger nor entries of other calls matter.
-/

namespace RentCompass.Agent

variable {φ : Type} [FloatFormat φ] {py : Interpreter φ} {hash : Hashing} {ctx : BatchContext}

/-! ### The ledger and the calls -/

/-- The one entry of the ledger under the call's id agrees with the call. -/
def Matched (prepared : PreparedBatch φ) (ledger : List (LedgerEntry φ)) (call : PreparedCall)
    (artifact : LedgerEntry φ) : Prop :=
  entriesOf ledger call.artifactId = [artifact] ∧ artifactMatches prepared call artifact = true

/-- The entry of the call, where there is one and it agrees. -/
def matchOf (prepared : PreparedBatch φ) (ledger : List (LedgerEntry φ)) (call : PreparedCall) :
    Option (LedgerEntry φ) :=
  match entriesOf ledger call.artifactId with
  | [artifact] => if artifactMatches prepared call artifact then some artifact else none
  | _ => none

lemma matchOf_eq_some {prepared : PreparedBatch φ} {ledger : List (LedgerEntry φ)}
    {call : PreparedCall} {artifact : LedgerEntry φ} :
    matchOf prepared ledger call = some artifact ↔ Matched prepared ledger call artifact := by
  rw [matchOf, Matched]
  split
  · next entry hentries =>
    rw [hentries]
    split_ifs with hmatches
    · constructor
      · rintro h
        obtain rfl := Option.some.inj h
        exact ⟨rfl, hmatches⟩
      · rintro ⟨h, -⟩
        rw [List.singleton_inj.1 h]
    · constructor
      · rintro ⟨⟩
      · rintro ⟨h, hagrees⟩
        rw [List.singleton_inj.1 h] at hmatches
        exact absurd hagrees hmatches
  · next hnot =>
    constructor
    · rintro ⟨⟩
    · rintro ⟨h, -⟩
      exact absurd h (hnot artifact)

variable {prepared : PreparedBatch φ} {ledger ledger' : List (LedgerEntry φ)}
  {calls : List PreparedCall}

lemma matchCalls_cons (call : PreparedCall) :
    matchCalls prepared ledger (call :: calls) =
      match matchOf prepared ledger call with
      | some artifact => (artifact :: (matchCalls prepared ledger calls).1,
          (matchCalls prepared ledger calls).2)
      | none => ([], true) := by
  rw [matchCalls, matchOf]
  cases entriesOf ledger call.artifactId with
  | nil => rfl
  | cons artifact rest =>
    cases rest with
    | nil =>
      by_cases hmatches : artifactMatches prepared call artifact = true
      · simp [hmatches]
      · simp [hmatches]
    | cons artifact' rest => rfl

lemma matchCalls_congr
    (h : ∀ call ∈ calls, matchOf prepared ledger call = matchOf prepared ledger' call) :
    matchCalls prepared ledger calls = matchCalls prepared ledger' calls := by
  induction calls with
  | nil => rfl
  | cons call calls ih =>
    rw [matchCalls_cons, matchCalls_cons, h call List.mem_cons_self,
      ih fun call' hcall' => h call' (List.mem_cons_of_mem _ hcall')]

/-- The ledger is invalid for a task exactly where one of its calls has no entry that agrees. -/
lemma matchCalls_invalid_iff : (matchCalls prepared ledger calls).2 = true ↔
    ∃ call ∈ calls, matchOf prepared ledger call = none := by
  induction calls with
  | nil => simp [matchCalls]
  | cons call calls ih =>
    rw [matchCalls_cons]
    cases hcall : matchOf prepared ledger call with
    | none => exact iff_of_true rfl ⟨call, List.mem_cons_self, hcall⟩
    | some artifact =>
      rw [ih]
      constructor
      · rintro ⟨call', hmem, hnone⟩
        exact ⟨call', List.mem_cons_of_mem _ hmem, hnone⟩
      · rintro ⟨call', hmem, hnone⟩
        rcases List.mem_cons.1 hmem with rfl | hmem
        · rw [hcall] at hnone
          cases hnone
        · exact ⟨call', hmem, hnone⟩

lemma forall₂_matchCalls (h : (matchCalls prepared ledger calls).2 = false) :
    List.Forall₂ (fun call artifact => matchOf prepared ledger call = some artifact) calls
      (matchCalls prepared ledger calls).1 := by
  induction calls with
  | nil => exact .nil
  | cons call calls ih =>
    rw [matchCalls_cons] at h ⊢
    cases hcall : matchOf prepared ledger call with
    | none =>
      rw [hcall] at h
      cases h
    | some artifact =>
      rw [hcall] at h
      exact .cons hcall (ih h)

/-- The call has an entry that agrees and is reliable. -/
def admitted (py : Interpreter φ) (prepared : PreparedBatch φ) (ledger : List (LedgerEntry φ))
    (call : PreparedCall) : Bool := (matchOf prepared ledger call).any (reliable py)

lemma map_fst_filter_zip {artifacts : List (LedgerEntry φ)}
    (h : List.Forall₂ (fun call artifact => matchOf prepared ledger call = some artifact) calls
      artifacts) :
    ((calls.zip artifacts).filter fun p => reliable py p.2).map Prod.fst =
      calls.filter (admitted py prepared ledger) := by
  induction h with
  | nil => rfl
  | cons hcall _ ih =>
    rw [List.zip_cons_cons, List.filter_cons, List.filter_cons, admitted, hcall]
    simp only [Option.any_some]
    split_ifs
    · rw [List.map_cons, ih]
    · exact ih

/-! ### The order of the ledger -/

omit [FloatFormat φ] in
lemma entriesOf_perm (h : ledger.Perm ledger') (artifactId : Text) :
    (entriesOf ledger artifactId).Perm (entriesOf ledger' artifactId) := h.filter _

lemma matchOf_perm (h : ledger.Perm ledger') (call : PreparedCall) :
    matchOf prepared ledger call = matchOf prepared ledger' call := by
  ext artifact
  have hentries := entriesOf_perm h call.artifactId
  rw [matchOf_eq_some, matchOf_eq_some, Matched, Matched]
  refine and_congr_left fun _ => ⟨fun heq => ?_, fun heq => ?_⟩
  · rw [heq] at hentries
    exact (List.singleton_perm.1 hentries).symm
  · rw [heq] at hentries
    exact List.perm_singleton.1 hentries

/-- Entries under other ids. -/
def Foreign (extra : List (LedgerEntry φ)) (call : PreparedCall) : Prop :=
  ∀ artifact ∈ extra, isText (artifact.get "artifact_id") call.artifactId = false

lemma matchOf_append_foreign {extra : List (LedgerEntry φ)} {call : PreparedCall}
    (h : Foreign extra call) :
    matchOf prepared (ledger ++ extra) call = matchOf prepared ledger call := by
  have hnone : entriesOf extra call.artifactId = [] := by
    rw [entriesOf, List.filter_eq_nil_iff]
    intro artifact hmem
    rw [h artifact hmem]
    exact Bool.false_ne_true
  have hentries : entriesOf (ledger ++ extra) call.artifactId =
      entriesOf ledger call.artifactId := by
    rw [entriesOf, List.filter_append]
    change _ ++ entriesOf extra call.artifactId = _
    rw [hnone, List.append_nil, entriesOf]
  rw [matchOf, matchOf, hentries]

/-- The result of a task depends only on the entries of its calls. -/
lemma taskResult_congr {measured : Dict (JsonValue φ)} {task : SpecialistTask φ}
    (h : ∀ call ∈ prepared.callsOf task,
      matchOf prepared ledger call = matchOf prepared ledger' call) :
    taskResult py hash prepared ledger measured task =
      taskResult py hash prepared ledger' measured task := by
  rw [taskResult, taskResult, matchCalls_congr h]

end RentCompass.Agent
