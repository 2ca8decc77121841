import RentCompass.Rows
import RentCompass.Runs
import RentCompass.Sha256
import Mathlib.Data.List.MinMax
import Mathlib.Logic.Function.Basic

/-!
# Pending memory writes

The ledger of memory writes that wait for the user's word, shared by all processes. A claim reads a
candidate and then deletes it, in two statements. What it hands out is what it has taken out of the
ledger, unless the candidate was frozen again between the two.
-/

namespace RentCompass.Memory

open Rows

variable {τ π : Type} [LinearOrder τ] [DecidableEq π]

/-- `[0-9a-f]{32}` -/
def IsOperationId (t : Text) : Prop :=
  t.length = 32 ∧ ∀ c ∈ t, 48 ≤ c ∧ c ≤ 57 ∨ 97 ≤ c ∧ c ≤ 102

instance (t : Text) : Decidable (IsOperationId t) := inferInstanceAs (Decidable (_ ∧ _))

/-- What `uuid.uuid4().hex` returns. -/
abbrev OperationId := { t : Text // IsOperationId t }

/-- A row of `pending_memory_writes`, or a candidate with its session and digest. -/
structure PendingWrite (τ : Type) where
  session : Text
  digest : Text
  content : Text
  kind : Text
  created : τ
  operation : Text
  attempt : Int
  deriving DecidableEq

/-- `PRIMARY KEY(session_id, digest)` -/
def PendingWrite.key (r : PendingWrite τ) : Text × Text := (r.session, r.digest)

/-- What `restore` checks of a candidate. -/
def PendingWrite.Restorable (r : PendingWrite τ) : Prop :=
  IsOperationId r.operation ∧ 0 ≤ r.attempt ∧ r.digest = Sha256.hexDigest r.content

instance (r : PendingWrite τ) : Decidable r.Restorable := inferInstanceAs (Decidable (_ ∧ _ ∧ _))

/-- A successful claim: the row its `DELETE` took, and what it returned. -/
structure Claim (τ : Type) where
  taken : PendingWrite τ
  handed : PendingWrite τ
  deriving DecidableEq

/-- The ledger, what each process has read for a claim, and what has happened: the rows that were
frozen and restored, and the claims. -/
structure PendingWorld (τ π : Type) where
  rows : List (PendingWrite τ)
  reading : π → Option (PendingWrite τ)
  frozen : List (PendingWrite τ)
  restored : List (PendingWrite τ)
  claims : List (Claim τ)

def PendingWorld.start : PendingWorld τ π := ⟨[], fun _ => none, [], [], []⟩

inductive PendingAct (τ π : Type) where
  | freeze (session content kind : Text) (now : τ) (operation : OperationId)
  /-- The `SELECT` of `consume`. -/
  | look (p : π) (session digest : Text)
  /-- The `DELETE` of `consume`. -/
  | take (p : π)
  /-- What the `i`th claim returned goes back, for another attempt. -/
  | restore (i : Nat) (attempt : Int)
  /-- The process stops. -/
  | stop (p : π)

/-- `restore`: the rows, the row that was inserted, and the answer. -/
def restoreRow (rows : List (PendingWrite τ)) (r : PendingWrite τ) :
    List (PendingWrite τ) × List (PendingWrite τ) × Bool :=
  if ¬ r.Restorable then (rows, [], false)
  else
    -- INSERT OR IGNORE
    match selectOne (fun row => row.key = r.key) rows with
    | some row => (rows, [], row.content = r.content)
    | none => (rows ++ [r], [r], true)

/-- `latest_digest` -/
def latestDigest (rows : List (PendingWrite τ)) (session : Text) : Option Text :=
  ((rows.filter (·.session = session)).argmax (·.created)).map (·.digest)

namespace PendingWorld

def step (s : PendingWorld τ π) : PendingAct τ π → PendingWorld τ π
  | .freeze session content kind now operation =>
    if ¬ (session ++ content ++ kind).Storable then s
    else
      let row : PendingWrite τ :=
        ⟨session, Sha256.hexDigest content, content, kind, now, operation, 0⟩
      -- INSERT OR REPLACE
      { s with
        rows := deleteWhere (fun r => r.key = row.key) s.rows ++ [row]
        frozen := s.frozen ++ [row] }
  | .look p session digest =>
    let found := selectOne (fun r => r.key = (session, digest)) s.rows
    { s with reading := Function.update s.reading p found }
  | .take p =>
    match s.reading p with
    | none => s
    | some row =>
      let idle := Function.update s.reading p none
      match selectOne (fun r => r.key = row.key) s.rows with
      | none => { s with reading := idle }
      | some taken =>
        { s with
          rows := deleteWhere (fun r => r.key = row.key) s.rows
          reading := idle
          claims := s.claims ++ [⟨taken, row⟩] }
  | .restore i attempt =>
    match s.claims[i]? with
    | none => s
    | some claim =>
      let r := restoreRow s.rows { claim.handed with attempt }
      { s with rows := r.1, restored := s.restored ++ r.2.1 }
  | .stop p => { s with reading := Function.update s.reading p none }

/-- The row that the `DELETE` of a claim finds, if any, is the one its `SELECT` has read. -/
def Undisturbed (s : PendingWorld τ π) : PendingAct τ π → Prop
  | .take p => ∀ row ∈ s.reading p, ∀ taken ∈ s.rows, taken.key = row.key → taken = row
  | _ => True

instance (s : PendingWorld τ π) : (a : PendingAct τ π) → Decidable (s.Undisturbed a)
  | .take p => inferInstanceAs (Decidable (∀ row ∈ s.reading p, ∀ taken ∈ s.rows,
      taken.key = row.key → taken = row))
  | .freeze .. | .look .. | .restore .. | .stop .. => isTrue trivial

/-- A row as it was frozen, for whichever attempt. -/
def AsFrozen (s : PendingWorld τ π) (r : PendingWrite τ) : Prop :=
  ∃ f ∈ s.frozen, { f with attempt := r.attempt } = r

structure Ledger (s : PendingWorld τ π) : Prop where
  keyed : Keyed PendingWrite.key s.rows
  /-- No row is taken more often than it was put in. -/
  counted : ∀ r, (s.claims.map (·.taken)).count r + s.rows.count r ≤
    s.frozen.count r + s.restored.count r
  frozen : ∀ f ∈ s.frozen, IsOperationId f.operation ∧ f.digest = Sha256.hexDigest f.content
  rows : ∀ r ∈ s.rows, s.AsFrozen r
  reading : ∀ p, ∀ r ∈ s.reading p, s.AsFrozen r
  claims : ∀ claim ∈ s.claims, s.AsFrozen claim.handed ∧ claim.taken.key = claim.handed.key

/-! ### Counting rows -/

lemma count_deleteWhere {p : PendingWrite τ → Prop} [DecidablePred p] {rows : List (PendingWrite τ)}
    {t : PendingWrite τ} (ht : t ∈ rows) (hp : p t) (r : PendingWrite τ) :
    [t].count r + (deleteWhere p rows).count r ≤ rows.count r := by
  by_cases hr : t = r
  · subst hr
    have hnot : (deleteWhere p rows).count t = 0 :=
      List.count_eq_zero.2 fun hmem => (mem_deleteWhere.1 hmem).2 hp
    rw [hnot, List.count_singleton_self]
    exact List.one_le_count_iff.2 ht
  · rw [List.count_singleton, if_neg (by simpa using hr), Nat.zero_add]
    exact List.filter_sublist.count_le r

omit [LinearOrder τ] in
lemma restoreRow_cases (rows : List (PendingWrite τ)) (r : PendingWrite τ) :
    (restoreRow rows r).1 = rows ∧ (restoreRow rows r).2.1 = [] ∨
      (∀ row ∈ rows, row.key ≠ r.key) ∧ (restoreRow rows r).1 = rows ++ [r] ∧
        (restoreRow rows r).2.1 = [r] := by
  unfold restoreRow
  by_cases hvalid : r.Restorable
  · rw [if_neg (not_not.2 hvalid)]
    cases hfound : selectOne (fun row => row.key = r.key) rows with
    | some row => exact .inl ⟨rfl, rfl⟩
    | none => exact .inr ⟨selectOne_eq_none.1 hfound, rfl, rfl⟩
  · rw [if_pos hvalid]
    exact .inl ⟨rfl, rfl⟩

/-! ### Steps -/

omit [LinearOrder τ] [DecidableEq π] in
lemma AsFrozen.mono {s s' : PendingWorld τ π} {r : PendingWrite τ} (h : s.AsFrozen r)
    (hsub : ∀ f ∈ s.frozen, f ∈ s'.frozen) : s'.AsFrozen r := by
  obtain ⟨f, hf, heq⟩ := h
  exact ⟨f, hsub f hf, heq⟩

omit [DecidableEq π] in
lemma ledger_start : (start : PendingWorld τ π).Ledger :=
  ⟨keyed_nil, by simp [start], by simp [start], by simp [start], by simp [start], by simp [start]⟩

lemma Ledger.freeze {s : PendingWorld τ π} (h : s.Ledger) (session content kind : Text) (now : τ)
    (operation : OperationId) : (s.step (.freeze session content kind now operation)).Ledger := by
  by_cases hstorable : (session ++ content ++ kind).Storable
  swap
  · rw [step, if_pos hstorable]
    exact h
  rw [step, if_neg (not_not.2 hstorable)]
  generalize hrow : (⟨session, Sha256.hexDigest content, content, kind, now, operation, 0⟩ :
    PendingWrite τ) = row
  have hold : ∀ f ∈ s.frozen, f ∈ s.frozen ++ [row] := fun f hf => List.mem_append_left _ hf
  constructor
  · exact h.keyed.deleteWhere.append_one fun r hr => (mem_deleteWhere.1 hr).2
  · intro r
    have hcount := h.counted r
    have hsub := (List.filter_sublist (l := s.rows)
      (p := fun r => ¬ r.key = row.key)).count_le r
    simp only [List.count_append]
    have hdelete : (deleteWhere (fun r => r.key = row.key) s.rows).count r ≤ s.rows.count r := hsub
    omega
  · intro f hf
    rcases List.mem_append.1 hf with hf | hf
    · exact h.frozen f hf
    · rw [List.mem_singleton.1 hf, ← hrow]
      exact ⟨operation.2, rfl⟩
  · intro r hr
    rcases List.mem_append.1 hr with hr | hr
    · exact (h.rows r (mem_of_mem_deleteWhere hr)).mono hold
    · refine ⟨row, List.mem_append_right _ (List.mem_singleton_self _), ?_⟩
      rw [List.mem_singleton.1 hr]
  · exact fun p r hr => (h.reading p r hr).mono hold
  · exact fun claim hclaim => ⟨(h.claims claim hclaim).1.mono hold, (h.claims claim hclaim).2⟩

/-- What a process reads or forgets is of no matter to the others. -/
lemma Ledger.setReading {s : PendingWorld τ π} (h : s.Ledger) (p : π)
    {found : Option (PendingWrite τ)} (hfound : ∀ r ∈ found, s.AsFrozen r) :
    ({ s with reading := Function.update s.reading p found } : PendingWorld τ π).Ledger where
  keyed := h.keyed
  counted := h.counted
  frozen := h.frozen
  rows := h.rows
  reading q r hr := by
    by_cases hq : q = p
    · subst hq
      have hr : r ∈ Function.update s.reading q found q := hr
      rw [Function.update_self] at hr
      exact hfound r hr
    · have hr : r ∈ Function.update s.reading p found q := hr
      rw [Function.update_of_ne hq] at hr
      exact h.reading q r hr
  claims := h.claims

lemma Ledger.take {s : PendingWorld τ π} (h : s.Ledger) (p : π) : (s.step (.take p)).Ledger := by
  cases hread : s.reading p with
  | none =>
    rw [step, hread]
    exact h
  | some row =>
    cases hfound : selectOne (fun r => r.key = row.key) s.rows with
    | none =>
      simp only [step, hread, hfound]
      exact h.setReading p fun r hr => by cases hr
    | some taken =>
      simp only [step, hread, hfound]
      have hmem : taken ∈ s.rows := selectOne_mem hfound
      have hkey : taken.key = row.key :=
        selectOne_holds (p := fun r : PendingWrite τ => r.key = row.key) hfound
      have hidle : ({ s with reading := Function.update s.reading p none } :
          PendingWorld τ π).Ledger := h.setReading p fun r hr => by cases hr
      refine ⟨h.keyed.deleteWhere, fun r => ?_, h.frozen,
        fun r hr => h.rows r (mem_of_mem_deleteWhere hr), hidle.reading, fun claim hclaim => ?_⟩
      · have hcount := h.counted r
        have hdelete := count_deleteWhere (p := fun r => r.key = row.key) hmem hkey r
        rw [List.map_append, List.count_append, List.map_singleton]
        show (s.claims.map (·.taken)).count r + [taken].count r +
          (deleteWhere (fun r => r.key = row.key) s.rows).count r ≤
            s.frozen.count r + s.restored.count r
        omega
      · rcases List.mem_append.1 hclaim with hclaim | hclaim
        · exact h.claims claim hclaim
        · rw [List.mem_singleton.1 hclaim]
          exact ⟨h.reading p row hread, hkey⟩

lemma Ledger.restore {s : PendingWorld τ π} (h : s.Ledger) (i : Nat) (attempt : Int) :
    (s.step (.restore i attempt)).Ledger := by
  cases hclaim : s.claims[i]? with
  | none =>
    rw [step, hclaim]
    exact h
  | some claim =>
    have hfrozen := (h.claims claim (List.mem_of_getElem? hclaim)).1
    simp only [step, hclaim]
    rcases restoreRow_cases s.rows { claim.handed with attempt } with
      ⟨hrows, hnew⟩ | ⟨hfree, hrows, hnew⟩
    · rw [hrows, hnew, List.append_nil]
      exact h
    · rw [hrows, hnew]
      refine ⟨h.keyed.append_one hfree, fun r => ?_, h.frozen, fun r hr => ?_, h.reading, h.claims⟩
      · have hcount := h.counted r
        simp only [List.count_append]
        omega
      · rcases List.mem_append.1 hr with hr | hr
        · exact h.rows r hr
        · obtain ⟨f, hf, heq⟩ := hfrozen
          refine ⟨f, hf, ?_⟩
          rw [List.mem_singleton.1 hr, ← heq]

lemma Ledger.step {s : PendingWorld τ π} (h : s.Ledger) (a : PendingAct τ π) :
    (s.step a).Ledger := by
  cases a with
  | freeze session content kind now operation => exact h.freeze session content kind now operation
  | look p session digest =>
    exact h.setReading p fun r hr => h.rows r (selectOne_mem hr)
  | take p => exact h.take p
  | restore i attempt => exact h.restore i attempt
  | stop p => exact h.setReading p fun r hr => by cases hr

/-! ### Runs -/

omit [DecidableEq π] in
/-- What goes back is put where it was frozen, unless a row of its key is there. -/
lemma Ledger.restoreRow_of_claim {s : PendingWorld τ π} (h : s.Ledger) {claim : Claim τ}
    (hclaim : claim ∈ s.claims) {attempt : Int} (hattempt : 0 ≤ attempt) :
    (restoreRow s.rows { claim.handed with attempt }).1 =
      if ∃ row ∈ s.rows, row.key = claim.handed.key then s.rows
      else s.rows ++ [{ claim.handed with attempt }] := by
  obtain ⟨f, hf, heq⟩ := (h.claims claim hclaim).1
  have hvalid : ({ claim.handed with attempt } : PendingWrite τ).Restorable := by
    obtain ⟨hoperation, hdigest⟩ := h.frozen f hf
    rw [← heq]
    exact ⟨hoperation, hattempt, hdigest⟩
  rw [restoreRow, if_neg (not_not.2 hvalid)]
  have hkey : ({ claim.handed with attempt } : PendingWrite τ).key = claim.handed.key := rfl
  simp only [hkey]
  cases hfound : selectOne (fun row : PendingWrite τ => row.key = claim.handed.key) s.rows with
  | some row =>
    have hrow : row.key = claim.handed.key :=
      selectOne_holds (p := fun row : PendingWrite τ => row.key = claim.handed.key) hfound
    rw [if_pos ⟨row, selectOne_mem hfound, hrow⟩]
  | none =>
    rw [if_neg]
    rintro ⟨row, hrow, hkey⟩
    exact selectOne_eq_none.1 hfound row hrow hkey

/-- What a claim hands out is what it has taken. -/
def Honest (s : PendingWorld τ π) : Prop := ∀ claim ∈ s.claims, claim.handed = claim.taken

omit [LinearOrder τ] in
lemma Honest.step {s : PendingWorld τ π} (h : s.Honest) {a : PendingAct τ π}
    (ha : s.Undisturbed a) : (s.step a).Honest := by
  cases a with
  | freeze session content kind now operation =>
    rw [PendingWorld.step]
    split_ifs <;> exact h
  | look p session digest => exact h
  | take p =>
    cases hread : s.reading p with
    | none =>
      rw [PendingWorld.step, hread]
      exact h
    | some row =>
      cases hfound : selectOne (fun r => r.key = row.key) s.rows with
      | none =>
        simp only [PendingWorld.step, hread, hfound]
        exact h
      | some taken =>
        simp only [PendingWorld.step, hread, hfound]
        intro claim hclaim
        rcases List.mem_append.1 hclaim with hclaim | hclaim
        · exact h claim hclaim
        · rw [List.mem_singleton.1 hclaim]
          have hkey : taken.key = row.key :=
            selectOne_holds (p := fun r : PendingWrite τ => r.key = row.key) hfound
          exact (ha row hread taken (selectOne_mem hfound) hkey).symm
  | restore i attempt =>
    rw [PendingWorld.step]
    split <;> exact h
  | stop p => exact h

end PendingWorld

/-- The row a lookup of the latest candidate names is one of the session frozen last. -/
lemma latestDigest_spec (rows : List (PendingWrite τ)) (session : Text) :
    match latestDigest rows session with
    | none => ∀ r ∈ rows, r.session ≠ session
    | some digest => ∃ latest ∈ rows, latest.session = session ∧ latest.digest = digest ∧
        ∀ r ∈ rows, r.session = session → r.created ≤ latest.created := by
  unfold latestDigest
  cases hmax : (rows.filter (·.session = session)).argmax (·.created) with
  | none =>
    have hnil := List.argmax_eq_none.1 hmax
    intro r hr
    simpa using List.filter_eq_nil_iff.1 hnil r hr
  | some latest =>
    obtain ⟨hmem, hsession⟩ := List.mem_filter.1 (List.argmax_mem hmax)
    refine ⟨latest, hmem, by simpa using hsession, rfl, fun r hr hrs => ?_⟩
    exact List.le_of_mem_argmax (List.mem_filter.2 ⟨hr, by simpa using hrs⟩) hmax

/-- What a claim returned goes back to the place of the row the claim took, unless the candidate was
frozen again. -/
def PendingWorld.PutsBack (s : PendingWorld τ π) : Prop :=
  ∀ claim ∈ s.claims, ∀ attempt : Int, 0 ≤ attempt →
    (restoreRow s.rows { claim.handed with attempt }).1 =
      if ∃ row ∈ s.rows, row.key = claim.taken.key then s.rows
      else s.rows ++ [{ claim.taken with attempt }]

/-- After any calls of any processes, no row has been taken more often than it was frozen or
restored, what was claimed is what was frozen under its digest, and the latest candidate is one of
the pending ones frozen last; and where no claim deletes another row than it has read, what was
claimed goes back to its place. -/
theorem pending_writes_kept (acts : List (PendingAct τ π)) :
    let s : PendingWorld τ π := Runs.run PendingWorld.step .start acts
    (∀ r, (s.claims.map (·.taken)).count r + s.rows.count r ≤
      s.frozen.count r + s.restored.count r) ∧
    (∀ claim ∈ s.claims, s.AsFrozen claim.handed ∧
      claim.handed.digest = Sha256.hexDigest claim.handed.content) ∧
    (∀ session, match latestDigest s.rows session with
      | none => ∀ r ∈ s.rows, r.session ≠ session
      | some digest => ∃ latest ∈ s.rows, s.AsFrozen latest ∧ latest.session = session ∧
          latest.digest = digest ∧ ∀ r ∈ s.rows, r.session = session → r.created ≤ latest.created) ∧
    (Runs.Along PendingWorld.step PendingWorld.Undisturbed .start acts → s.PutsBack) := by
  intro s
  have hledger : s.Ledger :=
    Runs.run_preserves (fun s a h => h.step a) PendingWorld.ledger_start acts
  refine ⟨hledger.counted, fun claim hclaim => ?_, fun session => ?_, fun hrun => ?_⟩
  · have hfrozen := (hledger.claims claim hclaim).1
    obtain ⟨f, hf, heq⟩ := hfrozen
    refine ⟨⟨f, hf, heq⟩, ?_⟩
    rw [← heq]
    exact (hledger.frozen f hf).2
  · have hlatest := latestDigest_spec s.rows session
    split at hlatest
    · exact hlatest
    · obtain ⟨latest, hmem, hsession, hdigest, hmax⟩ := hlatest
      exact ⟨latest, hmem, hledger.rows latest hmem, hsession, hdigest, hmax⟩
  · have hhonest : s.Honest := Runs.run_preserves_along (fun s a h ha => h.step ha)
      (fun claim hclaim => by cases hclaim) hrun
    intro claim hclaim attempt hattempt
    rw [hledger.restoreRow_of_claim hclaim hattempt, hhonest claim hclaim]

def firstOperation : OperationId := ⟨List.replicate 32 48, by decide⟩

def secondOperation : OperationId := ⟨List.replicate 32 49, by decide⟩

/-- Two tabs confirm a candidate; the one that gets it fails, after another candidate was frozen. -/
def twoTabs : List (PendingAct Int Bool) :=
  [.freeze "s" "no smokers" "semantic" 1 firstOperation,
    .look true "s" (Sha256.hexDigest "no smokers"),
    .look false "s" (Sha256.hexDigest "no smokers"),
    .take true,
    .freeze "s" "a garden" "semantic" 2 secondOperation,
    .take false]

theorem pending_writes_kept_twoTabs :
    (Runs.run PendingWorld.step .start twoTabs : PendingWorld Int Bool).PutsBack :=
  (pending_writes_kept twoTabs).2.2.2 (by decide +kernel)

/-- A claim has read a candidate when another is frozen, and then the first again; it deletes the
new row, and returns what it has read. -/
def staleClaim : List (PendingAct Int Bool) :=
  [.freeze "s" "no smokers" "semantic" 1 firstOperation,
    .look true "s" (Sha256.hexDigest "no smokers"),
    .freeze "s" "a garden" "semantic" 2 firstOperation,
    .freeze "s" "no smokers" "semantic" 3 secondOperation,
    .take true]

/-- What a stale claim returned goes back before the other candidate, which was frozen before the
row that the claim took. -/
theorem stale_claim_goes_back_too_early :
    ¬ ∀ acts : List (PendingAct Int Bool), (Runs.run PendingWorld.step .start acts).PutsBack := by
  intro h
  have hback := h staleClaim
  have hclaim : (⟨⟨"s", Sha256.hexDigest "no smokers", "no smokers", "semantic", 3,
        secondOperation, 0⟩,
      ⟨"s", Sha256.hexDigest "no smokers", "no smokers", "semantic", 1, firstOperation, 0⟩⟩ :
      Claim Int) ∈ (Runs.run PendingWorld.step .start staleClaim).claims := by decide +kernel
  have hrows := hback _ hclaim 1 (by decide)
  revert hrows
  decide +kernel

end RentCompass.Memory
