import RentCompass.Memory.ExplicitFacts

/-!
# Remembering takes effect

After an `add` the user has a row with the text, unless the `add` takes an older row for its own
that has another text by now, or finds the id of its row taken: the id is that of the text first
stored, and the row may have been rewritten since.
-/

namespace RentCompass.Memory

open Rows

variable {β κ δ : Type} (rules : MemoryRules κ δ)

/-! ### What an erasure makes of a row -/

/-- A row without the fields. -/
def rewriteRow (uid : Text) (fields : List Field) (now : Text) (row : MemoryRow RowMeta) :
    MemoryRow RowMeta :=
  let rest := withoutFields rules fields row.document
  { row with
    document := rest
    metadata := { row.metadata with updatedAt := some now }.rehash uid rest
    origin := .native }

/-- What is left of a row when its user has the fields forgotten. -/
def scrub (uid : Text) (fields : List Field) (now : Text) (row : MemoryRow RowMeta) :
    Option (MemoryRow RowMeta) :=
  if row.metadata.userId = some uid ∧ statesAny rules fields row then
    if keepsRest rules fields row then some (rewriteRow rules uid fields now row) else none
  else some row

/-- Rewriting rows of a store one by one rewrites each of them in place. -/
lemma rows_foldl_update {g : MemoryRow RowMeta → MemoryRow RowMeta}
    (hg : ∀ row, (g row).id = row.id ∧ (g row).origin = .native) (l : List (MemoryRow RowMeta))
    (hl : (l.map (·.id)).Nodup) {c : MemoryStore β} (hids : c.ids.Nodup)
    (hsub : ∀ row ∈ l, row ∈ c.rows) :
    (l.foldl (fun c row => c.update [⟨row.id, some (g row).document, some (g row).metadata⟩])
      c).rows = c.rows.map fun row => if row.id ∈ l.map (·.id) then g row else row := by
  induction l generalizing c with
  | nil => simp
  | cons first l ih =>
    have hfirst : first ∈ c.rows := hsub first (List.mem_cons_self ..)
    have hstep : (c.update [⟨first.id, some (g first).document, some (g first).metadata⟩]).rows =
        c.rows.map fun row => if row.id = first.id then g row else row := by
      rw [rows_update_one (List.mem_map_of_mem hfirst), updateWhere]
      refine List.map_congr_left fun row hrow => ?_
      by_cases hid : row.id = first.id
      · obtain rfl : row = first := (show Keyed (·.id) c.rows from hids).eq hrow hfirst hid
        rw [if_pos rfl, if_pos rfl]
        obtain ⟨hgid, hgorigin⟩ := hg row
        rw [← hgid, ← hgorigin]
        rfl
      · rw [if_neg hid, if_neg hid]
    have hnodup : (c.update [⟨first.id, some (g first).document, some (g first).metadata⟩]).ids.Nodup := by
      rw [(c.update_updated _).ids]
      exact hids
    obtain ⟨hnot, hl⟩ := List.nodup_cons.1 hl
    rw [List.foldl_cons, ih hl hnodup, hstep, List.map_map]
    · refine List.map_congr_left fun row _ => ?_
      by_cases hid : row.id = first.id
      · have hgid : (g row).id = first.id := (hg row).1.trans hid
        rw [Function.comp_apply, if_pos hid, if_neg (hgid.symm ▸ hnot),
          if_pos (by rw [hid]; exact List.mem_cons_self ..)]
      · rw [Function.comp_apply, if_neg hid, List.map_cons]
        simp only [List.mem_cons, hid, false_or]
    · intro row hrow
      rw [hstep]
      refine List.mem_map.2 ⟨row, hsub row (List.mem_cons_of_mem _ hrow), if_neg fun hid => hnot ?_⟩
      exact List.mem_map.2 ⟨row, hrow, hid⟩

lemma rows_forgetFact {c : MemoryStore β} (hids : c.ids.Nodup) (uid : Text) (fields : List Field)
    (now : Text) :
    (forgetFact rules c uid fields now).rows = c.rows.filterMap (scrub rules uid fields now) := by
  have hkeyed : Keyed (·.id) c.rows := hids
  let states (row : MemoryRow RowMeta) : Bool :=
    row.metadata.userId = some uid ∧ statesAny rules fields row
  have hstated : (c.ofUser uid).filter (statesAny rules fields) = c.rows.filter states := by
    rw [Collection.ofUser, Collection.get, List.filter_filter]
    refine List.filter_congr fun row _ => ?_
    simp [states, Bool.and_comm]
  unfold forgetFact
  simp only [hstated, List.filter_filter]
  generalize hdoomed : (c.rows.filter fun row =>
    decide (¬ keepsRest rules fields row) && states row).map (·.id) = doomed
  have hscrubbed : (if doomed = [] then c else c.delete doomed).rows =
      c.rows.filter fun row => row.id ∉ doomed := by
    split_ifs with hnil
    · simp [hnil]
    · rfl
  have hnodup : (if doomed = [] then c else c.delete doomed).ids.Nodup := by
    rw [Collection.ids, hscrubbed]
    exact hkeyed.deleteWhere
  have hrows := rows_foldl_update (g := rewriteRow rules uid fields now) (fun _ => ⟨rfl, rfl⟩)
    (c.rows.filter fun row => keepsRest rules fields row && states row)
    (hkeyed.sublist (List.filter_sublist.map _)) hnodup fun row hrow => ?_
  · rw [hscrubbed] at hrows
    refine hrows.trans ?_
    rw [← List.filterMap_eq_map', List.filterMap_filter]
    refine List.filterMap_congr fun row hrow => ?_
    have hgone := hkeyed.mem_map_filter (q := fun row =>
      decide (¬ keepsRest rules fields row) && states row) hrow
    rw [hdoomed] at hgone
    have hkept := hkeyed.mem_map_filter (q := fun row =>
      keepsRest rules fields row && states row) hrow
    simp only [hgone, hkept, scrub]
    by_cases hstates : row.metadata.userId = some uid ∧ statesAny rules fields row
    · cases hkeeps : keepsRest rules fields row <;> simp [states, hstates]
    · simp [states, hstates]
  · rw [hscrubbed]
    obtain ⟨hmem, hkeeps⟩ := List.mem_filter.1 hrow
    refine List.mem_filter.2 ⟨hmem, ?_⟩
    rw [← hdoomed, decide_eq_true_eq, hkeyed.mem_map_filter hmem]
    simp only [Bool.and_eq_true] at hkeeps
    simp [hkeeps.1]

@[simp] lemma scrub_nil (uid now : Text) (row : MemoryRow RowMeta) :
    scrub rules uid [] now row = some row := by
  simp [scrub, statesAny]

/-! ### What an `add` does -/

namespace AddCall

variable (a : AddCall)

/-- The call ends in a `UnicodeEncodeError`. -/
def Raises (uid : Text) (c : MemoryStore β) : Prop :=
  ¬ (a.mtype ++ uid ++ a.document rules).Storable ∨
    a.previous rules uid c = none ∧ ¬ (a.key.getD []).Storable

/-- The call finds nothing to take for its own, and the id of its row free. -/
def Inserts (uid : Text) (c : MemoryStore β) : Prop :=
  a.previous rules uid c = none ∧ a.rowId rules uid ∉ c.ids

instance (uid : Text) (c : MemoryStore β) : Decidable (a.Raises rules uid c) :=
  inferInstanceAs (Decidable (_ ∨ _ ∧ _))

instance (uid : Text) (c : MemoryStore β) : Decidable (a.Inserts rules uid c) :=
  inferInstanceAs (Decidable (_ ∧ _))

/-- The row the call writes, if it writes one. -/
def inserted (uid : Text) (c : MemoryStore β) : List (MemoryRow RowMeta) :=
  if a.Inserts rules uid c then [⟨a.row rules uid, .native⟩] else []

/-- The fields a user's own message asks to have forgotten. -/
def erases : List Field :=
  if a.mtype = Text.ofString "episodic" ∧ a.role = Text.ofString "user" then
    rules.erasureRequestFields a.text
  else []

/-- A row of the user has the text. -/
def Says (uid : Text) (row : MemoryRow RowMeta) : Prop :=
  row.metadata.userId = some uid ∧ row.document = a.document rules

instance (uid : Text) (row : MemoryRow RowMeta) : Decidable (a.Says rules uid row) :=
  inferInstanceAs (Decidable (_ ∧ _))

/-- A row of the user has the text after the erasure the call asks for. -/
def StillSays (uid : Text) (row : MemoryRow RowMeta) : Prop :=
  ∃ row' ∈ scrub rules uid (a.erases rules) a.now row, a.Says rules uid row'

end AddCall

lemma addRecord_of_raises {a : AddCall} {uid : Text} {c : MemoryStore β}
    (huser : validUserId a.userId = some uid) (hne : a.document rules ≠ [])
    (h : a.Raises rules uid c) : addRecord rules c a = (c, .unencodable) := by
  simp only [addRecord, huser, if_neg hne]
  rcases h with h | ⟨hprevious, hkey⟩
  · rw [if_pos h]
  · by_cases hstorable : (a.mtype ++ uid ++ a.document rules).Storable
    · simp only [if_neg (not_not.2 hstorable), hprevious, if_pos hkey]
    · rw [if_pos hstorable]

lemma addRecord_of_not_raises {a : AddCall} {uid : Text} {c : MemoryStore β}
    (huser : validUserId a.userId = some uid) (hne : a.document rules ≠ [])
    (h : ¬ a.Raises rules uid c) :
    (addRecord rules c a).2 ≠ .unencodable ∧
      (addRecord rules c a).1.rows = c.rows ++ a.inserted rules uid c := by
  obtain ⟨hstorable, hkey⟩ := not_or.1 h
  simp only [addRecord, huser, if_neg hne, if_neg hstorable]
  cases hprevious : a.previous rules uid c with
  | some row => simp [AddCall.inserted, AddCall.Inserts, hprevious]
  | none =>
    have hkey : (a.key.getD []).Storable := by
      by_contra hnot
      exact hkey ⟨hprevious, hnot⟩
    simp only [if_neg (not_not.2 hkey)]
    by_cases hid : a.rowId rules uid ∈ c.ids
    · simp [AddCall.inserted, AddCall.Inserts, hid]
    · have hrows : (c.add [a.row rules uid]).rows = c.rows ++ [⟨a.row rules uid, .native⟩] :=
        rows_add_one hid (a.rowId_ne_nil rules uid)
      simp [AddCall.inserted, AddCall.Inserts, hprevious, hid, hrows]

lemma rows_add {a : AddCall} {uid : Text} {c : MemoryStore β} (hids : c.ids.Nodup)
    (huser : validUserId a.userId = some uid) (hne : a.document rules ≠ []) :
    (add rules c a).1.rows =
      if a.Raises rules uid c then c.rows
      else (c.rows ++ a.inserted rules uid c).filterMap
        (scrub rules uid (a.erases rules) a.now) := by
  by_cases hraises : a.Raises rules uid c
  · have hrecord := addRecord_of_raises rules huser hne hraises
    rw [if_pos hraises]
    simp only [add, huser, hrecord, true_or, if_true]
  · obtain ⟨hreply, hrows⟩ := addRecord_of_not_raises rules huser hne hraises
    rw [if_neg hraises, ← hrows]
    have hnodup := addRecord_nodup rules hids a
    by_cases hasks : a.mtype = Text.ofString "episodic" ∧ a.role = Text.ofString "user" ∧
        rules.erasureRequestFields a.text ≠ []
    · obtain ⟨hmtype, hrole, hfields⟩ := hasks
      rw [AddCall.erases, if_pos ⟨hmtype, hrole⟩, ← rows_forgetFact rules hnodup, add]
      simp only [huser, hreply, hmtype, hrole, hfields, ne_eq, not_true_eq_false, false_or, if_false]
      split
      · split_ifs <;> rfl
      · split_ifs <;> rfl
      · rfl
    · have herases : a.erases rules = [] := by
        unfold AddCall.erases
        split_ifs with hboth
        · by_contra hfields
          exact hasks ⟨hboth.1, hboth.2, hfields⟩
        · rfl
      have hplain : a.mtype ≠ Text.ofString "episodic" ∨ a.role ≠ Text.ofString "user" ∨
          rules.erasureRequestFields a.text = [] := by
        by_contra hnot
        simp only [not_or, not_not, ne_eq] at hnot
        exact hasks hnot
      have hadd : add rules c a = addRecord rules c a := by
        simp only [add, huser]
        rw [if_pos (.inr hplain)]
      rw [hadd, herases]
      simp

/-- After an `add` the user has a row with the text. -/
def TakesEffect (uid : Text) (c : MemoryStore β) (a : AddCall) : Prop :=
  ∃ row ∈ (add rules c a).1.rows, a.Says rules uid row

/-- A row of the user has the text already, or the call writes one. -/
def Effective (uid : Text) (c : MemoryStore β) (a : AddCall) : Prop :=
  if a.Raises rules uid c then ∃ row ∈ c.rows, a.Says rules uid row
  else (∃ row ∈ c.rows, a.StillSays rules uid row) ∨
    a.Inserts rules uid c ∧ a.StillSays rules uid ⟨a.row rules uid, .native⟩

lemma takesEffect_iff {a : AddCall} {uid : Text} {c : MemoryStore β} (hids : c.ids.Nodup)
    (huser : validUserId a.userId = some uid) (hne : a.document rules ≠ []) :
    TakesEffect rules uid c a ↔ Effective rules uid c a := by
  rw [TakesEffect, Effective, rows_add rules hids huser hne]
  split_ifs with hraises
  · rfl
  · simp only [List.mem_filterMap, List.mem_append, AddCall.StillSays]
    constructor
    · rintro ⟨row', ⟨row, hrow | hrow, hscrub⟩, hsays⟩
      · exact .inl ⟨row, hrow, row', hscrub, hsays⟩
      · unfold AddCall.inserted at hrow
        split_ifs at hrow with hinserts
        · obtain rfl := List.mem_singleton.1 hrow
          exact .inr ⟨hinserts, row', hscrub, hsays⟩
        · cases hrow
    · rintro (⟨row, hrow, row', hscrub, hsays⟩ | ⟨hinserts, row', hscrub, hsays⟩)
      · exact ⟨row', ⟨row, .inl hrow, hscrub⟩, hsays⟩
      · refine ⟨row', ⟨_, .inr ?_, hscrub⟩, hsays⟩
        rw [AddCall.inserted, if_pos hinserts]
        exact List.mem_singleton_self _

/-! ### Runs -/

/-- What happens to the memory of the user. -/
inductive WriteEvent where
  | add (a : AddCall)
  /-- `_update_semantic` -/
  | update (id text : Text) (turnRef : Option Text) (now : Text)
  | forgetFact (fields : List Field) (now : Text)
  | forget
  /-- `col.delete(ids=[id])` -/
  | delete (id : Text)

/-- One call, all for one user. -/
def writeStep (user : Text) (c : MemoryStore β) : WriteEvent → MemoryStore β
  | .add a => (add rules c { a with userId := some user }).1
  | .update id text turnRef now => (updateSemantic rules c id text turnRef now).1
  | .forgetFact fields now => forgetFact rules c user fields now
  | .forget => forget c user
  | .delete id => deleteRow c id

/-- An `add` with something to store meets a condition. -/
def AtAdd (user : Text) (P : MemoryStore β → AddCall → Prop) (c : MemoryStore β) :
    WriteEvent → Prop
  | .add a => a.document rules ≠ [] → P c { a with userId := some user }
  | _ => True

lemma add_nodup {c : MemoryStore β} (hids : c.ids.Nodup) (a : AddCall) :
    (add rules c a).1.ids.Nodup := by
  have hrecord := addRecord_nodup rules hids a
  unfold add
  cases validUserId a.userId with
  | none => exact hrecord
  | some uid =>
    have herased := forgetFact_nodup rules hrecord uid (rules.erasureRequestFields a.text) a.now
    dsimp only
    split_ifs
    · exact hrecord
    · split <;> [split_ifs; split_ifs; skip] <;> exact herased

lemma writeStep_nodup (user : Text) {c : MemoryStore β} (hids : c.ids.Nodup) (e : WriteEvent) :
    (writeStep rules user c e).ids.Nodup := by
  cases e with
  | add a => exact add_nodup rules hids _
  | update id text turnRef now =>
    show (updateSemantic rules c id text turnRef now).1.ids.Nodup
    rw [ids_updateSemantic]
    exact hids
  | forgetFact fields now => exact forgetFact_nodup rules hids user fields now
  | forget => exact forget_nodup hids user
  | delete id =>
    show ((deleteRow c id).rows.map (·.id)).Nodup
    rw [rows_deleteRow]
    exact (show Keyed (·.id) c.rows from hids).deleteWhere

/-- An automatic fact of Alice. -/
def factCall (text : Text) : AddCall where
  text := text
  mtype := "semantic"
  sessionId := "default"
  userId := some (Text.ofString "alice")
  role := []
  importance := some 7
  idempotencyKey := none
  extraMeta := { Provenance.none with source := some sourceAuto }
  now := "2026-01-01T00:00:00"

/-- The id of the row of a fact of Alice. -/
def factId (text : Text) : Text := "semantic_" ++ contentHash "semantic" "alice" text

/-- A fact, its update and a third wording. -/
def threeWordings : List WriteEvent :=
  [.add (factCall "budget 1700"), .update (factId "budget 1700") "budget 1500" none "later",
    .add (factCall "budget 1600")]

end RentCompass.Memory
