import RentCompass.Memory.Confinement

/-!
# Explicitly remembered facts

A fact the user asked to be remembered is protected by the source of its row. An explicit save that
finds its text in a row that was extracted leaves that row as it is, and unprotected.
-/

namespace RentCompass.Memory

open Rows

variable {β κ δ : Type} (rules : MemoryRules κ δ) (user : Text)

/-- What happens to the memory of the user. -/
inductive MemoryEvent (κ : Type) where
  /-- `remember_impl`, for a content that passes the gate. -/
  | remember (content kind sessionId now : Text)
  /-- An automatic `_add_record`. -/
  | extract (a : AddCall)
  | consolidate (job : Consolidation)
  | supersede (changes : κ) (turnRef : Option Text) (now : Text)
  /-- The user has a field forgotten. -/
  | forgetFact (fields : List Field) (now : Text)
  /-- The user has all forgotten. -/
  | forget

/-- The call of `remember_impl`. -/
def rememberCall (content kind sessionId now : Text) : AddCall where
  text := content
  mtype :=
    if kind = Text.ofString "episodic" ∨ kind = Text.ofString "reflection" then kind else "semantic"
  sessionId := sessionId
  userId := some user
  role := []
  importance := none
  idempotencyKey := none
  extraMeta := { Provenance.none with source := some sourceExplicit }
  now := now

/-- The store, and the rows that explicit saves have been acknowledged for, as they were then;
what the user has had forgotten leaves the list. -/
structure Remembered (β : Type) where
  store : MemoryStore β
  saved : List (MemoryRow RowMeta)

/-- The rows an answer with an id stands for. -/
def AddReply.rows (reply : AddReply) (c : MemoryStore β) : List (MemoryRow RowMeta) :=
  match reply with
  | .found id | .stored id => c.rows.filter (·.id = id)
  | .refused | .unencodable => []

/-- What remains after the user has had something forgotten. -/
def Remembered.forgotten (s : Remembered β) (c : MemoryStore β) : Remembered β :=
  ⟨c, s.saved.filter (· ∈ c.rows)⟩

def Remembered.step [LinearOrder δ] (s : Remembered β) : MemoryEvent κ → Remembered β
  | .remember content kind sessionId now =>
    let r := addRecord rules s.store (rememberCall user content kind sessionId now)
    ⟨r.1, s.saved ++ r.2.rows r.1⟩
  | .extract a => { s with store := (addRecord rules s.store { a with userId := some user }).1 }
  | .consolidate job => { s with store := consolidate rules { job with userId := user } s.store }
  | .supersede changes turnRef now =>
    { s with store := supersedeSlotFacts rules s.store changes user turnRef now }
  | .forgetFact fields now => s.forgotten (forgetFact rules s.store user fields now)
  | .forget => s.forgotten (forget s.store user)

/-- An explicitly saved row of the user. -/
def ExplicitRow (row : MemoryRow RowMeta) : Prop :=
  row.metadata.userId = some user ∧ row.metadata.source = some sourceExplicit

/-- An explicit save does not find its text in a row that is not explicitly saved, and no operation
of a consolidation touches an explicitly saved row. -/
def Remembered.Careful [LinearOrder δ] (s : Remembered β) : MemoryEvent κ → Prop
  | .remember content kind sessionId now =>
    ∀ row, (rememberCall user content kind sessionId now).previous rules user s.store = some row →
      ExplicitRow user row
  | .consolidate job => { job with userId := user }.Spares rules (ExplicitRow user) s.store
  | _ => True

/-! ### Unique ids -/

lemma addRecord_nodup {c : MemoryStore β} (hids : c.ids.Nodup) (a : AddCall) :
    (addRecord rules c a).1.ids.Nodup := by
  rcases addRecord_cases rules c a with
    ⟨reply, -, h⟩ | ⟨uid, row, -, -, h⟩ | ⟨uid, -, -, hid, h⟩
  · rwa [h]
  · rwa [h]
  · rw [h, Collection.ids, rows_add_one hid (a.rowId_ne_nil rules uid)]
    refine (show Keyed (·.id) c.rows from hids).append_one fun row hrow heq => hid ?_
    exact List.mem_map.2 ⟨row, hrow, heq⟩

lemma delete_nodup {c : MemoryStore β} (hids : c.ids.Nodup) (doomed : List Text) :
    (c.delete doomed).ids.Nodup :=
  (show Keyed (·.id) c.rows from hids).deleteWhere

lemma foldl_ids {α : Type} {f : MemoryStore β → α → MemoryStore β} (l : List α)
    (hf : ∀ c, ∀ a ∈ l, (f c a).ids = c.ids) (c : MemoryStore β) : (l.foldl f c).ids = c.ids := by
  induction l generalizing c with
  | nil => rfl
  | cons a l ih =>
    rw [List.foldl_cons, ih fun c b hb => hf c b (List.mem_cons_of_mem _ hb)]
    exact hf c a (List.mem_cons_self ..)

lemma forgetFact_nodup {c : MemoryStore β} (hids : c.ids.Nodup) (uid : Text)
    (fields : List Field) (now : Text) : (forgetFact rules c uid fields now).ids.Nodup := by
  unfold forgetFact
  rw [foldl_ids _ fun c row _ => (c.update_updated _).ids]
  split_ifs
  · exact hids
  · exact delete_nodup hids _

lemma forget_nodup {c : MemoryStore β} (hids : c.ids.Nodup) (uid : Text) :
    (forget c uid).ids.Nodup := by
  unfold forget
  split
  · exact hids
  · exact delete_nodup hids _

lemma Consolidation.ForUser.loop_nodup {job : Consolidation} (h : job.ForUser)
    (known : List (MemoryRow RowMeta)) {c : MemoryStore β} (hids : c.ids.Nodup)
    (ops : List (Text × Op)) : (job.loop rules known c ops).ids.Nodup := by
  induction ops generalizing c with
  | nil => exact hids
  | cons first ops ih =>
    obtain ⟨now, op⟩ := first
    have hstep : (job.apply rules known c now op).1.ids.Nodup := h.apply_nodup known hids now op
    unfold Consolidation.loop
    split
    · next c' heq =>
      rw [heq] at hstep
      exact ih hstep
    · next c' heq =>
      rw [heq] at hstep
      exact hstep

lemma supersedeSlotFacts_ids (c : MemoryStore β) (changes : κ) (uid : Text)
    (turnRef : Option Text) (now : Text) :
    (supersedeSlotFacts rules c changes uid turnRef now).ids = c.ids := by
  unfold supersedeSlotFacts
  refine foldl_ids _ (fun c row _ => ?_) c
  split_ifs
  · rfl
  · split
    · exact ids_updateSemantic rules c _ _ _ _
    · rfl

/-! ### What the automation leaves -/

variable {user}

lemma explicitRow_foreign (huser : validUserId (some user) = some user) :
    Foreign user (ExplicitRow user) where
  congr h huser hsource := ⟨huser ▸ h.1, hsource ▸ h.2⟩
  auto _ hsource h := hsource h.2
  owned h := by
    refine ⟨user, h.1, ?_⟩
    rintro rfl
    exact absurd huser (by decide)

/-- Superseding rewrites extracted rows only. -/
lemma supersedeSlotFacts_sameRows (huser : validUserId (some user) = some user)
    {c : MemoryStore β} (hids : c.ids.Nodup) (changes : κ) (turnRef : Option Text) (now : Text) :
    SameRows (ExplicitRow user) c (supersedeSlotFacts rules c changes user turnRef now) := by
  unfold supersedeSlotFacts
  -- along the rows read at the start
  generalize hsnapshot : (c.get none fun row => row.metadata.userId = some user ∧
    row.metadata.mtype = some (Text.ofString "semantic")) = snapshot
  have hread : ∀ row ∈ snapshot, row ∈ c.rows := by
    rw [← hsnapshot]
    exact fun row hrow => List.mem_of_mem_filter hrow
  clear hsnapshot
  suffices hfold : ∀ c', SameRows (ExplicitRow user) c c' →
      SameRows (ExplicitRow user) c (snapshot.foldl _ c') from hfold c fun _ _ => Iff.rfl
  induction snapshot with
  | nil => exact fun c' h => h
  | cons row snapshot ih =>
    intro c' hsame
    rw [List.foldl_cons]
    refine ih (fun r hr => hread r (List.mem_cons_of_mem _ hr)) _ fun r hr =>
      (hsame r hr).trans ?_
    split_ifs with hskip
    · rfl
    · split
      · refine updateSemantic_sameRows rules (explicitRow_foreign huser)
          (fun r hmem hexplicit hid => hskip (.inl ?_)) _ _ _ r hr
        -- an explicitly saved row is another row than an extracted one
        obtain rfl : r = row := (show Keyed (·.id) c.rows from hids).eq
          ((hsame r hexplicit).2 hmem) (hread row (List.mem_cons_self ..)) hid
        rw [hexplicit.2]
        exact fun heq => auto_ne_explicit (Option.some.inj heq).symm
      · rfl

variable {rules} in
lemma AddCall.previous_mem {a : AddCall} {uid : Text} {c : MemoryStore β}
    {row : MemoryRow RowMeta} (h : a.previous rules uid c = some row) : row ∈ c.rows := by
  rcases Option.or_eq_some_iff.1 h with hkey | ⟨-, hhash⟩
  · obtain ⟨key, -, hhead⟩ := Option.bind_eq_some_iff.1 hkey
    exact List.mem_of_mem_filter (List.mem_of_head? hhead)
  · exact List.mem_of_mem_filter (List.mem_of_head? hhash)

lemma addRecord_kept (c : MemoryStore β) (a : AddCall) :
    ∀ row ∈ c.rows, row ∈ (addRecord rules c a).1.rows := by
  intro row hrow
  rcases addRecord_cases rules c a with
    ⟨reply, -, h⟩ | ⟨uid, row, -, -, h⟩ | ⟨uid, -, -, hid, h⟩
  · rwa [h]
  · rwa [h]
  · rw [h, rows_add_one hid (a.rowId_ne_nil rules uid)]
    exact List.mem_append_left _ hrow

/-! ### Runs -/

structure Remembered.Kept (user : Text) (s : Remembered β) : Prop where
  ids : s.store.ids.Nodup
  saved : ∀ row ∈ s.saved, row ∈ s.store.rows ∧ ExplicitRow user row

/-- What an explicit save is acknowledged for is an explicitly saved row. -/
lemma remember_saved (huser : validUserId (some user) = some user) {c : MemoryStore β}
    (hids : c.ids.Nodup) {a : AddCall} (hauser : a.userId = some user)
    (hsource : a.extraMeta.source = some sourceExplicit)
    (hfound : ∀ row, a.previous rules user c = some row → ExplicitRow user row) :
    ∀ row ∈ (addRecord rules c a).2.rows (addRecord rules c a).1,
      row ∈ (addRecord rules c a).1.rows ∧ ExplicitRow user row := by
  intro row hrow
  rcases addRecord_cases rules c a with
    ⟨reply, hreply, h⟩ | ⟨uid, first, hvalid, hprevious, h⟩ | ⟨uid, hvalid, -, hid, h⟩
  · rw [h] at hrow
    rcases hreply with rfl | rfl <;> cases hrow
  · obtain rfl : uid = user := Option.some.inj (hvalid.symm.trans (hauser ▸ huser))
    rw [h] at hrow ⊢
    obtain ⟨hmem, hfirst⟩ := List.mem_filter.1 hrow
    obtain rfl : row = first := (show Keyed (·.id) c.rows from hids).eq hmem
      (AddCall.previous_mem hprevious) (of_decide_eq_true hfirst)
    exact ⟨hmem, hfound row hprevious⟩
  · obtain rfl : uid = user := Option.some.inj (hvalid.symm.trans (hauser ▸ huser))
    have hrows : (c.add [a.row rules uid]).rows = c.rows ++ [⟨a.row rules uid, .native⟩] :=
      rows_add_one hid (a.rowId_ne_nil rules uid)
    rw [h] at hrow ⊢
    obtain ⟨hmem, hrowid⟩ := List.mem_filter.1 hrow
    refine ⟨hmem, ?_⟩
    rw [hrows] at hmem
    rcases List.mem_append.1 hmem with hmem | hmem
    · exact absurd (List.mem_map.2 ⟨row, hmem, of_decide_eq_true hrowid⟩) hid
    · rw [List.mem_singleton.1 hmem]
      exact ⟨rfl, hsource⟩

variable [LinearOrder δ]

lemma Remembered.Kept.step (huser : validUserId (some user) = some user) {s : Remembered β}
    (h : s.Kept user) {event : MemoryEvent κ} (hcareful : s.Careful rules user event) :
    (s.step rules user event).Kept user := by
  cases event with
  | remember content kind sessionId now =>
    refine ⟨addRecord_nodup rules h.ids _, fun row hrow => ?_⟩
    rcases List.mem_append.1 hrow with hrow | hrow
    · exact ⟨addRecord_kept rules _ _ row (h.saved row hrow).1, (h.saved row hrow).2⟩
    · exact remember_saved rules huser h.ids rfl rfl hcareful row hrow
  | extract a =>
    refine ⟨addRecord_nodup rules h.ids _, fun row hrow => ?_⟩
    exact ⟨addRecord_kept rules _ _ row (h.saved row hrow).1, (h.saved row hrow).2⟩
  | consolidate job =>
    have hjob : Consolidation.ForUser { job with userId := user } := huser
    constructor
    · show (consolidate rules { job with userId := user } s.store).ids.Nodup
      unfold consolidate
      split_ifs
      · exact h.ids
      · exact hjob.loop_nodup rules _ h.ids _
    · intro row hrow
      obtain ⟨hmem, hexplicit⟩ := h.saved row hrow
      have hsame := consolidate_sameRows rules hjob (explicitRow_foreign huser) hcareful
      exact ⟨(hsame row hexplicit).1 hmem, hexplicit⟩
  | supersede changes turnRef now =>
    constructor
    · show (supersedeSlotFacts rules s.store changes user turnRef now).ids.Nodup
      rw [supersedeSlotFacts_ids]
      exact h.ids
    · intro row hrow
      obtain ⟨hmem, hexplicit⟩ := h.saved row hrow
      have hsame := supersedeSlotFacts_sameRows rules huser h.ids changes turnRef now
      exact ⟨(hsame row hexplicit).1 hmem, hexplicit⟩
  | forgetFact fields now =>
    refine ⟨forgetFact_nodup rules h.ids user fields now, fun row hrow => ?_⟩
    obtain ⟨hold, hmem⟩ := List.mem_filter.1 hrow
    exact ⟨of_decide_eq_true hmem, (h.saved row hold).2⟩
  | forget =>
    refine ⟨forget_nodup h.ids user, fun row hrow => ?_⟩
    obtain ⟨hold, hmem⟩ := List.mem_filter.1 hrow
    exact ⟨of_decide_eq_true hmem, (h.saved row hold).2⟩

/-- Where no explicit save finds its text in an extracted row and no consolidation touches an
explicitly saved row, every row a save was acknowledged for is still there as it was, unless the
user had it forgotten. -/
theorem explicit_facts_kept (user : Text) (huser : validUserId (some user) = some user)
    (c : MemoryStore β) (hids : c.ids.Nodup) (events : List (MemoryEvent κ))
    (hcareful : Runs.Along (Remembered.step rules user) (Remembered.Careful rules user) ⟨c, []⟩
      events) :
    ∀ row ∈ (Runs.run (Remembered.step rules user) ⟨c, []⟩ events).saved,
      row ∈ (Runs.run (Remembered.step rules user) ⟨c, []⟩ events).store.rows := by
  have hkept := Runs.run_preserves_along (I := Remembered.Kept user)
    (fun s event hs hevent => hs.step rules huser hevent)
    ⟨hids, fun row hrow => by cases hrow⟩ hcareful
  exact fun row hrow => (hkept.saved row hrow).1

/-- A fact is saved, and a job adds another. -/
def savedThenAdded : List (MemoryEvent Unit) :=
  [.remember "I am allergic to dust" "semantic" "default" "2026-01-01T00:00:00",
    .consolidate addingJob]

theorem explicit_facts_kept_savedThenAdded :
    (Runs.run (Remembered.step plainRules "alice") ⟨twoUsers, []⟩ savedThenAdded).saved ⊆
      (Runs.run (Remembered.step plainRules "alice") ⟨twoUsers, []⟩ savedThenAdded).store.rows := by
  refine explicit_facts_kept plainRules "alice" (by decide) twoUsers (by decide) savedThenAdded
    ⟨fun row hrow => ?_, addingJob_spares _ _, trivial⟩
  have hnone : (rememberCall "alice" "I am allergic to dust" "semantic" "default"
      "2026-01-01T00:00:00").previous plainRules "alice" twoUsers = none := by decide +kernel
  have hnone : some row = none := hrow.symm.trans hnone
  cases hnone

/-- A text is extracted, then explicitly saved: the save is answered with the extracted row, which a
consolidation deletes. -/
theorem explicit_fact_deleted :
    ¬ ∀ events : List (MemoryEvent Unit),
      ∀ row ∈ (Runs.run (Remembered.step plainRules "alice") ⟨⟨[], [], [], none⟩, []⟩ events :
          Remembered Unit).saved,
        row ∈ (Runs.run (Remembered.step plainRules "alice") ⟨⟨[], [], [], none⟩, []⟩ events :
          Remembered Unit).store.rows := by
  intro h
  have hrun := h
    [.consolidate (aliceJob [("2026-01-01T00:00:00", .op .add (.scalar none) "I have a cat")]),
      .remember "I have a cat" "semantic" "default" "2026-01-02T00:00:00",
      .consolidate (aliceJob [("2026-01-03T00:00:00", .op .delete (.text ("semantic_" ++
        contentHash "semantic" "alice" "I have a cat")) [])])]
  revert hrun
  decide +kernel

end RentCompass.Memory
