import RentCompass.Fallible
import RentCompass.Json.Value
import RentCompass.Memory.SyncRaces

/-!
# The copy of the older collection

The older collection is verified by a forced sync and a look at each of its rows. The check passes
whatever happened before. But an id counts as one of the older collection from the moment it was
read there, even where the row of that id was added here; when the older collection drops the id, a
sync takes the row away.
-/

namespace RentCompass.Memory

open Rows

variable {ν μ β π : Type}

/-! ### The rows of the older collection -/

/-- What the interpreter makes of the values. -/
structure LegacyRules (ν μ : Type) where
  /-- `str(value)` -/
  str : ν → Text
  /-- `_canonical_metadata` -/
  canonical : Dict ν → μ

/-- A row of the `SELECT` of `_read_legacy_once`; the value is the first of its columns that is
set. -/
structure EmbeddingRow (ν : Type) where
  embeddingId : Text
  key : Option Text
  value : Option ν

structure LegacyEntry (ν : Type) where
  document : Option Text
  metadata : Dict ν

inductive LegacyMemoryError where
  | noDocument (recordId : Text)
  | missing (recordId : Text)
  | differs (recordId : Text)

def LegacyEntry.put (rules : LegacyRules ν μ) (entry : LegacyEntry ν) (row : EmbeddingRow ν) :
    LegacyEntry ν :=
  match row.key, row.value with
  | some key, some value =>
    if key = Text.ofString "chroma:document" then { entry with document := some (rules.str value) }
    else { entry with metadata := entry.metadata.insert key value }
  | _, _ => entry

/-- `grouped` -/
def groupedRows (rules : LegacyRules ν μ) (rows : List (EmbeddingRow ν)) : Dict (LegacyEntry ν) :=
  rows.foldl (fun grouped row =>
    let entry := (grouped.get? row.embeddingId).getD ⟨none, []⟩
    grouped.insert row.embeddingId (entry.put rules row)) []

def LegacyEntry.record (rules : LegacyRules ν μ) (item : Text × LegacyEntry ν) :
    Except LegacyMemoryError (MemoryRecord μ) :=
  match item.2.document with
  | none => .error (.noDocument item.1)
  | some document => .ok ⟨item.1, document, rules.canonical item.2.metadata⟩

/-- `_read_legacy_once` -/
def readLegacyOnce (rules : LegacyRules ν μ) (rows : List (EmbeddingRow ν)) :
    Except LegacyMemoryError (List (MemoryRecord μ)) :=
  (groupedRows rules rows).sortKeys.mapM (LegacyEntry.record rules)

/-! ### Verification -/

/-- What is found for a row of the older collection. -/
inductive CopyState where
  | tombstoned
  | nativeOverride
  | exactCopy
deriving DecidableEq

/-- One turn of the loop of `verify_legacy_copy`. -/
def verifyRecord [DecidableEq μ] (c : Collection μ β) (record : MemoryRecord μ) :
    Except LegacyMemoryError CopyState :=
  if record.id ∈ c.tombstones then .ok .tombstoned
  else
    match c.rows.find? (·.id = record.id) with
    | none => .error (.missing record.id)
    | some row =>
      if row.origin = .native then .ok .nativeOverride
      else if row.document ≠ record.document ∨ row.metadata ≠ record.metadata then
        .error (.differs record.id)
      else .ok .exactCopy

structure CopyReport where
  present : Bool
  sourceCount : Nat
  verifiedCount : Nat
  tombstonedCount : Nat
  exactCopyCount : Nat
  nativeOverrideCount : Nat
deriving DecidableEq

def copyReport (states : List CopyState) : CopyReport where
  present := true
  sourceCount := states.length
  verifiedCount := states.countP (· ≠ .tombstoned)
  tombstonedCount := states.length - states.countP (· ≠ .tombstoned)
  exactCopyCount := states.count .exactCopy
  nativeOverrideCount := states.count .nativeOverride

/-- `verify_legacy_copy`, and the store behind its sync. -/
def verifyLegacyCopy [DecidableEq μ] (c : Collection μ β) (source : Option (LegacySource μ β)) :
    Collection μ β × Except LegacyMemoryError CopyReport :=
  match source with
  | none => (c, .ok ⟨false, 0, 0, 0, 0, 0⟩)
  | some source =>
    let c' := c.importSnapshot (some source.fingerprint) source.records
    (c', (source.records.mapM (verifyRecord c')).map copyReport)

/-- The row of the older collection has a tombstone, or a native row stands for it, or it is stored
as it is. -/
def Copied (c : Collection μ β) (record : MemoryRecord μ) : Prop :=
  record.id ∈ c.tombstones ∨ (∃ row ∈ c.rows, row.id = record.id ∧ row.origin = .native) ∨
    ∃ row ∈ c.rows, row.toMemoryRecord = record

/-! ### Ids are read once -/

lemma groupedRows_nodup (rules : LegacyRules ν μ) (rows : List (EmbeddingRow ν)) :
    (groupedRows rules rows).keys.Nodup := by
  induction rows using List.reverseRecOn with
  | nil => exact List.nodup_nil
  | append_singleton rows row ih =>
    rw [groupedRows, List.foldl_append]
    exact (Dict.keys_insert_nodup ih _ _).1

/-- No two rows that are read have an id in common. -/
lemma readLegacyOnce_nodup {rules : LegacyRules ν μ} {rows : List (EmbeddingRow ν)}
    {records : List (MemoryRecord μ)} (h : readLegacyOnce rules rows = .ok records) :
    (records.map (·.id)).Nodup := by
  have hids : records.map (·.id) = (groupedRows rules rows).sortKeys.keys := by
    refine (List.forall₂_of_mapM_ok h).map_eq fun item record hrecord => ?_
    simp only [LegacyEntry.record] at hrecord
    split at hrecord
    · cases hrecord
    · cases hrecord
      rfl
  rw [hids]
  exact Dict.keys_sortKeys_nodup.2 (groupedRows_nodup rules rows)

/-! ### A sync copies -/

lemma mem_upsertLegacy {rows : List (MemoryRow μ)} {record : MemoryRecord μ} {row : MemoryRow μ}
    (h : row ∈ upsertLegacy rows record) :
    (row ∈ rows ∧ (row.id = record.id → row.origin = .native)) ∨ row = ⟨record, .legacy⟩ := by
  unfold upsertLegacy at h
  split at h
  · obtain ⟨old, hold, hrow⟩ := List.mem_map.1 h
    split at hrow
    · exact .inr hrow.symm
    · next hkept =>
      subst hrow
      refine .inl ⟨hold, fun hid => ?_⟩
      cases horigin : old.origin with
      | native => rfl
      | legacy => exact absurd ⟨hid, horigin⟩ hkept
  · next hfree =>
    rcases List.mem_append.1 h with h | h
    · exact .inl ⟨h, fun hid => absurd (List.mem_map.2 ⟨row, h, hid⟩) hfree⟩
    · exact .inr (List.mem_singleton.1 h)

/-- Each row of this id is a native one or the record. -/
def Settled (record : MemoryRecord μ) (rows : List (MemoryRow μ)) : Prop :=
  ∀ row ∈ rows, row.id = record.id → row.origin = .native ∨ row.toMemoryRecord = record

lemma Settled.importRecords {record : MemoryRecord μ} {tombstones : List Text}
    {rows : List (MemoryRow μ)} {records : List (MemoryRecord μ)} (h : Settled record rows)
    (hother : record.id ∉ records.map (·.id)) :
    Settled record (importRecords tombstones rows records) := by
  induction records generalizing rows with
  | nil => exact h
  | cons other records ih =>
    simp only [List.map_cons, List.mem_cons, not_or] at hother
    rw [Memory.importRecords, List.foldl_cons]
    refine ih ?_ hother.2
    split
    · exact h
    · intro row hrow hid
      rcases mem_upsertLegacy hrow with ⟨hold, -⟩ | rfl
      · exact h row hold hid
      · exact absurd hid.symm hother.1

/-- A sync leaves of each record its native row or the record itself. -/
lemma settled_importRecords {tombstones : List Text} {rows : List (MemoryRow μ)}
    {records : List (MemoryRecord μ)} (hids : (records.map (·.id)).Nodup) {record : MemoryRecord μ}
    (hrecord : record ∈ records) (htomb : record.id ∉ tombstones) :
    Settled record (importRecords tombstones rows records) := by
  induction records generalizing rows with
  | nil => cases hrecord
  | cons other records ih =>
    obtain ⟨hother, hids⟩ := List.nodup_cons.1 hids
    rw [importRecords, List.foldl_cons]
    rcases List.mem_cons.1 hrecord with rfl | hrecord
    · have hself : Settled record (upsertLegacy rows record) := fun row hrow hid => by
        rcases mem_upsertLegacy hrow with ⟨-, hnative⟩ | rfl
        · exact .inl (hnative hid)
        · exact .inr rfl
      rw [if_neg htomb]
      exact hself.importRecords hother
    · exact ih hids hrecord

variable [DecidableEq μ]

/-- Behind a sync, each row that was read is found to be copied. -/
lemma verifyRecord_importSnapshot {c : Collection μ β} {fingerprint : Option β}
    {records : List (MemoryRecord μ)} (hids : (records.map (·.id)).Nodup)
    {record : MemoryRecord μ} (hrecord : record ∈ records) :
    (∃ state, verifyRecord (c.importSnapshot fingerprint records) record = .ok state) ∧
      Copied (c.importSnapshot fingerprint records) record := by
  by_cases htomb : record.id ∈ (c.importSnapshot fingerprint records).tombstones
  · exact ⟨⟨.tombstoned, if_pos htomb⟩, .inl htomb⟩
  · have hfree : record.id ∉ c.tombstones := fun h =>
      htomb (Collection.mem_tombstones_importSnapshot.2 (.inl h))
    have hseen : record.id ∈ records.map (·.id) := List.mem_map_of_mem hrecord
    have hkept : record.id ∉ c.removedBy records := fun h => (Collection.mem_removedBy.1 h).2 hseen
    have hin : record.id ∈ (c.importSnapshot fingerprint records).ids :=
      Collection.mem_ids_importSnapshot.2 ⟨.inr ⟨hfree, hseen⟩, hkept⟩
    obtain ⟨held, hheld, hid⟩ := Collection.mem_ids.1 hin
    obtain ⟨row, hrow⟩ : ∃ row,
        (c.importSnapshot fingerprint records).rows.find? (·.id = record.id) = some row :=
      Option.isSome_iff_exists.1 (List.find?_isSome.2 ⟨held, hheld, decide_eq_true hid⟩)
    have hmem := List.mem_of_find?_eq_some hrow
    have hrowId : row.id = record.id := by simpa using List.find?_some hrow
    have hall : Settled record (importRecords c.tombstones c.rows records) :=
      settled_importRecords hids hrecord hfree
    have hsettled := hall row (mem_deleteWhere.1 hmem).1 hrowId
    by_cases horigin : row.origin = .native
    · refine ⟨⟨.nativeOverride, ?_⟩, .inr (.inl ⟨row, hmem, hrowId, horigin⟩)⟩
      rw [verifyRecord, if_neg htomb, hrow]
      exact if_pos horigin
    · have hsame := hsettled.resolve_left horigin
      refine ⟨⟨.exactCopy, ?_⟩, .inr (.inr ⟨row, hmem, hsame⟩)⟩
      rw [verifyRecord, if_neg htomb, hrow]
      simp [horigin, ← hsame]

lemma exists_mapM_ok {ε α γ : Type} {f : α → Except ε γ} {l : List α}
    (h : ∀ a ∈ l, ∃ c, f a = .ok c) : ∃ r, l.mapM f = .ok r := by
  induction l with
  | nil => exact ⟨[], rfl⟩
  | cons a l ih =>
    obtain ⟨c, hc⟩ := h a List.mem_cons_self
    obtain ⟨r, hr⟩ := ih fun b hb => h b (List.mem_cons_of_mem _ hb)
    refine ⟨c :: r, ?_⟩
    rw [List.mapM_cons, Except.bind_eq_ok]
    exact ⟨c, hc, Except.bind_eq_ok.2 ⟨r, hr, rfl⟩⟩

/-- The verification passes, and each row that was read is copied. -/
def Accepts (rules : LegacyRules ν μ) (c : Collection μ β) (source : Option (LegacySource μ β)) :
    Prop :=
  ∀ src ∈ source, ∀ rows, readLegacyOnce rules rows = .ok src.records →
    (∃ report, (verifyLegacyCopy c source).2 = .ok report) ∧
      ∀ record ∈ src.records, Copied (verifyLegacyCopy c source).1 record

lemma accepts (rules : LegacyRules ν μ) (c : Collection μ β) (source : Option (LegacySource μ β)) :
    Accepts rules c source := by
  rintro src hsrc rows hread
  obtain rfl : source = some src := hsrc
  have hids := readLegacyOnce_nodup hread
  have hcopied (record : MemoryRecord μ) (hrecord : record ∈ src.records) :
      (∃ state, verifyRecord (verifyLegacyCopy c (some src)).1 record = .ok state) ∧
        Copied (verifyLegacyCopy c (some src)).1 record :=
    verifyRecord_importSnapshot hids hrecord
  constructor
  · obtain ⟨states, hstates⟩ := exists_mapM_ok fun record hrecord => (hcopied record hrecord).1
    refine ⟨copyReport states, ?_⟩
    simp only [verifyLegacyCopy] at hstates ⊢
    rw [hstates]
    rfl
  · exact fun record hrecord => (hcopied record hrecord).2

/-! ### Rows that were added here -/

omit [DecidableEq μ]

variable [DecidableEq β] [DecidableEq π]

/-- The world, the ids of the rows that were added here and are stored, and the ids the older
collection had in some sync. -/
structure Watched (μ β π : Type) where
  world : MemoryWorld μ β π
  added : List Text
  seen : List Text

namespace Watched

def start (source : Option (LegacySource μ β)) : Watched μ β π := ⟨.start source, [], []⟩

/-- The ids a step adds. -/
def adds (w : Watched μ β π) : MemoryAct μ β π → List Text
  | .add records => (records.map (·.id)).filter (· ∉ w.world.store.ids)
  | _ => []

/-- The ids of the snapshot a step commits. -/
def reads (w : Watched μ β π) : MemoryAct μ β π → List Text
  | .syncCommit p =>
    match w.world.task p with
    | .snapshot _ records => records.map (·.id)
    | _ => []
  | _ => []

def step (w : Watched μ β π) (a : MemoryAct μ β π) : Watched μ β π where
  world := w.world.step a
  added := (w.added ++ w.adds a).filter (· ∈ (w.world.step a).store.ids)
  seen := w.seen ++ w.reads a

end Watched

/-- A sync leaves the rows that were added here as they are. -/
def LeavesAdded (w : Watched μ β π) : MemoryAct μ β π → Prop
  | .syncCommit p => ∀ row ∈ w.world.store.rows, row.id ∈ w.added →
      row ∈ (w.world.step (.syncCommit p)).store.rows
  | _ => True

/-- The snapshot a sync commits has each id of a row that was added here, if an earlier one had
it. -/
def ListsAdded (w : Watched μ β π) : MemoryAct μ β π → Prop
  | .syncCommit p => ∀ fingerprint records, w.world.task p = .snapshot fingerprint records →
      ∀ x ∈ w.added, x ∈ w.seen → x ∈ records.map (·.id)
  | _ => True

/-- The rows that were added are native, and the lineage is what was seen. -/
structure Tracked (w : Watched μ β π) : Prop where
  ids : ∀ x ∈ w.added, x ∈ w.world.store.ids
  native : ∀ row ∈ w.world.store.rows, row.id ∈ w.added → row.origin = .native
  lineage : ∀ x, x ∈ w.world.store.lineage ↔ x ∈ w.seen

omit [DecidableEq β] [DecidableEq π] in
lemma Tracked.start (source : Option (LegacySource μ β)) :
    Tracked (Watched.start source : Watched μ β π) where
  ids x hx := by cases hx
  native row hrow := by cases hrow
  lineage x := Iff.rfl

/-- What has to be shown of a step. -/
lemma Tracked.next {w : Watched μ β π} {a : MemoryAct μ β π}
    (hnative : ∀ row ∈ (w.world.step a).store.rows, row.id ∈ w.added ∨ row.id ∈ w.adds a →
      row.origin = .native)
    (hlineage : ∀ x, x ∈ (w.world.step a).store.lineage ↔ x ∈ w.seen ∨ x ∈ w.reads a) :
    Tracked (w.step a) where
  ids _ hx := of_decide_eq_true (List.mem_filter.1 hx).2
  native row hrow hid := hnative row hrow (List.mem_append.1 (List.mem_filter.1 hid).1)
  lineage x := (hlineage x).trans List.mem_append.symm

lemma Tracked.unchanged {w : Watched μ β π} (h : Tracked w) {a : MemoryAct μ β π}
    (hstore : (w.world.step a).store = w.world.store) (hadds : w.adds a = [])
    (hreads : w.reads a = []) : Tracked (w.step a) := by
  refine .next (fun row hrow hid => ?_) fun x => ?_
  · rw [hstore] at hrow
    rw [hadds] at hid
    exact h.native row hrow (hid.resolve_right List.not_mem_nil)
  · rw [hstore, hreads, h.lineage]
    simp

omit [DecidableEq β] [DecidableEq π] in
/-- A native row is in every import, and where all rows of an id are native no other comes. -/
lemma mem_importRecords_of_native {tombstones : List Text} {records : List (MemoryRecord μ)}
    {rows : List (MemoryRow μ)} {row : MemoryRow μ} (hrow : row ∈ rows)
    (hnative : row.origin = .native) : row ∈ importRecords tombstones rows records := by
  induction records generalizing rows with
  | nil => exact hrow
  | cons record records ih =>
    rw [importRecords, List.foldl_cons]
    refine ih ?_
    split
    · exact hrow
    · unfold upsertLegacy
      split
      · refine List.mem_map.2 ⟨row, hrow, if_neg fun hp => ?_⟩
        have hlegacy : row.origin = .legacy := hp.2
        rw [hnative] at hlegacy
        cases hlegacy
      · exact List.mem_append_left _ hrow

omit [DecidableEq β] [DecidableEq π] in
lemma native_importRecords {tombstones : List Text} {records : List (MemoryRecord μ)}
    {rows : List (MemoryRow μ)} {x : Text} (hx : x ∈ rows.map (·.id))
    (hnative : ∀ row ∈ rows, row.id = x → row.origin = .native) :
    ∀ row ∈ importRecords tombstones rows records, row.id = x → row.origin = .native := by
  induction records generalizing rows with
  | nil => exact hnative
  | cons record records ih =>
    rw [importRecords, List.foldl_cons]
    by_cases htomb : record.id ∈ tombstones
    · rw [if_pos htomb]
      exact ih hx hnative
    · rw [if_neg htomb]
      refine ih ((ids_upsertLegacy rows record x).2 (.inl hx)) fun row hrow hid => ?_
      unfold upsertLegacy at hrow
      split at hrow
      · obtain ⟨old, hold, heq⟩ := List.mem_map.1 hrow
        split at heq
        · next hp =>
          subst heq
          have hlegacy := hnative old hold (hp.1.trans hid)
          rw [hp.2] at hlegacy
          cases hlegacy
        · exact hnative row (heq ▸ hold) hid
      · next hfree =>
        rcases List.mem_append.1 hrow with hrow | hrow
        · exact hnative row hrow hid
        · obtain rfl := List.mem_singleton.1 hrow
          exact absurd (hid ▸ hx) hfree

omit [DecidableEq β] [DecidableEq π] in
/-- An update makes native what it changes. -/
lemma mem_update_rows {c : Collection μ β} {updates : List (MemoryUpdate μ)} {row : MemoryRow μ}
    (h : row ∈ (c.update updates).rows) : row.origin = .native ∨ row ∈ c.rows := by
  unfold Collection.update at h
  split at h
  · clear * - h
    induction updates generalizing c with
    | nil => exact .inr h
    | cons u updates ih =>
      refine (ih h).elim .inl fun hmem => ?_
      unfold Collection.updateOne at hmem
      split at hmem
      · obtain ⟨old, hold, heq⟩ := List.mem_map.1 hmem
        split at heq
        · exact .inl (heq ▸ rfl)
        · exact .inr (heq ▸ hold)
      · exact .inr hmem
  · exact .inr h

lemma Tracked.step {w : Watched μ β π} (h : Tracked w) (a : MemoryAct μ β π) :
    Tracked (w.step a) := by
  cases a with
  | syncCommit p =>
    cases htask : w.world.task p with
    | snapshot fingerprint records =>
      have hstore : (w.world.step (.syncCommit p)).store =
          w.world.store.importSnapshot fingerprint records := by
        simp only [MemoryWorld.step, htask]
      have hreads : w.reads (.syncCommit p) = records.map (·.id) := by
        simp only [Watched.reads, htask]
      refine .next (fun row hrow hid => ?_) fun x => ?_
      · rw [hstore] at hrow
        have hadded := hid.resolve_right List.not_mem_nil
        exact native_importRecords (h.ids _ hadded)
          (fun old hold heq => h.native old hold (heq ▸ hadded)) row (mem_deleteWhere.1 hrow).1 rfl
      · rw [hstore, hreads, Collection.mem_lineage_importSnapshot, h.lineage]
    | _ =>
      refine h.unchanged ?_ rfl ?_
      · simp only [MemoryWorld.step, htask]
      · simp only [Watched.reads, htask]
  | add records =>
    refine .next (fun row hrow hid => ?_) fun x => ?_
    · have hcases : row.origin = .native ∨ row ∈ w.world.store.rows := by
        simp only [MemoryWorld.step, Collection.add] at hrow
        split at hrow
        · rcases List.mem_append.1 hrow with hold | hnew
          · exact .inr hold
          · obtain ⟨record, -, rfl⟩ := List.mem_map.1 hnew
            exact .inl rfl
        · exact .inr hrow
      refine hcases.elim id fun hold => ?_
      rcases hid with hid | hid
      · exact h.native row hold hid
      · have hfree : row.id ∉ w.world.store.ids := by
          simpa using (List.mem_filter.1 hid).2
        exact absurd (List.mem_map_of_mem hold) hfree
    · have hlineage : (w.world.step (.add records)).store.lineage = w.world.store.lineage := by
        rcases w.world.store.add_cases records with hsame | ⟨hlineage, -⟩
        · exact congrArg Collection.lineage hsame
        · exact hlineage
      rw [hlineage, h.lineage]
      simp [Watched.reads]
  | update updates =>
    refine .next (fun row hrow hid => ?_) fun x => ?_
    · rcases mem_update_rows hrow with hnative | hold
      · exact hnative
      · exact h.native row hold (hid.resolve_right List.not_mem_nil)
    · have hlineage := (w.world.store.update_updated updates).lineage
      rw [show (w.world.step (.update updates)).store.lineage = _ from hlineage, h.lineage]
      simp [Watched.reads]
  | deleteCommit p =>
    refine .next (fun row hrow hid => ?_) fun x => ?_
    · have hold : row ∈ w.world.store.rows := by
        simp only [MemoryWorld.step] at hrow
        split at hrow
        · exact (mem_deleteWhere.1 hrow).1
        · exact hrow
      exact h.native row hold (hid.resolve_right List.not_mem_nil)
    · have hlineage : (w.world.step (.deleteCommit p)).store.lineage =
          w.world.store.lineage := by
        simp only [MemoryWorld.step]
        split <;> rfl
      rw [hlineage, h.lineage]
      simp [Watched.reads]
  | legacy source => exact h.unchanged rfl rfl rfl
  | stop p => exact h.unchanged rfl rfl rfl
  | syncStart p force =>
    refine h.unchanged ?_ rfl rfl
    simp only [MemoryWorld.step]
    split
    · split_ifs <;> rfl
    · rfl
  | syncConfirm p =>
    refine h.unchanged ?_ rfl rfl
    simp only [MemoryWorld.step]
    split
    · split_ifs <;> rfl
    · rfl
  | _ =>
    refine h.unchanged ?_ rfl rfl
    simp only [MemoryWorld.step]
    split <;> rfl

/-- A sync leaves the added rows just if its snapshot has those that an earlier one had. -/
lemma Tracked.leavesAdded_iff {w : Watched μ β π} (h : Tracked w) (a : MemoryAct μ β π) :
    LeavesAdded w a ↔ ListsAdded w a := by
  cases a with
  | syncCommit p =>
    cases htask : w.world.task p with
    | snapshot fingerprint records =>
      have hstep : (w.world.step (.syncCommit p)).store =
          w.world.store.importSnapshot fingerprint records := by
        simp only [MemoryWorld.step, htask]
      simp only [LeavesAdded, ListsAdded, hstep, htask]
      constructor
      · rintro hleaves _ _ ⟨rfl, rfl⟩ x hadded hseen
        obtain ⟨row, hrow, rfl⟩ := Collection.mem_ids.1 (h.ids x hadded)
        have hkept := (mem_deleteWhere.1 (hleaves row hrow hadded)).2
        by_contra hmissing
        exact hkept (Collection.mem_removedBy.2 ⟨(h.lineage _).2 hseen, hmissing⟩)
      · intro hlists row hrow hadded
        refine mem_deleteWhere.2 ⟨mem_importRecords_of_native hrow (h.native row hrow hadded), ?_⟩
        intro hremoved
        obtain ⟨hlineage, hmissing⟩ := Collection.mem_removedBy.1 hremoved
        exact hmissing (hlists _ _ rfl _ hadded ((h.lineage _).1 hlineage))
    | _ =>
      have hstep : (w.world.step (.syncCommit p)).store = w.world.store := by
        simp only [MemoryWorld.step, htask]
      have hleaves : LeavesAdded w (.syncCommit p) := by
        simp only [LeavesAdded, hstep]
        exact fun row hrow _ => hrow
      have hlists : ListsAdded w (.syncCommit p) := by
        simp only [ListsAdded, htask]
        rintro _ _ ⟨⟩
      exact iff_of_true hleaves hlists
  | _ => exact Iff.rfl

/-- In every run the verification passes after each step; and the syncs leave the rows that were
added here as they are just if each snapshot still has their ids, where an earlier one had them. -/
theorem legacy_copy_keeps_added_iff [DecidableEq μ] (rules : LegacyRules ν μ)
    (source : Option (LegacySource μ β)) (as : List (MemoryAct μ β π)) :
    ((∀ n, Accepts rules
        (Runs.run Watched.step (Watched.start source : Watched μ β π) (as.take n)).world.store
        (Runs.run Watched.step (Watched.start source : Watched μ β π) (as.take n)).world.source) ∧
      Runs.Along Watched.step LeavesAdded (Watched.start source) as) ↔
    Runs.Along Watched.step ListsAdded (Watched.start source) as := by
  have hleaves : Runs.Along Watched.step LeavesAdded (Watched.start source) as ↔
      Runs.Along Watched.step ListsAdded (Watched.start source) as :=
    Runs.along_congr_under (I := Tracked) (fun _ a h => h.step a) (fun _ a h => h.leavesAdded_iff a)
      (Tracked.start source) as
  rw [hleaves]
  exact and_iff_right fun n => accepts rules _ _

/-- An imported row is deleted and added again here; then the older collection drops it, and the
sync takes the row that was added. -/
theorem sync_deletes_added_row :
    let w : Watched Unit Nat Unit := Runs.run Watched.step
      (Watched.start (some ⟨1, [⟨"m1", "a flat", ()⟩]⟩))
      (syncAlone () false ++ [.deleteLook () (some ["m1"]) fun _ => true, .deleteCommit (),
        .add [⟨"m1", "near a park", ()⟩], .legacy (some ⟨2, []⟩), .syncStart () false,
        .syncLook (), .syncFetch (), .syncConfirm ()])
    w.world.store.rows = [⟨⟨"m1", "near a park", ()⟩, .native⟩] ∧
      Text.ofString "m1" ∈ w.added ∧ (w.world.step (.syncCommit ())).store.rows = [] := by
  decide

end RentCompass.Memory
