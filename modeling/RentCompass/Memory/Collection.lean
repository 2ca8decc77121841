import RentCompass.Rows
import RentCompass.Runs
import RentCompass.Text
import Mathlib.Logic.Function.Basic

/-!
# The memory collection

The rows of durable memory, and the import of an older collection that may still be written by
older processes. A transaction is one step; a sync, which reads the older collection before its
transaction, and a deletion, which selects its rows before its transaction, take several.
-/

namespace RentCompass.Memory

open Rows

/-! ### Rows -/

inductive RowOrigin where
  | native
  | legacy
  deriving DecidableEq

/-- A document with its canonical metadata, of type `μ`. -/
structure MemoryRecord (μ : Type) where
  id : Text
  document : Text
  metadata : μ
  deriving DecidableEq

/-- A row of `memory_records`; its other columns repeat fields of the metadata. -/
structure MemoryRow (μ : Type) extends MemoryRecord μ where
  origin : RowOrigin
  deriving DecidableEq

/-- The older collection, and what `_source_fingerprint` says of its files. -/
structure LegacySource (μ β : Type) where
  fingerprint : β
  records : List (MemoryRecord μ)
  deriving DecidableEq

variable {μ β π : Type}

/-- `agent_memory.sqlite3`. -/
structure Collection (μ β : Type) where
  rows : List (MemoryRow μ)
  tombstones : List Text
  lineage : List Text
  /-- The `source_fingerprint` of `legacy_sync_state`. -/
  synced : Option β

def Collection.empty : Collection μ β := ⟨[], [], [], none⟩

def Collection.ids (c : Collection μ β) : List Text := c.rows.map (·.id)

/-! ### Transactions -/

/-- `INSERT … ON CONFLICT(id) DO UPDATE … WHERE memory_records.origin = 'legacy'`. -/
def upsertLegacy (rows : List (MemoryRow μ)) (record : MemoryRecord μ) : List (MemoryRow μ) :=
  if record.id ∈ rows.map (·.id) then
    updateWhere (fun row => row.id = record.id ∧ row.origin = .legacy) (fun _ => ⟨record, .legacy⟩)
      rows
  else rows ++ [⟨record, .legacy⟩]

/-- The records of a snapshot, those with a tombstone left out. -/
def importRecords (tombstones : List Text) (rows : List (MemoryRow μ))
    (records : List (MemoryRecord μ)) : List (MemoryRow μ) :=
  records.foldl
    (fun rows record => if record.id ∈ tombstones then rows else upsertLegacy rows record) rows

/-- The transaction of `sync_legacy`. -/
def Collection.importSnapshot (c : Collection μ β) (fingerprint : Option β)
    (records : List (MemoryRecord μ)) : Collection μ β :=
  let seen := records.map (·.id)
  let lineage := c.lineage ++ seen.filter (· ∉ c.lineage)
  let removed := lineage.filter (· ∉ seen)
  { rows := deleteWhere (fun row => row.id ∈ removed) (importRecords c.tombstones c.rows records)
    tombstones := c.tombstones ++ removed.filter (· ∉ c.tombstones)
    lineage := lineage
    synced := fingerprint }

/-- `_validate_batch`, and the check of each id. -/
def validBatch (ids : List Text) : Prop := ids ≠ [] ∧ ids.Nodup ∧ [] ∉ ids

instance (ids : List Text) : Decidable (validBatch ids) :=
  inferInstanceAs (Decidable (_ ∧ _ ∧ _))

/-- The transaction of `add`; an id that is taken rolls it back. -/
def Collection.add (c : Collection μ β) (records : List (MemoryRecord μ)) : Collection μ β :=
  let ids := records.map (·.id)
  if validBatch ids ∧ ∀ id ∈ ids, id ∉ c.ids then
    { c with
      rows := c.rows ++ records.map fun record => ⟨record, .native⟩
      tombstones := c.tombstones.filter (· ∉ ids) }
  else c

/-- What `update` changes of one record. -/
structure MemoryUpdate (μ : Type) where
  id : Text
  document : Option Text
  metadata : Option μ

def Collection.updateOne (c : Collection μ β) (u : MemoryUpdate μ) : Collection μ β :=
  if u.id ∈ c.ids then
    { c with
      rows := updateWhere (fun row => row.id = u.id) (fun row =>
        { row with
          document := u.document.getD row.document
          metadata := u.metadata.getD row.metadata
          origin := .native }) c.rows
      tombstones := c.tombstones.filter (· ≠ u.id) }
  else c

/-- The transaction of `update`; an id without a row is passed over. -/
def Collection.update (c : Collection μ β) (updates : List (MemoryUpdate μ)) : Collection μ β :=
  if (updates.map (·.id)) ≠ [] ∧ (updates.map (·.id)).Nodup then
    updates.foldl Collection.updateOne c
  else c

/-- `get`: the rows of some ids, or all, that a filter lets through. -/
def Collection.get (c : Collection μ β) (ids : Option (List Text)) (keep : MemoryRow μ → Bool) :
    List (MemoryRow μ) :=
  c.rows.filter fun row => ids.all (row.id ∈ ·) && keep row

/-- The transaction of `delete`. -/
def Collection.delete (c : Collection μ β) (doomed : List Text) : Collection μ β :=
  { c with
    rows := deleteWhere (fun row => row.id ∈ doomed) c.rows
    tombstones := c.tombstones ++ doomed.filter (· ∉ c.tombstones) }

/-! ### Processes -/

/-- What a process is in the middle of. -/
inductive MemoryTask (μ β : Type) where
  | idle
  /-- To read the older collection, with so many attempts left. -/
  | checked (attempts : Nat)
  | looked (before : β) (attempts : Nat)
  | fetched (before : β) (records : List (MemoryRecord μ)) (attempts : Nat)
  /-- At the transaction of `sync_legacy`; without a fingerprint the collection was gone. -/
  | snapshot (fingerprint : Option β) (records : List (MemoryRecord μ))
  /-- At the transaction of `delete`. -/
  | deleting (doomed : List Text)

/-- The shared file, the older collection and the processes. -/
structure MemoryWorld (μ β π : Type) where
  store : Collection μ β
  source : Option (LegacySource μ β)
  task : π → MemoryTask μ β

def MemoryWorld.start (source : Option (LegacySource μ β)) : MemoryWorld μ β π :=
  ⟨.empty, source, fun _ => .idle⟩

inductive MemoryAct (μ β π : Type) where
  /-- The older collection is written by whoever still uses it. -/
  | legacy (source : Option (LegacySource μ β))
  | syncStart (p : π) (force : Bool)
  /-- The fingerprint before, the records, and the fingerprint after. -/
  | syncLook (p : π)
  | syncFetch (p : π)
  | syncConfirm (p : π)
  | syncCommit (p : π)
  | add (records : List (MemoryRecord μ))
  | update (updates : List (MemoryUpdate μ))
  | deleteLook (p : π) (ids : Option (List Text)) (keep : MemoryRow μ → Bool)
  | deleteCommit (p : π)
  /-- An exception, or a crash: an open transaction is rolled back. -/
  | stop (p : π)

variable [DecidableEq β] [DecidableEq π]

namespace MemoryWorld

def setTask (s : MemoryWorld μ β π) (p : π) (task : MemoryTask μ β) : MemoryWorld μ β π :=
  { s with task := Function.update s.task p task }

def step (s : MemoryWorld μ β π) : MemoryAct μ β π → MemoryWorld μ β π
  | .legacy source => { s with source }
  | .syncStart p force =>
    match s.task p, s.source with
    | .idle, some source =>
      if force = false ∧ s.store.synced = some source.fingerprint then s
      else s.setTask p (.checked 3)
    | _, _ => s
  | .syncLook p =>
    match s.task p, s.source with
    | .checked (n + 1), some source => s.setTask p (.looked source.fingerprint n)
    | .checked (_ + 1), none => s.setTask p (.snapshot none [])
    | .checked 0, _ => s.setTask p .idle
    | _, _ => s
  | .syncFetch p =>
    match s.task p, s.source with
    | .looked before n, some source => s.setTask p (.fetched before source.records n)
    | .looked _ _, none => s.setTask p .idle
    | _, _ => s
  | .syncConfirm p =>
    match s.task p with
    | .fetched before records n =>
      if s.source.map (·.fingerprint) = some before then
        s.setTask p (.snapshot (some before) records)
      else s.setTask p (.checked n)
    | _ => s
  | .syncCommit p =>
    match s.task p with
    | .snapshot fingerprint records =>
      { s.setTask p .idle with store := s.store.importSnapshot fingerprint records }
    | _ => s
  | .add records => { s with store := s.store.add records }
  | .update updates => { s with store := s.store.update updates }
  | .deleteLook p ids keep =>
    match s.task p, (s.store.get ids keep).map (·.id) with
    | .idle, [] => s
    | .idle, doomed => s.setTask p (.deleting doomed)
    | _, _ => s
  | .deleteCommit p =>
    match s.task p with
    | .deleting doomed => { s.setTask p .idle with store := s.store.delete doomed }
    | _ => s
  | .stop p => s.setTask p .idle

end MemoryWorld

end RentCompass.Memory
