import RentCompass.Store.Branch

/-!
# Context snapshots

The snapshot a conversation continues from is that of its latest completed turn that has one. A
summary made after the turn is patched into it.
-/

namespace RentCompass.Store

/-- The turns `JOIN turn_snapshots` leaves of a conversation: completed, with a snapshot. -/
def snapshotTurns (db : Db) (u : UserId) (cid : Id) : List Turn :=
  byStart (db.turns.filter fun t => t.userId = u ∧ t.status = .completed ∧
    db.snapshots.any fun s => s.turnId = t.id ∧ s.userId = u ∧ s.conversationId = cid)

lemma mem_snapshotTurns {db : Db} {u : UserId} {cid : Id} {t : Turn} :
    t ∈ snapshotTurns db u cid ↔ t ∈ db.turns ∧ t.userId = u ∧ t.status = .completed ∧
      ∃ s ∈ db.snapshots, s.turnId = t.id ∧ s.userId = u ∧ s.conversationId = cid := by
  simp [snapshotTurns]

/-- The row `ORDER BY t.started_at DESC LIMIT 1` leaves of the join. -/
def latestSnapshotRow (db : Db) (u : UserId) (cid : Id) : Option TurnSnapshot :=
  (snapshotTurns db u cid).getLast?.bind fun t =>
    Rows.selectOne (fun s : TurnSnapshot => s.turnId = t.id ∧ s.userId = u ∧ s.conversationId = cid)
      db.snapshots

/-- `latest_snapshot`. -/
def latestSnapshot (db : Db) (u : UserId) (cid : Id) : Option Snapshot :=
  (latestSnapshotRow db u cid).map (·.snapshotJson)

/-- A snapshot with another summary. -/
def Snapshot.patchSummary (s : Snapshot) (summary : Text) (through : Id) : Snapshot :=
  { s with
    summary := if summary = [] then none else some summary
    summaryThroughTurnId := some through
    contextRevision := s.contextRevision + 1 }

/-- `patch_latest_snapshot_summary`; answers whether there was a snapshot. -/
def patchLatestSnapshotSummary (now : Instant) (u : UserId) (cid : Id) (summary : Text)
    (through : Id) (db : Db) : Bool × Db :=
  match latestSnapshotRow db u cid with
  | none => (false, db)
  | some row =>
    (true, { db with
      snapshots := Rows.updateWhere (fun s : TurnSnapshot => s.userId = u ∧ s.turnId = row.turnId)
        (fun s => { s with
          snapshotJson := row.snapshotJson.patchSummary summary through, createdAt := now })
        db.snapshots })

/-- A patch rewrites snapshots. -/
lemma patchLatestSnapshotSummary_fields (now : Instant) (u : UserId) (cid : Id) (summary : Text)
    (through : Id) (db : Db) :
    ∃ snapshots, (patchLatestSnapshotSummary now u cid summary through db).2
      = { db with snapshots := snapshots } := by
  unfold patchLatestSnapshotSummary
  split
  · exact ⟨db.snapshots, rfl⟩
  · exact ⟨_, rfl⟩

end RentCompass.Store
