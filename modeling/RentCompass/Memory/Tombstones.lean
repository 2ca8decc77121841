import RentCompass.Memory.Collection

/-!
# Tombstones

A row that was once in the store is in it or has a tombstone, whatever happens; and a tombstone
without a row stays one until the id is added again. So what was deleted, by `delete` or by a
sync, does not come back with a later sync.
-/

namespace RentCompass.Memory

open Rows

variable {μ β π : Type}

/-! ### Ids of the rows -/

lemma Collection.mem_ids {c : Collection μ β} {x : Text} :
    x ∈ c.ids ↔ ∃ row ∈ c.rows, row.id = x := List.mem_map

lemma ids_upsertLegacy (rows : List (MemoryRow μ)) (record : MemoryRecord μ) (x : Text) :
    x ∈ (upsertLegacy rows record).map (·.id) ↔ x ∈ rows.map (·.id) ∨ record.id = x := by
  unfold upsertLegacy
  split_ifs with hin
  · have hids : (updateWhere (fun row : MemoryRow μ => row.id = record.id ∧ row.origin = .legacy)
        (fun _ => ⟨record, .legacy⟩) rows).map (·.id) = rows.map (·.id) := by
      rw [updateWhere, List.map_map]
      refine List.map_congr_left fun row _ => ?_
      by_cases hrow : row.id = record.id ∧ row.origin = .legacy
      · simp [hrow]
      · simp [hrow]
    rw [hids]
    constructor
    · exact .inl
    · rintro (h | rfl)
      · exact h
      · exact hin
  · simp [eq_comm]

lemma ids_importRecords (tombstones : List Text) (rows : List (MemoryRow μ))
    (records : List (MemoryRecord μ)) (x : Text) :
    x ∈ (importRecords tombstones rows records).map (·.id) ↔
      x ∈ rows.map (·.id) ∨ (x ∉ tombstones ∧ x ∈ records.map (·.id)) := by
  induction records generalizing rows with
  | nil => simp [importRecords]
  | cons record records ih =>
    rw [importRecords, List.foldl_cons]
    change x ∈ (importRecords tombstones _ records).map (·.id) ↔ _
    rw [ih, List.map_cons, List.mem_cons]
    by_cases htomb : record.id ∈ tombstones
    · rw [if_pos htomb]
      have hne : x ∉ tombstones → x ≠ record.id := fun h heq => h (heq ▸ htomb)
      tauto
    · rw [if_neg htomb, ids_upsertLegacy]
      have hfree : record.id = x → x ∉ tombstones := fun heq => heq ▸ htomb
      have hsymm : record.id = x ↔ x = record.id := eq_comm
      tauto

lemma ids_deleteWhere (rows : List (MemoryRow μ)) (doomed : List Text) (x : Text) :
    x ∈ (deleteWhere (fun row : MemoryRow μ => row.id ∈ doomed) rows).map (·.id) ↔
      x ∈ rows.map (·.id) ∧ x ∉ doomed := by
  simp only [List.mem_map, mem_deleteWhere]
  constructor
  · rintro ⟨row, ⟨hrow, hnot⟩, rfl⟩
    exact ⟨⟨row, hrow, rfl⟩, hnot⟩
  · rintro ⟨⟨row, hrow, rfl⟩, hnot⟩
    exact ⟨row, ⟨hrow, hnot⟩, rfl⟩

/-! ### Transactions -/

/-- The ids a sync takes to be deleted in the older collection. -/
def Collection.removedBy (c : Collection μ β) (records : List (MemoryRecord μ)) : List Text :=
  (c.lineage ++ (records.map (·.id)).filter (· ∉ c.lineage)).filter (· ∉ records.map (·.id))

lemma Collection.mem_removedBy {c : Collection μ β} {records : List (MemoryRecord μ)} {x : Text} :
    x ∈ c.removedBy records ↔ x ∈ c.lineage ∧ x ∉ records.map (·.id) := by
  simp only [Collection.removedBy, List.mem_filter, List.mem_append, decide_eq_true_eq]
  tauto

lemma Collection.mem_tombstones_importSnapshot {c : Collection μ β} {fingerprint : Option β}
    {records : List (MemoryRecord μ)} {x : Text} :
    x ∈ (c.importSnapshot fingerprint records).tombstones ↔
      x ∈ c.tombstones ∨ x ∈ c.removedBy records := by
  show x ∈ c.tombstones ++ (c.removedBy records).filter (· ∉ c.tombstones) ↔ _
  simp only [List.mem_append, List.mem_filter, decide_eq_true_eq]
  tauto

lemma Collection.mem_ids_importSnapshot {c : Collection μ β} {fingerprint : Option β}
    {records : List (MemoryRecord μ)} {x : Text} :
    x ∈ (c.importSnapshot fingerprint records).ids ↔
      (x ∈ c.ids ∨ (x ∉ c.tombstones ∧ x ∈ records.map (·.id))) ∧ x ∉ c.removedBy records := by
  show x ∈ (deleteWhere (fun row : MemoryRow μ => row.id ∈ c.removedBy records) _).map (·.id) ↔ _
  rw [ids_deleteWhere, ids_importRecords]
  rfl

lemma Collection.mem_lineage_importSnapshot {c : Collection μ β} {fingerprint : Option β}
    {records : List (MemoryRecord μ)} {x : Text} :
    x ∈ (c.importSnapshot fingerprint records).lineage ↔
      x ∈ c.lineage ∨ x ∈ records.map (·.id) := by
  show x ∈ c.lineage ++ (records.map (·.id)).filter (· ∉ c.lineage) ↔ _
  simp only [List.mem_append, List.mem_filter, decide_eq_true_eq]
  tauto

lemma Collection.add_cases (c : Collection μ β) (records : List (MemoryRecord μ)) :
    c.add records = c ∨ (c.add records).lineage = c.lineage ∧
      (c.add records).synced = c.synced ∧
      (∀ x, x ∈ (c.add records).ids ↔ x ∈ c.ids ∨ x ∈ records.map (·.id)) ∧
      ∀ x, x ∈ (c.add records).tombstones ↔ x ∈ c.tombstones ∧ x ∉ records.map (·.id) := by
  dsimp only [Collection.add]
  split_ifs
  · refine .inr ⟨rfl, rfl, fun x => ?_, fun x => ?_⟩
    · simp [Collection.ids]
    · simp
  · exact .inl rfl

/-- What an update does to the store: tombstones go from ids with a row only. -/
structure Collection.Updated (c c' : Collection μ β) : Prop where
  ids : c'.ids = c.ids
  lineage : c'.lineage = c.lineage
  synced : c'.synced = c.synced
  tombstones : ∀ x ∈ c'.tombstones, x ∈ c.tombstones
  keeps : ∀ x ∈ c.tombstones, x ∉ c.ids → x ∈ c'.tombstones

lemma Collection.Updated.refl (c : Collection μ β) : c.Updated c :=
  ⟨rfl, rfl, rfl, fun _ h => h, fun _ h _ => h⟩

lemma Collection.Updated.trans {c c' c'' : Collection μ β} (h : c.Updated c')
    (h' : c'.Updated c'') : c.Updated c'' where
  ids := h'.ids.trans h.ids
  lineage := h'.lineage.trans h.lineage
  synced := h'.synced.trans h.synced
  tombstones x hx := h.tombstones x (h'.tombstones x hx)
  keeps x hx hnot := h'.keeps x (h.keeps x hx hnot) (h.ids ▸ hnot)

lemma Collection.updateOne_updated (c : Collection μ β) (u : MemoryUpdate μ) :
    c.Updated (c.updateOne u) := by
  unfold Collection.updateOne
  split_ifs with hrow
  · refine ⟨?_, rfl, rfl, fun x hx => List.mem_of_mem_filter hx, fun x hx hnot => ?_⟩
    · show (updateWhere _ _ c.rows).map (·.id) = c.rows.map (·.id)
      rw [updateWhere, List.map_map]
      refine List.map_congr_left fun row _ => ?_
      by_cases hid : row.id = u.id <;> simp [hid]
    · exact List.mem_filter.2 ⟨hx, decide_eq_true fun heq => hnot (heq ▸ hrow)⟩
  · exact .refl c

lemma Collection.update_updated (c : Collection μ β) (updates : List (MemoryUpdate μ)) :
    c.Updated (c.update updates) := by
  unfold Collection.update
  split_ifs with hvalid
  · clear hvalid
    induction updates generalizing c with
    | nil => exact .refl c
    | cons u updates ih => exact (c.updateOne_updated u).trans (ih (c.updateOne u))
  · exact .refl c

lemma Collection.mem_ids_delete {c : Collection μ β} {doomed : List Text} {x : Text} :
    x ∈ (c.delete doomed).ids ↔ x ∈ c.ids ∧ x ∉ doomed := ids_deleteWhere c.rows doomed x

lemma Collection.mem_tombstones_delete {c : Collection μ β} {doomed : List Text} {x : Text} :
    x ∈ (c.delete doomed).tombstones ↔ x ∈ c.tombstones ∨ x ∈ doomed := by
  show x ∈ c.tombstones ++ doomed.filter (· ∉ c.tombstones) ↔ _
  simp only [List.mem_append, List.mem_filter, decide_eq_true_eq]
  tauto

/-! ### Steps -/

variable [DecidableEq β] [DecidableEq π]

/-- What a step does to the store. -/
lemma MemoryWorld.store_step (s : MemoryWorld μ β π) (a : MemoryAct μ β π) :
    (s.step a).store = s.store ∨
      (∃ p fingerprint records, a = .syncCommit p ∧ s.task p = .snapshot fingerprint records ∧
        (s.step a).store = s.store.importSnapshot fingerprint records) ∨
      (∃ records, a = .add records ∧ (s.step a).store = s.store.add records) ∨
      (∃ updates, (s.step a).store = s.store.update updates) ∨
      ∃ p doomed, a = .deleteCommit p ∧ s.task p = .deleting doomed ∧
        (s.step a).store = s.store.delete doomed := by
  cases a with
  | add records => exact .inr (.inr (.inl ⟨records, rfl, rfl⟩))
  | update updates => exact .inr (.inr (.inr (.inl ⟨updates, rfl⟩)))
  | syncCommit p =>
    simp only [MemoryWorld.step]
    split
    · rename_i fingerprint records htask
      exact .inr (.inl ⟨p, fingerprint, records, rfl, htask, rfl⟩)
    · exact .inl rfl
  | deleteCommit p =>
    simp only [MemoryWorld.step]
    split
    · rename_i doomed htask
      exact .inr (.inr (.inr (.inr ⟨p, doomed, rfl, htask, rfl⟩)))
    · exact .inl rfl
  | legacy source => exact .inl rfl
  | stop p => exact .inl rfl
  | syncStart p force =>
    simp only [MemoryWorld.step]
    split
    · split_ifs <;> exact .inl rfl
    · exact .inl rfl
  | syncConfirm p =>
    simp only [MemoryWorld.step]
    split
    · split_ifs <;> exact .inl rfl
    · exact .inl rfl
  | _ =>
    simp only [MemoryWorld.step]
    split <;> exact .inl rfl

/-- The id has a tombstone and no row. -/
def Collection.Gone (x : Text) (c : Collection μ β) : Prop := x ∈ c.tombstones ∧ x ∉ c.ids

/-- The id has a tombstone or a row. -/
def Collection.Known (x : Text) (c : Collection μ β) : Prop := x ∈ c.ids ∨ x ∈ c.tombstones

/-- The step adds no row for the id. -/
def NotAdded (x : Text) (s : MemoryWorld μ β π) (a : MemoryAct μ β π) : Prop :=
  ∀ records, a = .add records → x ∉ records.map (·.id) ∨ s.store.add records = s.store

lemma Collection.Gone.step {x : Text} {s : MemoryWorld μ β π} {a : MemoryAct μ β π}
    (h : s.store.Gone x) (hadd : NotAdded x s a) : (s.step a).store.Gone x := by
  obtain ⟨htomb, hrow⟩ := h
  rcases s.store_step a with heq | ⟨p, fingerprint, records, -, -, heq⟩ | ⟨records, ha, heq⟩ |
    ⟨updates, heq⟩ | ⟨p, doomed, -, -, heq⟩
  · rw [heq]
    exact ⟨htomb, hrow⟩
  · rw [heq]
    refine ⟨Collection.mem_tombstones_importSnapshot.2 (.inl htomb), fun hx => ?_⟩
    rcases (Collection.mem_ids_importSnapshot.1 hx).1 with hx | ⟨hnot, -⟩
    · exact hrow hx
    · exact hnot htomb
  · rw [heq]
    rcases hadd records ha with hx | hfailed
    · rcases s.store.add_cases records with hsame | ⟨-, -, hids, htombs⟩
      · rw [hsame]
        exact ⟨htomb, hrow⟩
      · exact ⟨(htombs x).2 ⟨htomb, hx⟩, fun h => ((hids x).1 h).elim hrow hx⟩
    · rw [hfailed]
      exact ⟨htomb, hrow⟩
  · rw [heq]
    have hupdated := s.store.update_updated updates
    exact ⟨hupdated.keeps x htomb hrow, hupdated.ids ▸ hrow⟩
  · rw [heq]
    exact ⟨Collection.mem_tombstones_delete.2 (.inl htomb),
      fun hx => hrow (Collection.mem_ids_delete.1 hx).1⟩

lemma Collection.Known.step {x : Text} {s : MemoryWorld μ β π} (h : s.store.Known x)
    (a : MemoryAct μ β π) : (s.step a).store.Known x := by
  rcases s.store_step a with heq | ⟨p, fingerprint, records, -, -, heq⟩ | ⟨records, -, heq⟩ |
    ⟨updates, heq⟩ | ⟨p, doomed, -, -, heq⟩
  · rwa [heq]
  · rw [heq]
    by_cases hremoved : x ∈ s.store.removedBy records
    · exact .inr (Collection.mem_tombstones_importSnapshot.2 (.inr hremoved))
    · rcases h with hrow | htomb
      · exact .inl (Collection.mem_ids_importSnapshot.2 ⟨.inl hrow, hremoved⟩)
      · exact .inr (Collection.mem_tombstones_importSnapshot.2 (.inl htomb))
  · rw [heq]
    rcases s.store.add_cases records with hsame | ⟨-, -, hids, htombs⟩
    · rwa [hsame]
    · by_cases hadded : x ∈ records.map (·.id)
      · exact .inl ((hids x).2 (.inr hadded))
      · exact h.imp (fun hrow => (hids x).2 (.inl hrow)) fun htomb => (htombs x).2 ⟨htomb, hadded⟩
  · rw [heq]
    have hupdated := s.store.update_updated updates
    by_cases hrow : x ∈ s.store.ids
    · exact .inl (hupdated.ids ▸ hrow)
    · exact .inr (hupdated.keeps x (h.resolve_left hrow) hrow)
  · rw [heq]
    by_cases hdoomed : x ∈ doomed
    · exact .inr (Collection.mem_tombstones_delete.2 (.inr hdoomed))
    · exact h.imp (fun hrow => Collection.mem_ids_delete.2 ⟨hrow, hdoomed⟩)
        fun htomb => Collection.mem_tombstones_delete.2 (.inl htomb)

/-- What is once gone stays gone until it is added again. -/
lemma Collection.Gone.run {x : Text} {s : MemoryWorld μ β π} (h : s.store.Gone x)
    {as : List (MemoryAct μ β π)} (hadd : Runs.Along MemoryWorld.step (NotAdded x) s as) :
    (Runs.run MemoryWorld.step s as).store.Gone x :=
  Runs.run_preserves_along (I := fun s : MemoryWorld μ β π => s.store.Gone x)
    (fun _ _ h hadd => h.step hadd) h hadd

/-- A row of an earlier state that is not there has a tombstone. -/
lemma gone_of_held {x : Text} {s : MemoryWorld μ β π} (hheld : x ∈ s.store.ids)
    {as : List (MemoryAct μ β π)} (hmissing : x ∉ (Runs.run MemoryWorld.step s as).store.ids) :
    (Runs.run MemoryWorld.step s as).store.Gone x := by
  have hknown : (Runs.run MemoryWorld.step s as).store.Known x :=
    Runs.run_preserves (I := fun s : MemoryWorld μ β π => s.store.Known x)
      (fun _ a h => h.step a) (.inl hheld) as
  exact ⟨hknown.resolve_left hmissing, hmissing⟩

/-- A row that a deletion took, or that a deletion found gone although the store once had it, is
in no later state until it is added again: no sync brings it back. -/
theorem deleted_stays_deleted (source : Option (LegacySource μ β))
    (before after : List (MemoryAct μ β π)) (x : Text) :
    let s := Runs.run MemoryWorld.step (MemoryWorld.start source) before
    (∀ p doomed, s.task p = .deleting doomed → x ∈ doomed →
      Runs.Along MemoryWorld.step (NotAdded x) (s.step (.deleteCommit p)) after →
      x ∉ (Runs.run MemoryWorld.step (s.step (.deleteCommit p)) after).store.ids) ∧
    (∀ n, x ∈ (Runs.run MemoryWorld.step (MemoryWorld.start source) (before.take n)).store.ids →
      x ∉ s.store.ids → Runs.Along MemoryWorld.step (NotAdded x) s after →
      x ∉ (Runs.run MemoryWorld.step s after).store.ids) := by
  intro s
  refine ⟨fun p doomed htask hx hadd => ?_, fun n hheld hmissing hadd => ?_⟩
  · have hgone : (s.step (.deleteCommit p)).store.Gone x := by
      simp only [MemoryWorld.step, htask]
      refine ⟨Collection.mem_tombstones_delete.2 (.inr hx), fun hrow => ?_⟩
      exact (Collection.mem_ids_delete.1 hrow).2 hx
    exact (hgone.run hadd).2
  · have hsplit : s = Runs.run MemoryWorld.step
        (Runs.run MemoryWorld.step (MemoryWorld.start source) (before.take n)) (before.drop n) := by
      rw [← Runs.run_append, List.take_append_drop]
    rw [hsplit] at hmissing
    have hgone := gone_of_held hheld hmissing
    rw [← hsplit] at hgone
    exact (hgone.run hadd).2

/-- An imported row is deleted while the older collection still has it, and synced again. -/
theorem deleted_stays_deleted_imported :
    let before : List (MemoryAct Unit Nat Unit) := [.syncStart () false, .syncLook (),
      .syncFetch (), .syncConfirm (), .syncCommit (), .deleteLook () (some ["m1"]) fun _ => true]
    let s := Runs.run MemoryWorld.step (.start (some ⟨1, [⟨"m1", "a flat", ()⟩]⟩)) before
    (Text.ofString "m1") ∉ (Runs.run MemoryWorld.step (s.step (.deleteCommit ()))
      [.syncStart () true, .syncLook (), .syncFetch (), .syncConfirm (),
        .syncCommit ()]).store.ids := by
  refine (deleted_stays_deleted _ _ _ _).1 () ["m1"] rfl (by decide) ?_
  refine ⟨?_, ?_, ?_, ?_, ?_, trivial⟩ <;>
  · intro records h
    cases h

end RentCompass.Memory
