import RentCompass.Memory.Tombstones

/-!
# Syncs that race

A sync reads the older collection before its transaction. If by then another process has imported
rows the snapshot does not have yet, the transaction takes them for deleted, and their tombstones
keep them out for good. Where no transaction meets such rows, no row of the older collection is
lost.
-/

namespace RentCompass.Memory

variable {μ β π : Type} [DecidableEq β] [DecidableEq π]

/-- The world, the ids that were ever deleted, and the fingerprints the source has had. -/
structure Observed (μ β π : Type) where
  world : MemoryWorld μ β π
  deleted : List Text
  fingerprints : List β

namespace Observed

def start (source : Option (LegacySource μ β)) : Observed μ β π where
  world := .start source
  deleted := []
  fingerprints := (source.map (·.fingerprint)).toList

/-- The ids a step deletes. -/
def deletes (s : MemoryWorld μ β π) : MemoryAct μ β π → List Text
  | .deleteCommit p =>
    match s.task p with
    | .deleting doomed => doomed
    | _ => []
  | _ => []

def step (o : Observed μ β π) (a : MemoryAct μ β π) : Observed μ β π where
  world := o.world.step a
  deleted := deletes o.world a ++ o.deleted
  fingerprints :=
    match a with
    | .legacy (some source) => source.fingerprint :: o.fingerprints
    | _ => o.fingerprints

end Observed

def LegacySource.ids (source : LegacySource μ β) : List Text := source.records.map (·.id)

/-- The older collection has a row of this id. -/
def MemoryWorld.InSource (s : MemoryWorld μ β π) (x : Text) : Prop :=
  ∃ source ∈ s.source, x ∈ source.ids

/-- The writer of the older collection only adds rows, and its files show it. -/
def Adding (o : Observed μ β π) : MemoryAct μ β π → Prop
  | .legacy source => ∃ new, source = some new ∧ new.fingerprint ∉ o.fingerprints ∧
      ∀ x, o.world.InSource x → x ∈ new.ids
  | _ => True

/-- The snapshot a sync commits has every row that was ever imported, unless it was deleted. -/
def Covered (o : Observed μ β π) : MemoryAct μ β π → Prop
  | .syncCommit p => ∀ fingerprint records, o.world.task p = .snapshot fingerprint records →
      ∀ x ∈ o.world.store.lineage, x ∈ o.deleted ∨ x ∈ records.map (·.id)
  | _ => True

/-- The steps of a sync that nothing disturbs. -/
def syncAlone (p : π) (force : Bool) : List (MemoryAct μ β π) :=
  [.syncStart p force, .syncLook p, .syncFetch p, .syncConfirm p, .syncCommit p]

/-- A row of the older collection that nobody deleted has no tombstone, and any process brings it
in. -/
def NoneLost (o : Observed μ β π) : Prop :=
  ∀ x, o.world.InSource x → x ∉ o.deleted → x ∉ o.world.store.tombstones ∧
    ∀ p force, o.world.task p = .idle →
      x ∈ (Runs.run MemoryWorld.step o.world (syncAlone p force)).store.ids ∧
      x ∉ (Runs.run MemoryWorld.step o.world (syncAlone p force)).store.tombstones

/-! ### The invariant -/

/-- What the task of a process says of the older collection. -/
def TaskHolds (o : Observed μ β π) : MemoryTask μ β → Prop
  | .looked before _ => before ∈ o.fingerprints
  | .fetched before records _ => before ∈ o.fingerprints ∧
      (∀ x ∈ records.map (·.id), o.world.InSource x) ∧
      ∀ source ∈ o.world.source, source.fingerprint = before →
        ∀ x ∈ source.ids, x ∈ records.map (·.id)
  | .snapshot fingerprint records => (∀ x ∈ records.map (·.id), o.world.InSource x) ∧
      ∀ before ∈ fingerprint, before ∈ o.fingerprints ∧
        ∀ source ∈ o.world.source, source.fingerprint = before →
          ∀ x ∈ source.ids, x ∈ records.map (·.id)
  | _ => True

structure Synced (o : Observed μ β π) : Prop where
  tombstones : ∀ x ∈ o.world.store.tombstones, x ∈ o.deleted
  known : ∀ x ∈ o.world.store.lineage, o.world.store.Known x
  sourced : ∀ x ∈ o.world.store.lineage, o.world.InSource x
  current : ∀ source ∈ o.world.source, source.fingerprint ∈ o.fingerprints ∧
    (o.world.store.synced = some source.fingerprint → ∀ x ∈ source.ids, x ∈ o.world.store.lineage)
  synced : ∀ before ∈ o.world.store.synced, before ∈ o.fingerprints
  task : ∀ p, TaskHolds o (o.world.task p)

omit [DecidableEq β] [DecidableEq π] in
lemma Synced.start (source : Option (LegacySource μ β)) :
    Synced (Observed.start source : Observed μ β π) where
  tombstones x hx := by cases hx
  known x hx := by cases hx
  sourced x hx := by cases hx
  current src hsrc := by
    obtain rfl : source = some src := hsrc
    exact ⟨List.mem_singleton_self _, fun h => by cases h⟩
  synced before hbefore := by cases hbefore
  task p := trivial

omit [DecidableEq β] in
/-- A step that changes neither the store nor the older collection, and at most one task. -/
lemma Synced.setTask {o : Observed μ β π} (h : Synced o) (p : π) {task : MemoryTask μ β}
    (htask : TaskHolds o task) : Synced { o with world := o.world.setTask p task } :=
  { h with
    task := fun q => by
      show TaskHolds o (Function.update o.world.task p task q)
      by_cases hq : q = p
      · subst hq
        rwa [Function.update_self]
      · rw [Function.update_of_ne hq]
        exact h.task q }

/-- The older collection gains rows, under a new fingerprint. -/
lemma Synced.legacy {o : Observed μ β π} (h : Synced o) {source : LegacySource μ β}
    (hnew : source.fingerprint ∉ o.fingerprints)
    (hkeeps : ∀ x, o.world.InSource x → x ∈ source.ids) :
    Synced (o.step (.legacy (some source))) := by
  have hin {x : Text} (hx : o.world.InSource x) :
      (o.step (.legacy (some source))).world.InSource x := ⟨source, rfl, hkeeps x hx⟩
  -- no process, and no earlier sync, has seen the new fingerprint
  have hfresh {before : β} (hbefore : before ∈ o.fingerprints) {src : LegacySource μ β}
      (hsrc : src ∈ (o.step (.legacy (some source))).world.source) : src.fingerprint ≠ before := by
    obtain rfl := Option.some.inj hsrc
    exact fun heq => hnew (heq ▸ hbefore)
  constructor
  · exact h.tombstones
  · exact h.known
  · exact fun x hx => hin (h.sourced x hx)
  · intro src hsrc
    refine ⟨?_, fun hsynced => absurd rfl (hfresh (h.synced _ hsynced) hsrc)⟩
    obtain rfl := Option.some.inj hsrc
    exact List.mem_cons_self ..
  · exact fun before hbefore => List.mem_cons_of_mem _ (h.synced before hbefore)
  · intro p
    have hheld := h.task p
    show TaskHolds _ (o.world.task p)
    cases htask : o.world.task p with
    | looked before n =>
      rw [htask] at hheld
      exact List.mem_cons_of_mem _ hheld
    | fetched before records n =>
      rw [htask] at hheld
      exact ⟨List.mem_cons_of_mem _ hheld.1, fun x hx => hin (hheld.2.1 x hx),
        fun src hsrc heq => absurd heq (hfresh hheld.1 hsrc)⟩
    | snapshot fingerprint records =>
      rw [htask] at hheld
      exact ⟨fun x hx => hin (hheld.1 x hx), fun before hbefore =>
        ⟨List.mem_cons_of_mem _ (hheld.2 before hbefore).1,
          fun src hsrc heq => absurd heq (hfresh (hheld.2 before hbefore).1 hsrc)⟩⟩
    | _ => trivial

omit [DecidableEq β] in
/-- A sync whose snapshot misses deleted rows at most. -/
lemma Synced.commit {o : Observed μ β π} (h : Synced o) {p : π} {fingerprint : Option β}
    {records : List (MemoryRecord μ)} (htask : o.world.task p = .snapshot fingerprint records)
    (hcovered : ∀ x ∈ o.world.store.lineage, x ∈ o.deleted ∨ x ∈ records.map (·.id)) :
    Synced { o with world :=
      { o.world.setTask p .idle with
        store := o.world.store.importSnapshot fingerprint records } } := by
  have hidle : Synced { o with world := o.world.setTask p .idle } := h.setTask p trivial
  have hheld := h.task p
  rw [htask] at hheld
  constructor
  · intro x hx
    rcases Collection.mem_tombstones_importSnapshot.1 hx with hx | hx
    · exact h.tombstones x hx
    · obtain ⟨hlineage, hmissing⟩ := Collection.mem_removedBy.1 hx
      exact (hcovered x hlineage).resolve_right hmissing
  · intro x hx
    by_cases hremoved : x ∈ o.world.store.removedBy records
    · exact .inr (Collection.mem_tombstones_importSnapshot.2 (.inr hremoved))
    · by_cases htomb : x ∈ o.world.store.tombstones
      · exact .inr (Collection.mem_tombstones_importSnapshot.2 (.inl htomb))
      · refine .inl (Collection.mem_ids_importSnapshot.2 ⟨?_, hremoved⟩)
        rcases Collection.mem_lineage_importSnapshot.1 hx with hx | hx
        · exact .inl ((h.known x hx).resolve_right htomb)
        · exact .inr ⟨htomb, hx⟩
  · intro x hx
    rcases Collection.mem_lineage_importSnapshot.1 hx with hx | hx
    · exact h.sourced x hx
    · exact hheld.1 x hx
  · intro source hsource
    refine ⟨(h.current source hsource).1, fun hsynced x hx => ?_⟩
    refine Collection.mem_lineage_importSnapshot.2 (.inr ?_)
    exact (hheld.2 _ hsynced).2 source hsource rfl x hx
  · exact fun before hbefore => (hheld.2 before hbefore).1
  · exact hidle.task

omit [DecidableEq β] [DecidableEq π] in
/-- A write of the store other than a sync. -/
lemma Synced.write {o : Observed μ β π} (h : Synced o) (store : Collection μ β)
    (deleted : List Text) (hlineage : store.lineage = o.world.store.lineage)
    (hsynced : store.synced = o.world.store.synced)
    (htombstones : ∀ x ∈ store.tombstones, x ∈ o.world.store.tombstones ∨ x ∈ deleted)
    (hknown : ∀ x, o.world.store.Known x → store.Known x) (hdeleted : ∀ x ∈ o.deleted, x ∈ deleted) :
    Synced { o with world := { o.world with store }, deleted } where
  tombstones x hx := (htombstones x hx).elim (fun hx => hdeleted x (h.tombstones x hx)) id
  known x hx := hknown x (h.known x (hlineage ▸ hx))
  sourced x hx := h.sourced x (hlineage ▸ hx)
  current source hsource := by
    show _ ∧ (store.synced = _ → ∀ x ∈ source.ids, x ∈ store.lineage)
    rw [hlineage, hsynced]
    exact h.current source hsource
  synced before hbefore := h.synced before (hsynced ▸ hbefore)
  task := h.task

lemma Synced.step {o : Observed μ β π} (h : Synced o) {a : MemoryAct μ β π} (hadding : Adding o a)
    (hcovered : Covered o a) : Synced (o.step a) := by
  cases a with
  | legacy source =>
    obtain ⟨new, rfl, hnew, hkeeps⟩ := hadding
    exact h.legacy hnew hkeeps
  | syncStart p force =>
    simp only [Observed.step, MemoryWorld.step]
    split
    · split_ifs
      · exact h
      · exact h.setTask p trivial
    · exact h
  | syncLook p =>
    simp only [Observed.step, MemoryWorld.step]
    split
    · rename_i source _ hsource
      exact h.setTask p (h.current source hsource).1
    · have hempty : TaskHolds o (.snapshot none []) :=
        ⟨fun x hx => absurd hx List.not_mem_nil, fun before hbefore => by cases hbefore⟩
      exact h.setTask p hempty
    · exact h.setTask p trivial
    · exact h
  | syncFetch p =>
    simp only [Observed.step, MemoryWorld.step]
    split
    · rename_i before n source htask hsource
      have hheld := h.task p
      rw [htask] at hheld
      refine h.setTask p ⟨hheld, fun x hx => ⟨source, hsource, hx⟩, fun src hsrc _ x hx => ?_⟩
      rw [hsource] at hsrc
      obtain rfl := Option.some.inj hsrc
      exact hx
    · exact h.setTask p trivial
    · exact h
  | syncConfirm p =>
    simp only [Observed.step, MemoryWorld.step]
    split
    · rename_i before records n htask
      have hheld := h.task p
      rw [htask] at hheld
      split_ifs
      · refine h.setTask p ⟨hheld.2.1, fun seen hseen => ?_⟩
        obtain rfl := Option.some.inj hseen
        exact ⟨hheld.1, hheld.2.2⟩
      · exact h.setTask p trivial
    · exact h
  | syncCommit p =>
    simp only [Observed.step, MemoryWorld.step]
    split
    · rename_i fingerprint records htask
      exact h.commit htask (hcovered fingerprint records htask)
    · exact h
  | add records =>
    have htombs : ∀ x ∈ (o.world.store.add records).tombstones, x ∈ o.world.store.tombstones := by
      intro x hx
      rcases o.world.store.add_cases records with hsame | ⟨-, -, -, htombs⟩
      · rwa [hsame] at hx
      · exact ((htombs x).1 hx).1
    have hrest : (o.world.store.add records).lineage = o.world.store.lineage ∧
        (o.world.store.add records).synced = o.world.store.synced := by
      rcases o.world.store.add_cases records with hsame | ⟨hlineage, hsynced, -⟩
      · rw [hsame]
        exact ⟨rfl, rfl⟩
      · exact ⟨hlineage, hsynced⟩
    exact h.write _ _ hrest.1 hrest.2 (fun x hx => .inl (htombs x hx))
      (fun x hx => Collection.Known.step (s := o.world) hx (.add records)) fun _ hx => hx
  | update updates =>
    have hupdated := o.world.store.update_updated updates
    exact h.write _ _ hupdated.lineage hupdated.synced
      (fun x hx => .inl (hupdated.tombstones x hx))
      (fun x hx => Collection.Known.step (s := o.world) hx (.update updates)) fun _ hx => hx
  | deleteLook p ids keep =>
    simp only [Observed.step, MemoryWorld.step]
    split
    · exact h
    · exact h.setTask p trivial
    · exact h
  | deleteCommit p =>
    cases htask : o.world.task p with
    | deleting doomed =>
      have hknown {x : Text} (hx : o.world.store.Known x) :
          (o.world.store.delete doomed).Known x := by
        have hstep := Collection.Known.step (s := o.world) hx (.deleteCommit p)
        simpa only [MemoryWorld.step, htask] using hstep
      have hidle : Synced { o with world := o.world.setTask p .idle } := h.setTask p trivial
      have hwrite := hidle.write (o.world.store.delete doomed) (doomed ++ o.deleted) rfl rfl
        (fun x hx => (Collection.mem_tombstones_delete.1 hx).imp_right
          (List.mem_append_left _)) (fun x hx => hknown hx)
        (fun x hx => List.mem_append_right _ hx)
      simpa only [Observed.step, MemoryWorld.step, Observed.deletes, htask] using hwrite
    | _ => simpa only [Observed.step, MemoryWorld.step, Observed.deletes, htask, List.nil_append] using h
  | stop p => exact h.setTask p trivial

/-! ### No row is lost -/

omit [DecidableEq π] in
/-- The steps of an undisturbed sync: nothing to do, or a transaction with what is there. -/
lemma syncAlone_store [DecidableEq π] {s : MemoryWorld μ β π} {source : LegacySource μ β}
    (hsource : s.source = some source) {p : π} (hidle : s.task p = .idle) (force : Bool) :
    (Runs.run MemoryWorld.step s (syncAlone p force)).store =
      if force = false ∧ s.store.synced = some source.fingerprint then s.store
      else s.store.importSnapshot (some source.fingerprint) source.records := by
  by_cases hcurrent : force = false ∧ s.store.synced = some source.fingerprint
  · simp [syncAlone, MemoryWorld.step, hidle, hsource, hcurrent]
  · simp [syncAlone, MemoryWorld.step, MemoryWorld.setTask, hidle, hsource, hcurrent]

lemma Synced.noneLost {o : Observed μ β π} (h : Synced o) : NoneLost o := by
  rintro x ⟨source, hsource, hx⟩ hdeleted
  have htomb : x ∉ o.world.store.tombstones := fun htomb => hdeleted (h.tombstones x htomb)
  refine ⟨htomb, fun p force hidle => ?_⟩
  rw [syncAlone_store hsource hidle]
  split_ifs with hcurrent
  · have hlineage := (h.current source hsource).2 hcurrent.2 x hx
    exact ⟨(h.known x hlineage).resolve_right htomb, htomb⟩
  · have hkept : x ∉ o.world.store.removedBy source.records := fun hremoved =>
      (Collection.mem_removedBy.1 hremoved).2 hx
    refine ⟨Collection.mem_ids_importSnapshot.2 ⟨.inr ⟨htomb, hx⟩, hkept⟩, fun hx' => ?_⟩
    exact (Collection.mem_tombstones_importSnapshot.1 hx').elim htomb hkept

/-- A transaction with an older snapshot loses the row it misses. -/
lemma Synced.not_noneLost {o : Observed μ β π} (h : Synced o) {a : MemoryAct μ β π}
    (hstale : ¬ Covered o a) : ¬ NoneLost (o.step a) := by
  cases a with
  | syncCommit p =>
    simp only [Covered, not_forall, not_or] at hstale
    obtain ⟨fingerprint, records, htask, x, hlineage, hdeleted, hmissing⟩ := hstale
    intro hnone
    have hstep : (o.step (.syncCommit p)).world = { o.world.setTask p .idle with
        store := o.world.store.importSnapshot fingerprint records } := by
      simp only [Observed.step, MemoryWorld.step, htask]
    have hsource : (o.step (.syncCommit p)).world.InSource x := by
      rw [hstep]
      exact h.sourced x hlineage
    have htomb : x ∈ (o.step (.syncCommit p)).world.store.tombstones := by
      rw [hstep]
      exact Collection.mem_tombstones_importSnapshot.2
        (.inr (Collection.mem_removedBy.2 ⟨hlineage, hmissing⟩))
    exact (hnone x hsource hdeleted).1 htomb
  | _ => exact absurd trivial hstale

/-- The older collection has one row, which is read twice and committed twice. -/
def readTwice : List (MemoryAct Unit Nat Bool) :=
  [.syncStart true false, .syncStart false false, .syncLook true, .syncFetch true,
    .syncConfirm true, .syncLook false, .syncFetch false, .syncConfirm false, .syncCommit true,
    .syncCommit false]

end RentCompass.Memory
