import RentCompass.Memory.Remembering

/-!
# What the job of a turn writes

The rows behind an operation of a consolidation, or a supersession, are those before, new ones that
bear the origin of the job, and rewritten ones that keep their origin and take the turn of the job
as their last writer.
-/

namespace RentCompass.Memory

open Rows

variable {β κ δ : Type} (rules : MemoryRules κ δ)

/-! ### Rewriting -/

/-- `str(turn_ref)[:80]`, if a turn is given. -/
def stampTurn (turnRef old : Option Text) : Option Text :=
  ((turnRef.filter (· ≠ [])).map (List.take 80)).or old

@[simp] lemma stampTurn_stampTurn (turnRef old : Option Text) :
    stampTurn turnRef (stampTurn turnRef old) = stampTurn turnRef old := by
  unfold stampTurn
  cases (turnRef.filter (· ≠ [])).map (List.take 80) <;> rfl

/-- The row is an old one that a turn has rewritten. -/
structure Rewritten (turnRef : Option Text) (old row : MemoryRow RowMeta) : Prop where
  id : row.id = old.id
  provenance : row.metadata.toProvenance = old.metadata.toProvenance
  mtype : row.metadata.mtype = old.metadata.mtype
  userId : row.metadata.userId = old.metadata.userId
  updatedTurnId : ∀ uid, old.metadata.userId = some uid → uid ≠ [] →
    row.metadata.updatedTurnId = stampTurn turnRef old.metadata.updatedTurnId

lemma Rewritten.trans {turnRef : Option Text} {old row row' : MemoryRow RowMeta}
    (h : Rewritten turnRef old row) (h' : Rewritten turnRef row row') :
    Rewritten turnRef old row' where
  id := h'.id.trans h.id
  provenance := h'.provenance.trans h.provenance
  mtype := h'.mtype.trans h.mtype
  userId := h'.userId.trans h.userId
  updatedTurnId uid huid hne := by
    rw [h'.updatedTurnId uid (h.userId.trans huid) hne, h.updatedTurnId uid huid hne,
      stampTurn_stampTurn]

variable {rules} in
lemma mem_updateSemantic {c : MemoryStore β} (hids : c.ids.Nodup) {id text : Text}
    {turnRef : Option Text} {now : Text} {row : MemoryRow RowMeta}
    (h : row ∈ (updateSemantic rules c id text turnRef now).1.rows) :
    row ∈ c.rows ∨ ∃ old ∈ c.rows, old.id = id ∧ Rewritten turnRef old row := by
  unfold updateSemantic at h
  by_cases hid : id.Storable
  swap
  · rw [if_pos hid] at h
    exact .inl h
  rw [if_neg (not_not.2 hid)] at h
  cases hhead : (c.get (some [id]) fun _ => true).head? with
  | none =>
    rw [hhead] at h
    exact .inl h
  | some first =>
    rw [hhead] at h
    obtain ⟨hfirst, hfirstid⟩ := mem_get_id.1 (List.mem_of_head? hhead)
    have hmem : id ∈ c.ids := List.mem_map.2 ⟨first, hfirst, hfirstid⟩
    dsimp only at h
    by_cases htext : (rules.redactSecrets text).Storable
    swap
    · rw [if_pos htext] at h
      exact .inl h
    rw [if_neg (not_not.2 htext)] at h
    cases huser : first.metadata.userId.filter (· ≠ []) with
    | none =>
      rw [huser] at h
      dsimp only at h
      rw [rows_update_one hmem] at h
      rcases mem_updateWhere_cases h with ⟨hold, -⟩ | ⟨old, hold, hoid, rfl⟩
      · exact .inl hold
      · refine .inr ⟨old, hold, hoid, rfl, rfl, rfl, rfl, fun uid huid hne => ?_⟩
        obtain rfl : first = old := (show Keyed (·.id) c.rows from hids).eq hfirst hold
          (hfirstid.trans hoid.symm)
        simp [huid, hne] at huser
    | some uid =>
      rw [huser] at h
      dsimp only at h
      rw [rows_update_one hmem] at h
      rcases mem_updateWhere_cases h with ⟨hold, -⟩ | ⟨old, hold, hoid, rfl⟩
      · exact .inl hold
      · obtain rfl : first = old := (show Keyed (·.id) c.rows from hids).eq hfirst hold
          (hfirstid.trans hoid.symm)
        exact .inr ⟨first, hold, hoid, rfl, rfl, rfl, rfl, fun _ _ _ => rfl⟩

/-! ### Effects -/

/-- What is in a store was there, is fresh with a new id, or is an old row of an id that is
rewritten. -/
structure Effect (rewritten : Text → Prop) (turnRef : Option Text)
    (fresh : MemoryRow RowMeta → Prop) (c c' : MemoryStore β) : Prop where
  came : ∀ row ∈ c'.rows, row ∈ c.rows ∨ fresh row ∧ row.id ∉ c.ids ∨
    ∃ old ∈ c.rows, rewritten old.id ∧ Rewritten turnRef old row
  nodup : c'.ids.Nodup

variable {rewritten : Text → Prop} {turnRef : Option Text} {fresh : MemoryRow RowMeta → Prop}

lemma Effect.of_subset {c c' : MemoryStore β} (hids : c'.ids.Nodup)
    (hsub : ∀ row ∈ c'.rows, row ∈ c.rows) : Effect rewritten turnRef fresh c c' :=
  ⟨fun row hrow => .inl (hsub row hrow), hids⟩

lemma Effect.refl {c : MemoryStore β} (hids : c.ids.Nodup) : Effect rewritten turnRef fresh c c :=
  .of_subset hids fun _ hrow => hrow

lemma Effect.mono {rewritten' : Text → Prop} {c c' : MemoryStore β}
    (h : Effect rewritten turnRef fresh c c') (hrewritten : ∀ x, rewritten x → rewritten' x) :
    Effect rewritten' turnRef fresh c c' where
  came row hrow := (h.came row hrow).imp_right fun hcame => hcame.imp_right
    fun ⟨old, hold, hx, hrewrites⟩ => ⟨old, hold, hrewritten _ hx, hrewrites⟩
  nodup := h.nodup

lemma Effect.trans {c c' c'' : MemoryStore β} (h : Effect rewritten turnRef fresh c c')
    (h' : Effect rewritten turnRef fresh c' c'') (hids : ∀ x ∈ c.ids, x ∈ c'.ids)
    (hfresh : ∀ old row, rewritten old.id → fresh old → Rewritten turnRef old row → fresh row) :
    Effect rewritten turnRef fresh c c'' where
  came row hrow := by
    rcases h'.came row hrow with hmid | ⟨hnew, hid⟩ | ⟨mid, hmid, hx, hrewrites⟩
    · exact h.came row hmid
    · exact .inr (.inl ⟨hnew, fun hx => hid (hids _ hx)⟩)
    · rcases h.came mid hmid with hold | ⟨hnew, hid⟩ | ⟨old, hold, hx', hrewrites'⟩
      · exact .inr (.inr ⟨mid, hold, hx, hrewrites⟩)
      · exact .inr (.inl ⟨hfresh mid row hx hnew hrewrites, hrewrites.id ▸ hid⟩)
      · exact .inr (.inr ⟨old, hold, hx', hrewrites'.trans hrewrites⟩)
  nodup := h'.nodup

lemma Effect.updateSemantic {c : MemoryStore β} (hids : c.ids.Nodup) {id : Text}
    (hrewritten : rewritten id) (text now : Text) :
    Effect rewritten turnRef fresh c (updateSemantic rules c id text turnRef now).1 where
  came row hrow := (mem_updateSemantic hids hrow).imp_right fun ⟨old, hold, hid, hrewrites⟩ =>
    .inr ⟨old, hold, hid ▸ hrewritten, hrewrites⟩
  nodup := by
    rw [ids_updateSemantic]
    exact hids

/-- An `_add_record` writes at most the row of the call. -/
lemma Effect.addRecord {c : MemoryStore β} (hids : c.ids.Nodup) {a : AddCall}
    (hfresh : ∀ uid, validUserId a.userId = some uid → fresh ⟨a.row rules uid, .native⟩) :
    Effect rewritten turnRef fresh c (addRecord rules c a).1 := by
  rcases addRecord_cases rules c a with
    ⟨reply, -, h⟩ | ⟨uid, row, -, -, h⟩ | ⟨uid, hvalid, -, hid, h⟩
  · rw [h]
    exact .refl hids
  · rw [h]
    exact .refl hids
  · refine ⟨fun row hrow => ?_, addRecord_nodup rules hids a⟩
    rw [h, rows_add_one hid (a.rowId_ne_nil rules uid)] at hrow
    rcases List.mem_append.1 hrow with hrow | hrow
    · exact .inl hrow
    · rw [List.mem_singleton.1 hrow]
      exact .inr (.inl ⟨hfresh uid hvalid, hid⟩)

lemma addRecord_ids (c : MemoryStore β) (a : AddCall) :
    ∀ x ∈ c.ids, x ∈ (addRecord rules c a).1.ids := by
  intro x hx
  obtain ⟨row, hrow, rfl⟩ := List.mem_map.1 hx
  exact List.mem_map_of_mem (addRecord_kept rules c a row hrow)

/-! ### Consolidation -/

namespace Consolidation

variable {rules} {job : Consolidation}

/-- A row that the job extracts. -/
structure Extracted (job : Consolidation) (row : MemoryRow RowMeta) : Prop where
  userId : row.metadata.userId = some job.userId
  mtype : row.metadata.mtype = some (Text.ofString "semantic")
  provenance : row.metadata.toProvenance = { Provenance.none with
    source := some sourceAuto
    originConversationId := job.conversationId
    originTurnId := job.turnId }
  updatedTurnId : row.metadata.updatedTurnId = none

/-- The id whose row an operation rewrites. -/
def rewrites (rules : MemoryRules κ δ) (job : Consolidation) (known : List (MemoryRow RowMeta)) :
    Op → Option Text
  | .op .update id text => job.touches rules known (.op .update id text)
  | _ => none

lemma ForUser.addFact_effect (h : job.ForUser) {c : MemoryStore β} (hids : c.ids.Nodup)
    (now text : Text) :
    Effect rewritten turnRef job.Extracted c (job.addFact rules c now text).1 := by
  refine .addRecord rules hids fun uid hvalid => ?_
  obtain rfl : job.userId = uid := Option.some.inj (h.symm.trans hvalid)
  exact ⟨rfl, rfl, rfl, rfl⟩

lemma ForUser.addFacts_effect (h : job.ForUser) {c : MemoryStore β} (hids : c.ids.Nodup)
    (now : Text) (texts : List Text) :
    Effect (fun _ => False) turnRef job.Extracted c (job.addFacts rules c now texts).1 := by
  induction texts generalizing c with
  | nil => exact .refl hids
  | cons text texts ih =>
    have hfirst : Effect (fun _ => False) turnRef job.Extracted c
        (job.addFact rules c now text).1 := h.addFact_effect hids now text
    have hkept : ∀ x ∈ c.ids, x ∈ (job.addFact rules c now text).1.ids := addRecord_ids rules c _
    unfold Consolidation.addFacts
    split
    · next c' heq =>
      rw [heq] at hfirst hkept
      exact hfirst.trans (ih hfirst.nodup) hkept fun _ _ => False.elim
    · next c' heq =>
      rw [heq] at hfirst
      exact hfirst

lemma ForUser.change_effect_of_not_passes (h : job.ForUser) {known : List (MemoryRow RowMeta)}
    {update : Bool} {id : OpId} {text : Text} (hnot : ¬ job.Passes rules known update id text)
    {c : MemoryStore β} (hids : c.ids.Nodup) (now : Text) :
    Effect rewritten turnRef job.Extracted c (job.change rules known c now update id text).1 := by
  unfold change
  by_cases hcompound : id = .compound
  · rw [if_pos hcompound]
    exact .refl hids
  rw [if_neg hcompound]
  by_cases hany : ((known.filter (job.shields rules)).any fun row => id.key = some row.id) = true
  · rw [if_pos hany]
    split_ifs
    · exact h.addFact_effect hids now text
    · exact .refl hids
  · rw [if_neg hany]
    cases hkept : job.keptBound rules known update id text with
    | some kind => exact (h.addFacts_effect hids now _).mono fun _ => False.elim
    | none =>
      refine absurd ⟨hcompound, fun row hrow hshields hkey => hany ?_, hkept⟩ hnot
      exact any_shielded.2 ⟨row, hrow, hshields, hkey⟩

/-- An operation adds extracted rows, rewrites the row of its id, or deletes it. -/
lemma ForUser.apply_effect (h : job.ForUser) {known : List (MemoryRow RowMeta)}
    {c : MemoryStore β} (hids : c.ids.Nodup) (now : Text) (op : Op) :
    Effect (job.rewrites rules known op = some ·) job.turnId job.Extracted c
      (job.apply rules known c now op).1 := by
  cases op with
  | malformed => exact .refl hids
  | op event id text =>
    cases event with
    | add =>
      show Effect _ _ _ c
        (if text.strip = [] then (c, true) else job.addFact rules c now text.strip).1
      split_ifs
      · exact .refl hids
      · exact h.addFact_effect hids now _
    | other => exact .refl hids
    | delete =>
      by_cases hpasses : job.Passes rules known false id text.strip
      · have hchange := change_of_passes hpasses c now
        rw [apply, hchange]
        cases hname : id.name with
        | none => exact .refl hids
        | some x =>
          by_cases hx : x.Storable
          · simp only [if_true, if_pos hx]
            have hrows : (deleteRow c x).rows = deleteWhere (·.id = x) c.rows := rows_deleteRow c x
            refine .of_subset ?_ fun row hrow => mem_of_mem_deleteWhere (hrows ▸ hrow)
            rw [Collection.ids, hrows]
            exact (show Keyed (·.id) c.rows from hids).deleteWhere
          · simp only [if_true, if_neg hx]
            exact .refl hids
      · exact h.change_effect_of_not_passes hpasses hids now
    | update =>
      by_cases hpasses : job.Passes rules known true id text.strip
      · have hchange := change_of_passes hpasses c now
        rw [apply, hchange]
        cases hname : id.name with
        | none => exact .refl hids
        | some x =>
          by_cases hempty : text.strip = []
          · simp only [hempty, if_true, Bool.true_eq_false, if_false]
            exact .refl hids
          by_cases hencodable : x.Storable ∧ (rules.redactSecrets text.strip).Storable
          · obtain ⟨hx, htext⟩ := hencodable
            have htouch : job.touches rules known (.op .update id text) = some x := by
              simp [touches, hpasses, hname, hempty, hx, htext]
            have hok := updateSemantic_snd rules c hx htext job.turnId now
            have heffect : Effect (job.rewrites rules known (.op .update id text) = some ·)
                job.turnId job.Extracted c
                (updateSemantic rules c x text.strip job.turnId now).1 :=
              .updateSemantic rules hids htouch text.strip now
            cases hupdate : updateSemantic rules c x text.strip job.turnId now with
            | mk c' ok =>
              rw [hupdate] at hok heffect
              subst hok
              simpa [hempty, hupdate] using heffect
          · have hsame := updateSemantic_of_unencodable rules c job.turnId now hencodable
            cases hupdate : updateSemantic rules c x text.strip job.turnId now with
            | mk c' ok =>
              rw [hupdate] at hsame
              obtain rfl : c' = c := hsame
              cases ok with
              | true => simpa [hempty, hupdate] using Effect.refl hids
              | false => simpa [hempty, hupdate] using h.addFact_effect hids now text.strip
      · exact h.change_effect_of_not_passes hpasses hids now

end Consolidation

/-! ### Supersession -/

/-- The rows that a change of criteria rewrites. -/
def supersededRows (c : MemoryStore β) (changes : κ) (uid : Text) : List (MemoryRow RowMeta) :=
  (c.get none fun row =>
    row.metadata.userId = some uid ∧ row.metadata.mtype = some (Text.ofString "semantic")).filter
    fun row => row.metadata.source = some sourceAuto ∧ rules.criteriaRow row.document ∧
      ((rules.supersededText row.document changes).filter (· ≠ [])).isSome

lemma supersede_effect {c : MemoryStore β} (hids : c.ids.Nodup) (changes : κ) (uid : Text)
    (turnRef : Option Text) (now : Text) :
    Effect (fun x => ∃ row ∈ supersededRows rules c changes uid, row.id = x) turnRef
      (fun _ => False) c (supersedeSlotFacts rules c changes uid turnRef now) := by
  unfold supersedeSlotFacts supersededRows
  generalize (c.get none fun row => row.metadata.userId = some uid ∧
    row.metadata.mtype = some (Text.ofString "semantic")) = snapshot
  set rewritten : Text → Prop := fun x => ∃ row ∈ snapshot.filter fun row =>
      row.metadata.source = some sourceAuto ∧ rules.criteriaRow row.document ∧
        ((rules.supersededText row.document changes).filter (· ≠ [])).isSome, row.id = x
  suffices hfold : ∀ (rows : List (MemoryRow RowMeta)) (c' : MemoryStore β),
      (∀ row ∈ rows, row ∈ snapshot) → c'.ids = c.ids →
      Effect rewritten turnRef (fun _ => False) c c' →
      Effect rewritten turnRef (fun _ => False) c (rows.foldl _ c') from
    hfold snapshot c (fun _ h => h) rfl (.refl hids)
  intro rows
  induction rows with
  | nil => exact fun c' _ _ h => h
  | cons row rows ih =>
    intro c' hrows hsame h
    have hrest : ∀ row ∈ rows, row ∈ snapshot := fun r hr => hrows r (List.mem_cons_of_mem _ hr)
    rw [List.foldl_cons]
    split_ifs with hskip
    · exact ih _ hrest hsame h
    · split
      · next text htext =>
        have hin : rewritten row.id := by
          rw [not_or, not_not, Bool.not_eq_false] at hskip
          refine ⟨row, List.mem_filter.2 ⟨hrows row (List.mem_cons_self ..), ?_⟩, rfl⟩
          simp only [hskip.1, hskip.2, htext, Option.isSome_some, decide_true, and_self]
        refine ih _ hrest ((ids_updateSemantic ..).trans hsame) ?_
        refine h.trans (.updateSemantic rules h.nodup hin text now) (fun x hx => ?_)
          fun _ _ _ => False.elim
        rwa [hsame]
      · exact ih _ hrest hsame h

end RentCompass.Memory
