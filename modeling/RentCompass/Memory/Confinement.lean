import RentCompass.Memory.AgentMemory
import RentCompass.Memory.Tombstones

/-!
# What a consolidation touches

A consolidation rewrites and deletes the rows its operations name. It withholds those the model was
shown and that are protected, and nothing else: an operation may name a row of another user, or an
explicitly saved row that was not among those shown.
-/

namespace RentCompass.Memory

open Rows

variable {β κ δ : Type} (rules : MemoryRules κ δ)

/-! ### Calls of the store -/

lemma AddCall.previous_of_keyless {a : AddCall} (h : a.key = none) (uid : Text)
    (c : MemoryStore β) :
    a.previous rules uid c = (c.withHash uid (contentHash a.mtype uid (a.document rules))).head? := by
  simp [AddCall.previous, h]

/-- What an `add` can do: nothing, or take a row for its own, or write a new one. -/
lemma addRecord_cases (c : MemoryStore β) (a : AddCall) :
    (∃ reply, (reply = .refused ∨ reply = .unencodable) ∧ addRecord rules c a = (c, reply)) ∨
    (∃ uid row, validUserId a.userId = some uid ∧ a.previous rules uid c = some row ∧
      addRecord rules c a = (c, .found row.id)) ∨
    ∃ uid, validUserId a.userId = some uid ∧ a.previous rules uid c = none ∧
      a.rowId rules uid ∉ c.ids ∧
      addRecord rules c a = (c.add [a.row rules uid], .stored (a.rowId rules uid)) := by
  cases hvalid : validUserId a.userId with
  | none => exact .inl ⟨.refused, .inl rfl, by simp [addRecord, hvalid]⟩
  | some uid =>
    by_cases hempty : a.document rules = []
    · exact .inl ⟨.refused, .inl rfl, by simp [addRecord, hvalid, hempty]⟩
    by_cases hstorable : (a.mtype ++ (uid ++ a.document rules)).Storable
    · cases hprevious : a.previous rules uid c with
      | some row =>
        exact .inr (.inl ⟨uid, row, rfl, hprevious, by
          simp [addRecord, hvalid, hempty, hstorable, hprevious]⟩)
      | none =>
        by_cases hkey : (a.key.getD []).Storable
        · by_cases hid : a.rowId rules uid ∈ c.ids
          · exact .inl ⟨.refused, .inl rfl, by
              simp [addRecord, hvalid, hempty, hstorable, hprevious, hkey, hid]⟩
          · exact .inr (.inr ⟨uid, rfl, hprevious, hid, by
              simp [addRecord, hvalid, hempty, hstorable, hprevious, hkey, hid]⟩)
        · exact .inl ⟨.unencodable, .inr rfl, by
            simp [addRecord, hvalid, hempty, hstorable, hprevious, hkey]⟩
    · exact .inl ⟨.unencodable, .inr rfl, by simp [addRecord, hvalid, hempty, hstorable]⟩

/-- A new row at the end. -/
lemma rows_add_one {c : MemoryStore β} {record : MemoryRecord RowMeta} (hid : record.id ∉ c.ids)
    (hne : record.id ≠ []) : (c.add [record]).rows = c.rows ++ [⟨record, .native⟩] := by
  have hvalid : validBatch [record.id] ∧ ∀ id ∈ [record.id], id ∉ c.ids := by
    refine ⟨⟨by simp, by simp, ?_⟩, by simpa using hid⟩
    simpa using hne.symm
  unfold Collection.add
  simp only [List.map_cons, List.map_nil]
  rw [if_pos hvalid]

lemma AddCall.rowId_ne_nil (a : AddCall) (uid : Text) : a.rowId rules uid ≠ [] := by
  unfold AddCall.rowId
  split
  · intro h
    have hnil := (List.append_eq_nil_iff.1 h).1
    cases hnil
  · intro h
    have hnil := (List.append_eq_nil_iff.1 (List.append_eq_nil_iff.1 h).1).2
    cases hnil

/-- The rows of one id. -/
lemma mem_get_id {c : MemoryStore β} {id : Text} {row : MemoryRow RowMeta} :
    row ∈ c.get (some [id]) (fun _ => true) ↔ row ∈ c.rows ∧ row.id = id := by
  simp [Collection.get]

/-- The rows of the other ids are left. -/
lemma rows_deleteRow (c : MemoryStore β) (id : Text) :
    (deleteRow c id).rows = deleteWhere (fun row => row.id = id) c.rows := by
  unfold deleteRow
  cases hids : (c.get (some [id]) fun _ => true).map (·.id) with
  | nil =>
    refine (deleteWhere_eq_self fun row hrow hid => ?_).symm
    have hmem := List.mem_map_of_mem (f := fun row : MemoryRow RowMeta => row.id)
      (mem_get_id.2 ⟨hrow, hid⟩)
    rw [hids] at hmem
    cases hmem
  | cons first rest =>
    have hall : ∀ x, x ∈ first :: rest ↔ x = id ∧ x ∈ c.ids := by
      intro x
      rw [← hids, List.mem_map]
      constructor
      · rintro ⟨row, hrow, rfl⟩
        obtain ⟨hrow, hid⟩ := mem_get_id.1 hrow
        exact ⟨hid, List.mem_map_of_mem hrow⟩
      · rintro ⟨rfl, hx⟩
        obtain ⟨row, hrow, rfl⟩ := List.mem_map.1 hx
        exact ⟨row, mem_get_id.2 ⟨hrow, rfl⟩, rfl⟩
    show deleteWhere _ c.rows = _
    refine List.filter_congr fun row hrow => ?_
    have hrow : row.id ∈ c.ids := List.mem_map_of_mem hrow
    have hiff : row.id ∈ first :: rest ↔ row.id = id := by
      rw [hall]
      exact and_iff_left hrow
    simp [hiff]

lemma rows_update_one {c : MemoryStore β} {u : MemoryUpdate RowMeta} (h : u.id ∈ c.ids) :
    (c.update [u]).rows = updateWhere (fun row => row.id = u.id) (fun row =>
      { row with
        document := u.document.getD row.document
        metadata := u.metadata.getD row.metadata
        origin := .native }) c.rows := by
  unfold Collection.update
  simp only [List.map_cons, List.map_nil]
  rw [if_pos ⟨by simp, by simp⟩, List.foldl_cons, List.foldl_nil, Collection.updateOne, if_pos h]

/-- What a rewriting in place does: every row of the id takes the text and, unless its user is
unknown, the metadata of the first of them, stamped. -/
lemma updateSemantic_cases (c : MemoryStore β) (id text : Text) (turnRef : Option Text)
    (now : Text) :
    (updateSemantic rules c id text turnRef now).1 = c ∧
        (id.Storable → (rules.redactSecrets text).Storable → id ∉ c.ids) ∨
      ∃ row ∈ c.rows, row.id = id ∧ ∃ metadata : Option RowMeta,
        (updateSemantic rules c id text turnRef now).1.rows =
          updateWhere (fun row => row.id = id) (fun row =>
            { row with
              document := rules.redactSecrets text
              metadata := metadata.getD row.metadata
              origin := .native }) c.rows ∧
        (∀ uid, row.metadata.userId = some uid → uid ≠ [] → metadata ≠ none) ∧
        ∀ m ∈ metadata, m.userId = row.metadata.userId ∧ m.source = row.metadata.source ∧
          m.updatedAt = some now := by
  by_cases hid : id.Storable
  swap
  · rw [updateSemantic, if_pos hid]
    exact .inl ⟨rfl, fun h => absurd h hid⟩
  rw [updateSemantic, if_neg (not_not.2 hid)]
  cases hhead : (c.get (some [id]) fun _ => true).head? with
  | none =>
    refine .inl ⟨rfl, fun _ _ hmem => ?_⟩
    obtain ⟨row, hrow, hrowid⟩ := List.mem_map.1 hmem
    have hget := mem_get_id.2 ⟨hrow, hrowid⟩
    rw [List.head?_eq_none_iff.1 hhead] at hget
    cases hget
  | some row =>
    obtain ⟨hrow, hrowid⟩ := mem_get_id.1 (List.mem_of_head? hhead)
    have hmem : id ∈ c.ids := List.mem_map.2 ⟨row, hrow, hrowid⟩
    dsimp only
    by_cases htext : (rules.redactSecrets text).Storable
    swap
    · rw [if_pos htext]
      exact .inl ⟨rfl, fun _ h => absurd h htext⟩
    rw [if_neg (not_not.2 htext)]
    cases huser : row.metadata.userId.filter (· ≠ []) with
    | none =>
      refine .inr ⟨row, hrow, hrowid, none, rows_update_one hmem, fun uid huid hne => ?_, ?_⟩
      · simp [huid, hne] at huser
      · simp
    | some uid =>
      refine .inr ⟨row, hrow, hrowid, some _, rows_update_one hmem, by simp, ?_⟩
      intro m hm
      obtain rfl := Option.mem_some.1 hm
      exact ⟨rfl, rfl, rfl⟩

/-! ### Rows that are not the job's to touch -/

/-- A row of another user, or an explicitly saved one of this user. -/
def NotAutomatic (user : Text) (row : MemoryRow RowMeta) : Prop :=
  ∃ uid, row.metadata.userId = some uid ∧ uid ≠ [] ∧
    (uid ≠ user ∨ row.metadata.source = some sourceExplicit)

/-- A kind of rows, told by their user and their source, to which no row belongs that is extracted
for the user. -/
structure Foreign (user : Text) (P : MemoryRow RowMeta → Prop) : Prop where
  congr : ∀ {row row' : MemoryRow RowMeta}, P row → row.metadata.userId = row'.metadata.userId →
    row.metadata.source = row'.metadata.source → P row'
  auto : ∀ {row : MemoryRow RowMeta}, row.metadata.userId = some user →
    row.metadata.source ≠ some sourceExplicit → ¬ P row
  owned : ∀ {row : MemoryRow RowMeta}, P row → ∃ uid, row.metadata.userId = some uid ∧ uid ≠ []

lemma notAutomatic_foreign (user : Text) : Foreign user (NotAutomatic user) where
  congr := by
    rintro row row' ⟨uid, huid, hne, hother⟩ huser hsource
    exact ⟨uid, huser ▸ huid, hne, hsource ▸ hother⟩
  auto := by
    rintro row huser hsource ⟨uid, huid, -, hother | hexplicit⟩
    · exact hother (Option.some.inj (huid.symm.trans huser))
    · exact hsource hexplicit
  owned := by
    rintro row ⟨uid, huid, hne, -⟩
    exact ⟨uid, huid, hne⟩

/-- The two stores hold the same rows of a kind. -/
def SameRows (P : MemoryRow RowMeta → Prop) (c c' : MemoryStore β) : Prop :=
  ∀ row, P row → (row ∈ c.rows ↔ row ∈ c'.rows)

lemma auto_ne_explicit : sourceAuto ≠ sourceExplicit := by decide

/-- The rows of `c` and the new ones, all extracted for the user. -/
structure Adds (user : Text) (c c' : MemoryStore β) : Prop where
  kept : ∀ row ∈ c.rows, row ∈ c'.rows
  new : ∀ row ∈ c'.rows, row ∈ c.rows ∨
    row.metadata.userId = some user ∧ row.metadata.source ≠ some sourceExplicit
  ids : c.ids.Nodup → c'.ids.Nodup

lemma Adds.refl (user : Text) (c : MemoryStore β) : Adds user c c :=
  ⟨fun _ h => h, fun _ h => .inl h, fun h => h⟩

lemma Adds.trans {user : Text} {c c' c'' : MemoryStore β} (h : Adds user c c')
    (h' : Adds user c' c'') : Adds user c c'' where
  kept row hrow := h'.kept row (h.kept row hrow)
  new row hrow := (h'.new row hrow).elim (h.new row) .inr
  ids hnodup := h'.ids (h.ids hnodup)

lemma addRecord_adds (c : MemoryStore β) {a : AddCall}
    (hsource : a.extraMeta.source ≠ some sourceExplicit) {user : Text}
    (huser : validUserId a.userId = some user) : Adds user c (addRecord rules c a).1 := by
  rcases addRecord_cases rules c a with
    ⟨reply, -, h⟩ | ⟨uid, row, -, -, h⟩ | ⟨uid, hvalid, -, hid, h⟩
  · rw [h]
    exact .refl user c
  · rw [h]
    exact .refl user c
  · obtain rfl : uid = user := Option.some.inj (hvalid.symm.trans huser)
    have hrows : (c.add [a.row rules uid]).rows = c.rows ++ [⟨a.row rules uid, .native⟩] :=
      rows_add_one hid (a.rowId_ne_nil rules uid)
    rw [h]
    refine ⟨fun row hrow => ?_, fun row hrow => ?_, fun hnodup => ?_⟩
    · rw [hrows]
      exact List.mem_append_left _ hrow
    · rw [hrows] at hrow
      rcases List.mem_append.1 hrow with hrow | hrow
      · exact .inl hrow
      · right
        rw [List.mem_singleton.1 hrow]
        exact ⟨rfl, hsource⟩
    · rw [Collection.ids, hrows, List.map_append, List.map_cons, List.map_nil, List.nodup_append]
      refine ⟨hnodup, List.nodup_singleton _, fun x hx y hy => ?_⟩
      rw [List.mem_singleton.1 hy]
      rintro rfl
      exact hid hx

variable {user : Text} {P : MemoryRow RowMeta → Prop}

lemma Adds.sameRows {c c' : MemoryStore β} (h : Adds user c c') (hP : Foreign user P) :
    SameRows P c c' := fun row hrow =>
  ⟨h.kept row, fun hmem => (h.new row hmem).resolve_right fun hnew => hP.auto hnew.1 hnew.2 hrow⟩

/-- Where no row of the kind is of the id, a rewriting leaves them all. -/
lemma updateSemantic_sameRows (hP : Foreign user P) {c : MemoryStore β} {id : Text}
    (hfree : ∀ row ∈ c.rows, P row → row.id ≠ id) (text : Text)
    (turnRef : Option Text) (now : Text) :
    SameRows P c (updateSemantic rules c id text turnRef now).1 := by
  rcases updateSemantic_cases rules c id text turnRef now with
    ⟨heq, -⟩ | ⟨first, hfirst, hid, metadata, hrows, -, hmeta⟩
  · rw [heq]
    exact fun _ _ => Iff.rfl
  · intro row hrow
    rw [hrows]
    refine ⟨fun hmem => mem_updateWhere_of_not hmem (hfree row hmem hrow), fun hmem => ?_⟩
    rcases mem_updateWhere_cases hmem with ⟨hmem, -⟩ | ⟨old, hold, hoid, rfl⟩
    · exact hmem
    · -- a rewritten row of the kind would have been one before
      exfalso
      cases metadata with
      | none => exact hfree old hold (hP.congr hrow rfl rfl) hoid
      | some m =>
        obtain ⟨huser, hsource, -⟩ := hmeta m rfl
        exact hfree first hfirst (hP.congr hrow huser hsource) hid

lemma ids_updateSemantic (c : MemoryStore β) (id text : Text) (turnRef : Option Text)
    (now : Text) : (updateSemantic rules c id text turnRef now).1.ids = c.ids := by
  rcases updateSemantic_cases rules c id text turnRef now with
    ⟨heq, -⟩ | ⟨first, hfirst, hfirstid, metadata, hrows, -, -⟩
  · rw [heq]
  · rw [Collection.ids, hrows, Collection.ids, updateWhere, List.map_map]
    refine List.map_congr_left fun row _ => ?_
    by_cases hrow : row.id = id
    · simp [hrow]
    · simp [hrow]

/-- A rewriting that can be encoded succeeds. -/
lemma updateSemantic_snd (c : MemoryStore β) {id text : Text} (hid : id.Storable)
    (htext : (rules.redactSecrets text).Storable) (turnRef : Option Text) (now : Text) :
    (updateSemantic rules c id text turnRef now).2 = true := by
  unfold updateSemantic
  rw [if_neg (not_not.2 hid)]
  cases (c.get (some [id]) fun _ => true).head? with
  | none => rfl
  | some row =>
    dsimp only
    rw [if_neg (not_not.2 htext)]
    cases row.metadata.userId.filter (· ≠ []) with
    | none => rfl
    | some uid => rfl

/-- A rewriting of an id that cannot be encoded, or with a text that cannot, changes no row. -/
lemma updateSemantic_of_unencodable (c : MemoryStore β) {id text : Text} (turnRef : Option Text)
    (now : Text) (h : ¬ (id.Storable ∧ (rules.redactSecrets text).Storable)) :
    (updateSemantic rules c id text turnRef now).1 = c := by
  unfold updateSemantic
  by_cases hid : id.Storable
  · have htext : ¬ (rules.redactSecrets text).Storable := fun ht => h ⟨hid, ht⟩
    rw [if_neg (not_not.2 hid)]
    cases (c.get (some [id]) fun _ => true).head? with
    | none => rfl
    | some row =>
      dsimp only
      rw [if_pos htext]
  · rw [if_pos hid]

namespace Consolidation

variable {rules} {job : Consolidation}

/-- The job runs for a user: `remember_turn` has normalised the id. -/
def ForUser (job : Consolidation) : Prop := validUserId (some job.userId) = some job.userId

lemma ForUser.addFact (h : job.ForUser) (c : MemoryStore β) (now text : Text) :
    Adds job.userId c (job.addFact rules c now text).1 :=
  addRecord_adds rules c (fun heq => auto_ne_explicit (Option.some.inj heq)) h

lemma ForUser.addFacts (h : job.ForUser) (c : MemoryStore β) (now : Text) (texts : List Text) :
    Adds job.userId c (job.addFacts rules c now texts).1 := by
  induction texts generalizing c with
  | nil => exact .refl _ c
  | cons text texts ih =>
    have hfirst : Adds job.userId c (job.addFact rules c now text).1 := h.addFact c now text
    unfold Consolidation.addFacts
    split
    · next c' heq =>
      rw [heq] at hfirst
      exact hfirst.trans (ih c')
    · next c' heq =>
      rw [heq] at hfirst
      exact hfirst

/-- An `UPDATE` or a `DELETE` that is withheld neither for a protected row nor for a bound. -/
def Passes (rules : MemoryRules κ δ) (job : Consolidation) (known : List (MemoryRow RowMeta))
    (update : Bool) (id : OpId) (text : Text) : Prop :=
  id ≠ .compound ∧ (∀ row ∈ known, job.shields rules row → id.key ≠ some row.id) ∧
    job.keptBound rules known update id text = none

instance (known : List (MemoryRow RowMeta)) (update : Bool) (id : OpId) (text : Text) :
    Decidable (job.Passes rules known update id text) := inferInstanceAs (Decidable (_ ∧ _ ∧ _))

/-- The id whose rows an operation rewrites or deletes. -/
def touches (rules : MemoryRules κ δ) (job : Consolidation) (known : List (MemoryRow RowMeta)) :
    Op → Option Text
  | .op .update id text =>
    if job.Passes rules known true id text.strip ∧ text.strip ≠ [] ∧
        (rules.redactSecrets text.strip).Storable then id.name.filter (·.Storable) else none
  | .op .delete id text =>
    if job.Passes rules known false id text.strip then id.name.filter (·.Storable) else none
  | _ => none

lemma any_shielded {known : List (MemoryRow RowMeta)} {id : OpId} :
    ((known.filter (job.shields rules)).any fun row => id.key = some row.id) = true ↔
      ∃ row ∈ known, job.shields rules row ∧ id.key = some row.id := by
  simp [List.any_eq_true]

lemma change_of_passes {known : List (MemoryRow RowMeta)} {update : Bool} {id : OpId} {text : Text}
    (h : job.Passes rules known update id text) (c : MemoryStore β) (now : Text) :
    job.change rules known c now update id text =
      match id.name with
      | none => (c, true)
      | some id =>
        if update = false then (if id.Storable then deleteRow c id else c, true)
        else if text = [] then (c, true)
        else
          match updateSemantic rules c id text job.turnId now with
          | (c', true) => (c', true)
          | (c', false) => job.addFact rules c' now text := by
  obtain ⟨hcompound, hshield, hkept⟩ := h
  have hany : ¬ ((known.filter (job.shields rules)).any fun row => id.key = some row.id) = true := by
    rw [any_shielded]
    rintro ⟨row, hrow, hshields, hkey⟩
    exact hshield row hrow hshields hkey
  rw [change, if_neg hcompound, if_neg hany, hkept]
  all_goals rfl

/-- What is withheld adds at most. -/
lemma ForUser.change_of_not_passes (h : job.ForUser) {known : List (MemoryRow RowMeta)}
    {update : Bool} {id : OpId} {text : Text} (hnot : ¬ job.Passes rules known update id text)
    (c : MemoryStore β) (now : Text) :
    Adds job.userId c (job.change rules known c now update id text).1 := by
  unfold change
  by_cases hcompound : id = .compound
  · rw [if_pos hcompound]
    exact .refl _ c
  rw [if_neg hcompound]
  by_cases hany : ((known.filter (job.shields rules)).any fun row => id.key = some row.id) = true
  · rw [if_pos hany]
    split_ifs
    · exact h.addFact c now text
    · exact .refl _ c
  · rw [if_neg hany]
    cases hkept : job.keptBound rules known update id text with
    | some kind => exact h.addFacts c now _
    | none =>
      refine absurd ⟨hcompound, fun row hrow hshields hkey => hany ?_, hkept⟩ hnot
      exact any_shielded.2 ⟨row, hrow, hshields, hkey⟩

lemma ForUser.update_cases (h : job.ForUser) {known : List (MemoryRow RowMeta)} {id : OpId}
    {text : Text} (hpasses : job.Passes rules known true id text.strip) (c : MemoryStore β)
    (now : Text) :
    job.touches rules known (.op .update id text) = none ∧
        Adds job.userId c (job.apply rules known c now (.op .update id text)).1 ∨
    ∃ x, job.touches rules known (.op .update id text) = some x ∧ x.Storable ∧
      ((job.apply rules known c now (.op .update id text)).1 = deleteRow c x ∨
        ∃ new, (rules.redactSecrets new).Storable ∧
          (job.apply rules known c now (.op .update id text)).1 =
            (updateSemantic rules c x new job.turnId now).1) := by
  have hchange := change_of_passes hpasses c now
  rw [apply, hchange, touches]
  cases hname : id.name with
  | none => exact .inl ⟨by simp, .refl _ c⟩
  | some x =>
    by_cases hempty : text.strip = []
    · exact .inl ⟨by simp [hempty], by simpa [hempty] using .refl _ c⟩
    by_cases hencodable : x.Storable ∧ (rules.redactSecrets text.strip).Storable
    · obtain ⟨hid, htext⟩ := hencodable
      have hok := updateSemantic_snd rules c hid htext job.turnId now
      refine .inr ⟨x, by simp [hpasses, hempty, hid, htext], hid, .inr ⟨text.strip, htext, ?_⟩⟩
      cases hupdate : updateSemantic rules c x text.strip job.turnId now with
      | mk c' ok =>
        rw [hupdate] at hok
        subst hok
        simp [hempty, hupdate]
    · have hsame := updateSemantic_of_unencodable rules c job.turnId now hencodable
      refine .inl ⟨?_, ?_⟩
      · rw [not_and] at hencodable
        by_cases hid : x.Storable
        · simp [hencodable hid]
        · simp [hid]
      · cases hupdate : updateSemantic rules c x text.strip job.turnId now with
        | mk c' ok =>
          rw [hupdate] at hsame
          obtain rfl : c' = c := hsame
          cases ok with
          | true => simpa [hempty, hupdate] using .refl _ c'
          | false => simpa [hempty, hupdate] using h.addFact c' now text.strip

/-- What an operation does: it adds rows of the user, or it rewrites or deletes the rows of the id
it touches. -/
lemma ForUser.apply_cases (h : job.ForUser) (known : List (MemoryRow RowMeta))
    (c : MemoryStore β) (now : Text) (op : Op) :
    job.touches rules known op = none ∧ Adds job.userId c (job.apply rules known c now op).1 ∨
    ∃ id, job.touches rules known op = some id ∧ id.Storable ∧
      ((job.apply rules known c now op).1 = deleteRow c id ∨
        ∃ text, (rules.redactSecrets text).Storable ∧
          (job.apply rules known c now op).1 =
            (updateSemantic rules c id text job.turnId now).1) := by
  cases op with
  | malformed => exact .inl ⟨rfl, .refl _ c⟩
  | op event id text =>
    cases event with
    | add =>
      refine .inl ⟨rfl, ?_⟩
      show Adds _ c (if text.strip = [] then (c, true) else job.addFact rules c now text.strip).1
      split_ifs
      · exact .refl _ c
      · exact h.addFact c now _
    | other => exact .inl ⟨rfl, .refl _ c⟩
    | delete =>
      by_cases hpasses : job.Passes rules known false id text.strip
      · have hchange := change_of_passes hpasses c now
        rw [touches, if_pos hpasses, apply, hchange]
        cases hname : id.name with
        | none => exact .inl ⟨rfl, .refl _ c⟩
        | some id =>
          by_cases hid : id.Storable
          · exact .inr ⟨id, by simp [hid], hid, .inl (by simp [hid])⟩
          · refine .inl ⟨by simp [hid], ?_⟩
            simp only [if_true, if_neg hid]
            exact .refl _ c
      · refine .inl ⟨by rw [touches, if_neg hpasses], h.change_of_not_passes hpasses c now⟩
    | update =>
      by_cases hpasses : job.Passes rules known true id text.strip
      · exact h.update_cases hpasses c now
      · refine .inl ⟨?_, h.change_of_not_passes hpasses c now⟩
        rw [touches, if_neg fun hall => hpasses hall.1]

/-! ### One operation -/

variable (hP : Foreign job.userId P)
include hP

lemma ForUser.apply_sameRows (h : job.ForUser) {known : List (MemoryRow RowMeta)}
    {c : MemoryStore β} {op : Op}
    (hfree : ∀ id ∈ job.touches rules known op, ∀ row ∈ c.rows, P row → row.id ≠ id)
    (now : Text) : SameRows P c (job.apply rules known c now op).1 := by
  rcases h.apply_cases known c now op with ⟨-, hadds⟩ | ⟨id, htouch, -, hdelete | ⟨text, -, hupdate⟩⟩
  · exact hadds.sameRows hP
  · intro row hrow
    rw [hdelete, rows_deleteRow, mem_deleteWhere]
    exact ⟨fun hmem => ⟨hmem, hfree id htouch row hmem hrow⟩, And.left⟩
  · rw [hupdate]
    exact updateSemantic_sameRows rules hP (hfree id htouch) text job.turnId now

/-- A row of the kind that an operation did not stamp was there before, under another id than the
one it touched. -/
lemma ForUser.apply_survivor (h : job.ForUser) {known : List (MemoryRow RowMeta)}
    {c : MemoryStore β} (hids : c.ids.Nodup) {now : Text} {op : Op} {row : MemoryRow RowMeta}
    (hrow : P row) (hstamp : row.metadata.updatedAt ≠ some now)
    (hmem : row ∈ (job.apply rules known c now op).1.rows) :
    row ∈ c.rows ∧ ∀ id ∈ job.touches rules known op, row.id ≠ id := by
  rcases h.apply_cases known c now op with
    ⟨hnone, hadds⟩ | ⟨id, htouch, hid, hdelete | ⟨text, htext, hupdate⟩⟩
  · refine ⟨(hadds.sameRows hP row hrow).2 hmem, fun id hid => ?_⟩
    rw [hnone] at hid
    cases hid
  · rw [hdelete, rows_deleteRow, mem_deleteWhere] at hmem
    refine ⟨hmem.1, fun id' hid' => ?_⟩
    obtain rfl : id = id' := Option.some.inj (htouch.symm.trans hid')
    exact hmem.2
  · have htouched : ∀ id' ∈ job.touches rules known op, id = id' := fun id' hid' =>
      Option.some.inj (htouch.symm.trans hid')
    rw [hupdate] at hmem
    rcases updateSemantic_cases rules c id text job.turnId now with
      ⟨heq, hnorow⟩ | ⟨first, hfirst, hfirstid, metadata, hrows, hsome, hmeta⟩
    · rw [heq] at hmem
      refine ⟨hmem, fun id' hid' heq' => hnorow hid htext ?_⟩
      rw [htouched id' hid', ← heq']
      exact List.mem_map_of_mem hmem
    · rw [hrows] at hmem
      rcases mem_updateWhere_cases hmem with ⟨hmem, hne⟩ | ⟨old, hold, hoid, rfl⟩
      · exact ⟨hmem, fun id' hid' => htouched id' hid' ▸ hne⟩
      · -- the row would bear the stamp
        exfalso
        obtain rfl : first = old := (show Keyed (·.id) c.rows from hids).eq hfirst hold
          (hfirstid.trans hoid.symm)
        cases hm : metadata with
        | none =>
          rw [hm] at hrow
          obtain ⟨uid, huid, hne⟩ := hP.owned hrow
          exact hsome uid huid hne hm
        | some m =>
          rw [hm] at hstamp
          exact hstamp (hmeta m hm).2.2

omit hP in
lemma ForUser.apply_nodup (h : job.ForUser) (known : List (MemoryRow RowMeta))
    {c : MemoryStore β} (hids : c.ids.Nodup) (now : Text) (op : Op) :
    (job.apply rules known c now op).1.ids.Nodup := by
  rcases h.apply_cases known c now op with ⟨-, hadds⟩ | ⟨id, -, -, hdelete | ⟨text, -, hupdate⟩⟩
  · exact hadds.ids hids
  · rw [hdelete, Collection.ids, rows_deleteRow]
    exact (show Keyed (·.id) c.rows from hids).deleteWhere
  · rw [hupdate, ids_updateSemantic]
    exact hids

/-! ### The loop -/

/-- The operations the loop comes to. -/
def met (rules : MemoryRules κ δ) (job : Consolidation) (known : List (MemoryRow RowMeta))
    (c : MemoryStore β) : List (Text × Op) → List Op
  | [] => []
  | (now, op) :: ops =>
    op :: match job.apply rules known c now op with
      | (c', true) => met rules job known c' ops
      | (_, false) => []

omit hP in
lemma mem_of_mem_met {known : List (MemoryRow RowMeta)} {ops : List (Text × Op)}
    {c : MemoryStore β} {op : Op} (h : op ∈ job.met rules known c ops) :
    ∃ now, (now, op) ∈ ops := by
  induction ops generalizing c with
  | nil => cases h
  | cons first ops ih =>
    rcases List.mem_cons.1 h with rfl | h
    · exact ⟨first.1, List.mem_cons_self ..⟩
    · split at h
      · obtain ⟨now, hmem⟩ := ih h
        exact ⟨now, List.mem_cons_of_mem _ hmem⟩
      · cases h

lemma ForUser.loop_sameRows (h : job.ForUser) {known : List (MemoryRow RowMeta)}
    {ops : List (Text × Op)} {c : MemoryStore β}
    (hfree : ∀ op ∈ job.met rules known c ops, ∀ id ∈ job.touches rules known op, ∀ row ∈ c.rows,
      P row → row.id ≠ id) :
    SameRows P c (job.loop rules known c ops) := by
  induction ops generalizing c with
  | nil => exact fun _ _ => Iff.rfl
  | cons first ops ih =>
    obtain ⟨now, op⟩ := first
    have hstep := h.apply_sameRows hP (hfree op (List.mem_cons_self ..)) now
    unfold loop
    rw [met] at hfree
    cases happly : job.apply rules known c now op with
    | mk c' goesOn =>
      rw [happly] at hstep hfree
      cases goesOn with
      | false => exact hstep
      | true =>
        have hrest := ih (c := c') fun op' hop' id hid row hmem hrow =>
          hfree op' (List.mem_cons_of_mem _ hop') id hid row ((hstep row hrow).2 hmem) hrow
        exact fun row hrow => (hstep row hrow).trans (hrest row hrow)

lemma ForUser.loop_survivor (h : job.ForUser) {known : List (MemoryRow RowMeta)}
    {ops : List (Text × Op)} {c : MemoryStore β} (hids : c.ids.Nodup) {row : MemoryRow RowMeta}
    (hrow : P row) (hstamp : ∀ o ∈ ops, row.metadata.updatedAt ≠ some o.1)
    (hmem : row ∈ (job.loop rules known c ops).rows) :
    row ∈ c.rows ∧ ∀ op ∈ job.met rules known c ops, ∀ id ∈ job.touches rules known op,
      row.id ≠ id := by
  induction ops generalizing c with
  | nil => exact ⟨hmem, fun op hop => by cases hop⟩
  | cons first ops ih =>
    obtain ⟨now, op⟩ := first
    have hfresh : row.metadata.updatedAt ≠ some now := hstamp (now, op) (List.mem_cons_self ..)
    have hsurvives (hlater : row ∈ (job.apply rules known c now op).1.rows) :=
      h.apply_survivor hP hids hrow hfresh hlater
    have hnodup : (job.apply rules known c now op).1.ids.Nodup := h.apply_nodup known hids now op
    unfold loop at hmem
    rw [met]
    cases happly : job.apply rules known c now op with
    | mk c' goesOn =>
      rw [happly] at hsurvives hnodup hmem
      cases goesOn with
      | false =>
        obtain ⟨hold, hfree⟩ := hsurvives hmem
        exact ⟨hold, by simpa using hfree⟩
      | true =>
        obtain ⟨hlater, hrest⟩ := ih hnodup (fun o ho => hstamp o (List.mem_cons_of_mem _ ho)) hmem
        obtain ⟨hold, hfree⟩ := hsurvives hlater
        refine ⟨hold, fun op' hop' => ?_⟩
        rcases List.mem_cons.1 hop' with rfl | hop'
        · exact hfree
        · exact hrest op' hop'

end Consolidation

variable [LinearOrder δ]

/-- No operation the loop comes to touches the id of a row of a kind. -/
def Consolidation.Spares (rules : MemoryRules κ δ) (job : Consolidation)
    (P : MemoryRow RowMeta → Prop) (c : MemoryStore β) : Prop :=
  job.kept rules ≠ [] → let known := job.retrieved rules c
    ∀ op ∈ job.met rules known c job.ops, ∀ id ∈ job.touches rules known op, ∀ row ∈ c.rows,
      P row → row.id ≠ id

lemma consolidate_sameRows {job : Consolidation} (h : job.ForUser) (hP : Foreign job.userId P)
    {c : MemoryStore β} (hspares : job.Spares rules P c) :
    SameRows P c (consolidate rules job c) := by
  unfold consolidate
  split_ifs with hkept
  · exact fun _ _ => Iff.rfl
  · exact h.loop_sameRows hP (hspares hkept)

/-- A consolidation leaves the rows of the other users and the explicitly saved ones if no operation
the loop comes to touches the id of such a row; and, unless such a row already bears the time of
an operation, only then. -/
theorem consolidate_confined (job : Consolidation) (h : job.ForUser) (c : MemoryStore β)
    (hids : c.ids.Nodup) :
    (job.Spares rules (NotAutomatic job.userId) c →
      SameRows (NotAutomatic job.userId) c (consolidate rules job c)) ∧
    ((∀ row ∈ c.rows, NotAutomatic job.userId row → ∀ o ∈ job.ops,
        row.metadata.updatedAt ≠ some o.1) →
      SameRows (NotAutomatic job.userId) c (consolidate rules job c) →
        job.Spares rules (NotAutomatic job.userId) c) := by
  refine ⟨consolidate_sameRows rules h (notAutomatic_foreign _), fun hstamp hsame hkept => ?_⟩
  rw [consolidate, if_neg hkept] at hsame
  intro known op hop id hid row hmem hrow
  exact (h.loop_survivor (notAutomatic_foreign _) hids hrow (hstamp row hmem hrow)
    ((hsame row hrow).1 hmem)).2 op hop id hid

/-- Rules for texts with no secret, no bound and no instruction in them. -/
def plainRules : MemoryRules Unit Nat where
  redactSecrets text := text
  classifyPii _ := []
  rateImportance _ := 5
  instructionShaped _ := false
  criteriaRow _ := false
  rowBounds _ _ := none
  softBound _ := false
  firmBoundStated _ _ _ := false
  supersededText _ _ := none
  statesFieldValue _ _ _ := false
  withoutFieldClauses text _ := text
  erasureRequestFields _ := []
  distance _ _ := 0

/-- A row as `add` writes it. -/
def savedRow (id document uid mtype source : Text) : MemoryRow RowMeta where
  id := id
  document := document
  metadata :=
    { Provenance.none with
      source := some source
      mtype := some mtype
      sessionId := "default"
      userId := some uid
      role := []
      importance := 7
      createdAt := "2026-01-01T00:00:00"
      lastAccess := "2026-01-01T00:00:00"
      hash := none
      piiCategories := []
      idempotencyKey := none
      updatedAt := none
      updatedTurnId := none }
  origin := .native

/-- A note Alice asked to be remembered, among her episodic rows, and a row of Bob. -/
def twoUsers : MemoryStore Unit :=
  ⟨[savedRow "note" "my flatmate is allergic to dust" "alice" "episodic" sourceExplicit,
    savedRow "row" "wants a garden" "bob" "semantic" sourceAuto], [], [], none⟩

/-- A job of Alice, with these operations. -/
def aliceJob (ops : List (Text × Op)) : Consolidation where
  facts := ["the user has a cat"]
  sessionId := "default"
  userId := "alice"
  changed := false
  userMsg := "I have a cat"
  turnId := none
  conversationId := none
  lookupFails := false
  ops := ops

/-- A job that only adds. -/
def addingJob : Consolidation :=
  aliceJob [("2026-01-02T00:00:00", .op .add (.scalar none) "the user has a cat")]

lemma addingJob_spares (P : MemoryRow RowMeta → Prop) (c : MemoryStore β) :
    addingJob.Spares plainRules P c := by
  intro _ known op hop id hid
  obtain ⟨now, hmem⟩ := Consolidation.mem_of_mem_met hop
  obtain rfl : op = .op .add (.scalar none) "the user has a cat" :=
    (Prod.ext_iff.1 (List.mem_singleton.1 hmem)).2
  cases hid

theorem consolidate_confined_adding :
    SameRows (NotAutomatic "alice") twoUsers (consolidate plainRules addingJob twoUsers) :=
  (consolidate_confined plainRules addingJob (by unfold Consolidation.ForUser; decide) twoUsers
    (by decide)).1 (addingJob_spares _ _)

/-- The operations name a row of another user, and a saved row the model was not shown. -/
theorem consolidation_deletes_others :
    ¬ ∀ (job : Consolidation) (c : MemoryStore Unit), job.ForUser → c.ids.Nodup →
      SameRows (NotAutomatic job.userId) c (consolidate plainRules job c) := by
  intro h
  have hsame := h (aliceJob [("2026-01-02T00:00:00", .op .delete (.text "note") []),
    ("2026-01-02T00:00:00", .op .delete (.text "row") [])]) twoUsers
    (by unfold Consolidation.ForUser; decide) (by decide)
  have hrow := (hsame (savedRow "row" "wants a garden" "bob" "semantic" sourceAuto)
    ⟨"bob", rfl, by decide, .inl (by decide)⟩).1 (by decide)
  revert hrow
  decide +kernel

end RentCompass.Memory
