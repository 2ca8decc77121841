import RentCompass.Memory.TurnWrites

/-!
# Jobs of turns and their retirement

A job of a turn marks the rows it writes. The rows that carry a turn as their first writer, or their
last, are those that its retirement removes.
-/

namespace RentCompass.Memory

open Rows

variable {β κ δ : Type} (rules : MemoryRules κ δ) (user conversation : Text) (edit : List Text)

/-! ### Jobs -/

/-- What a turn is asked to extract, and what the model answers. -/
structure Extraction where
  facts : List Text
  lookupFails : Bool
  ops : List (Text × Op)

/-- A call of `remember_turn`, with what it reads off the messages and what the models answer. The
turn asks for erasures and for nothing else to be kept where it has opted out. -/
structure TurnJob (κ : Type) where
  sessionId : Text
  conversationId : Option Text
  turnId : Option Text
  turnStartedAt : Option Text
  idempotencyKey : Option Text
  userMsg : Text
  erased : List Field
  log : Text
  changes : Option κ
  extraction : Option Extraction
  insights : List Text
  now : Text

/-- Where a call of `remember_turn` is. -/
inductive TurnPhase where
  | entering
  | logging
  | writing
  | superseding
  | checking
  | extracting
  /-- The rows the model was shown, and the operations that are left. -/
  | applying (known : List (MemoryRow RowMeta)) (ops : List (Text × Op))
  | sweeping
  | reflecting
  | inferring
  deriving DecidableEq

/-- The job may have written, and has not swept yet. -/
def TurnPhase.Late : TurnPhase → Prop
  | .superseding | .checking | .extracting | .applying _ _ | .sweeping => True
  | _ => False

namespace TurnJob

variable (job : TurnJob κ)

/-- The "User asked: …" record. -/
def logCall : AddCall where
  text := job.log
  mtype := "episodic"
  sessionId := job.sessionId
  userId := some user
  role := "user"
  importance := some 5
  idempotencyKey := job.idempotencyKey
  extraMeta := { Provenance.none with
    conversationId := job.conversationId
    turnId := job.turnId
    turnStartedAt := job.turnStartedAt }
  now := job.now

def insightCall (insight : Text) : AddCall where
  text := insight
  mtype := "reflection"
  sessionId := job.sessionId
  userId := some user
  role := []
  importance := some 8
  idempotencyKey := none
  extraMeta := { Provenance.none with
    originConversationId := job.conversationId
    originTurnId := job.turnId }
  now := job.now

/-- The `add` of each insight, until one raises. -/
def addInsights (c : MemoryStore β) : List Text → MemoryStore β
  | [] => c
  | insight :: insights =>
    let r := addRecord rules c (job.insightCall user insight)
    if r.2 = .unencodable then r.1 else addInsights r.1 insights

def consolidation (extraction : Extraction) : Consolidation where
  facts := extraction.facts
  sessionId := job.sessionId
  userId := user
  changed := job.changes.isSome
  userMsg := job.userMsg
  turnId := job.turnId
  conversationId := job.conversationId
  lookupFails := extraction.lookupFails
  ops := extraction.ops

/-- `_turn_was_retired`, of the turns a process knows. -/
def WasRetired (retired : List Text) : Prop := ∃ turn ∈ retired, turn ≠ [] ∧ job.turnId = some turn

instance (retired : List Text) : Decidable (job.WasRetired retired) :=
  inferInstanceAs (Decidable (∃ turn ∈ retired, _))

end TurnJob

/-! ### Retirement -/

/-- `col.get` of the rows of a user of one type. -/
def Collection.ofType (c : MemoryStore β) (uid mtype : Text) : List (MemoryRow RowMeta) :=
  c.get none fun row => row.metadata.userId = some uid ∧ row.metadata.mtype = some mtype

/-- The rows that `retire_turn_rows` removes. -/
def retiredRows (c : MemoryStore β) (turns : List Text) : List (MemoryRow RowMeta) :=
  ((c.ofType user "semantic").filter fun row =>
      row.metadata.source = some sourceAuto ∧
        row.metadata.originConversationId = some conversation ∧
        ((∃ t ∈ turns, row.metadata.originTurnId = some t) ∨
          ∃ t ∈ turns, row.metadata.updatedTurnId = some t)) ++
    ((c.ofType user "episodic").filter fun row =>
      row.metadata.conversationId = some conversation ∧
        ∃ t ∈ turns, row.metadata.turnId = some t) ++
    (c.ofType user "reflection").filter fun row =>
      row.metadata.originConversationId = some conversation ∧
        ∃ t ∈ turns, row.metadata.originTurnId = some t

/-- `retire_turn_rows`, of a valid user; what the process keeps of it is beside the store. -/
def retireTurnRows (c : MemoryStore β) (turns : List Text) : MemoryStore β :=
  let turns := turns.filter (· ≠ [])
  if conversation = [] ∨ turns = [] then c
  else
    match (retiredRows user conversation c turns).map (·.id) with
    | [] => c
    | doomed => c.delete doomed

/-- The turn is the first writer of the row, in the conversation. -/
def Enters (turn : Text) (row : MemoryRow RowMeta) : Prop :=
  row.metadata.userId = some user ∧
    (row.metadata.mtype = some (Text.ofString "semantic") ∧ row.metadata.source = some sourceAuto ∧
        row.metadata.originConversationId = some conversation ∧
        row.metadata.originTurnId = some turn ∨
      row.metadata.mtype = some (Text.ofString "episodic") ∧
        row.metadata.conversationId = some conversation ∧ row.metadata.turnId = some turn ∨
      row.metadata.mtype = some (Text.ofString "reflection") ∧
        row.metadata.originConversationId = some conversation ∧
        row.metadata.originTurnId = some turn)

/-- An extracted row that comes from the conversation. -/
def OfConversation (row : MemoryRow RowMeta) : Prop :=
  row.metadata.userId = some user ∧ row.metadata.mtype = some (Text.ofString "semantic") ∧
    row.metadata.source = some sourceAuto ∧ row.metadata.originConversationId = some conversation

/-- The turn is the last to have rewritten the row. -/
def Updates (turn : Text) (row : MemoryRow RowMeta) : Prop :=
  OfConversation user conversation row ∧ row.metadata.updatedTurnId = some turn

/-- The row carries one of the turns. -/
def Bears (turns : List Text) (row : MemoryRow RowMeta) : Prop :=
  ∃ t ∈ turns, Enters user conversation t row ∨ Updates user conversation t row

instance (turn : Text) (row : MemoryRow RowMeta) : Decidable (Enters user conversation turn row) :=
  inferInstanceAs (Decidable (_ ∧ _))

instance (row : MemoryRow RowMeta) : Decidable (OfConversation user conversation row) :=
  inferInstanceAs (Decidable (_ ∧ _))

instance (turn : Text) (row : MemoryRow RowMeta) : Decidable (Updates user conversation turn row) :=
  inferInstanceAs (Decidable (_ ∧ _))

instance (turns : List Text) (row : MemoryRow RowMeta) :
    Decidable (Bears user conversation turns row) :=
  inferInstanceAs (Decidable (∃ t ∈ turns, _))

variable {user conversation edit}

lemma mem_retiredRows {c : MemoryStore β} {turns : List Text} {row : MemoryRow RowMeta} :
    row ∈ retiredRows user conversation c turns ↔
      row ∈ c.rows ∧ Bears user conversation turns row := by
  have htype : ∀ mtype, row ∈ c.ofType user mtype ↔
      row ∈ c.rows ∧ row.metadata.userId = some user ∧ row.metadata.mtype = some mtype := by
    simp [Collection.ofType, Collection.get]
  unfold retiredRows
  rw [List.mem_append, List.mem_append, List.mem_filter, List.mem_filter, List.mem_filter, htype,
    htype, htype, decide_eq_true_iff, decide_eq_true_iff, decide_eq_true_iff]
  constructor
  · rintro ((⟨⟨hrow, huser, hm⟩, hs, hc, ⟨t, ht, h⟩ | ⟨t, ht, h⟩⟩ | ⟨⟨hrow, huser, hm⟩, hc, t, ht, h⟩) |
      ⟨⟨hrow, huser, hm⟩, hc, t, ht, h⟩)
    · exact ⟨hrow, t, ht, .inl ⟨huser, .inl ⟨hm, hs, hc, h⟩⟩⟩
    · exact ⟨hrow, t, ht, .inr ⟨⟨huser, hm, hs, hc⟩, h⟩⟩
    · exact ⟨hrow, t, ht, .inl ⟨huser, .inr (.inl ⟨hm, hc, h⟩)⟩⟩
    · exact ⟨hrow, t, ht, .inl ⟨huser, .inr (.inr ⟨hm, hc, h⟩)⟩⟩
  · rintro ⟨hrow, t, ht, ⟨huser, ⟨hm, hs, hc, h⟩ | ⟨hm, hc, h⟩ | ⟨hm, hc, h⟩⟩ |
      ⟨⟨huser, hm, hs, hc⟩, h⟩⟩
    · exact .inl (.inl ⟨⟨hrow, huser, hm⟩, hs, hc, .inl ⟨t, ht, h⟩⟩)
    · exact .inl (.inr ⟨⟨hrow, huser, hm⟩, hc, t, ht, h⟩)
    · exact .inr ⟨⟨hrow, huser, hm⟩, hc, t, ht, h⟩
    · exact .inl (.inl ⟨⟨hrow, huser, hm⟩, hs, hc, .inr ⟨t, ht, h⟩⟩)

lemma bears_singleton {t : Text} {row : MemoryRow RowMeta} :
    Bears user conversation [t] row ↔
      Enters user conversation t row ∨ Updates user conversation t row := by
  simp [Bears]

lemma mem_of_mem_retireTurnRows {c : MemoryStore β} {turns : List Text} {row : MemoryRow RowMeta}
    (h : row ∈ (retireTurnRows user conversation c turns).rows) : row ∈ c.rows := by
  unfold retireTurnRows at h
  dsimp only at h
  split_ifs at h
  · exact h
  · split at h
    · exact h
    · exact mem_of_mem_deleteWhere h

lemma retireTurnRows_nodup {c : MemoryStore β} (hids : c.ids.Nodup) (turns : List Text) :
    (retireTurnRows user conversation c turns).ids.Nodup := by
  unfold retireTurnRows
  dsimp only
  split_ifs
  · exact hids
  · split
    · exact hids
    · exact delete_nodup hids _

lemma mem_retireTurnRows {c : MemoryStore β} (hids : c.ids.Nodup) (hconversation : conversation ≠ [])
    {turns : List Text} (hturns : [] ∉ turns) {row : MemoryRow RowMeta} :
    row ∈ (retireTurnRows user conversation c turns).rows ↔
      row ∈ c.rows ∧ ¬ Bears user conversation turns row := by
  have hfilter : turns.filter (· ≠ []) = turns :=
    List.filter_eq_self.2 fun t ht => decide_eq_true fun hnil => hturns (hnil ▸ ht)
  have hdoomed : ∀ row ∈ c.rows, row.id ∈ (retiredRows user conversation c turns).map (·.id) ↔
      Bears user conversation turns row := by
    refine fun row hrow => ⟨fun hid => ?_, fun h => ?_⟩
    · obtain ⟨row', hrow', heq⟩ := List.mem_map.1 hid
      obtain ⟨hmem, hbears⟩ := mem_retiredRows.1 hrow'
      rwa [(show Keyed (·.id) c.rows from hids).eq hmem hrow heq] at hbears
    · exact List.mem_map_of_mem (mem_retiredRows.2 ⟨hrow, h⟩)
  unfold retireTurnRows
  simp only [hfilter, hconversation, false_or]
  split_ifs with hnone
  · refine ⟨fun h => ⟨h, fun hbears => ?_⟩, fun h => h.1⟩
    obtain ⟨t, ht, -⟩ := hbears
    rw [hnone] at ht
    cases ht
  · split
    · next hnil =>
      rw [hnil] at hdoomed
      exact ⟨fun h => ⟨h, fun hbears => by cases (hdoomed row h).2 hbears⟩, fun h => h.1⟩
    · next doomed _ =>
      constructor
      · intro h
        obtain ⟨hmem, hnot⟩ := mem_deleteWhere.1 h
        exact ⟨hmem, fun hbears => hnot ((hdoomed row hmem).2 hbears)⟩
      · exact fun ⟨hmem, hnot⟩ =>
          mem_deleteWhere.2 ⟨hmem, fun hid => hnot ((hdoomed row hmem).1 hid)⟩

/-! ### Writers -/

/-- A new row has the writer for its first one. -/
def found (writer : Option Text) (c c' : MemoryStore β) (first : Text → Option Text) (x : Text) :
    Option Text :=
  if x ∈ c'.ids ∧ x ∉ c.ids then writer else first x

/-- A new row, or one that is not as it was, has the writer for its last one. -/
def credit (writer : Option Text) (c c' : MemoryStore β) (last : Text → Option Text) (x : Text) :
    Option Text :=
  if ∃ row ∈ c'.rows, row.id = x ∧ row ∉ c.rows then writer else last x

lemma credit_of_mem {writer : Option Text} {c c' : MemoryStore β} (hids : c'.ids.Nodup)
    (last : Text → Option Text) {row : MemoryRow RowMeta} (hrow : row ∈ c'.rows) :
    credit writer c c' last row.id = if row ∈ c.rows then last row.id else writer := by
  unfold credit
  by_cases hold : row ∈ c.rows
  · rw [if_pos hold, if_neg]
    rintro ⟨row', hrow', hid, hnew⟩
    obtain rfl : row' = row := (show Keyed (·.id) c'.rows from hids).eq hrow' hrow hid
    exact hnew hold
  · rw [if_neg hold, if_pos ⟨row, hrow, rfl, hold⟩]

lemma found_of_mem {writer : Option Text} {c c' : MemoryStore β} (first : Text → Option Text)
    {x : Text} (hx : x ∈ c'.ids) :
    found writer c c' first x = if x ∈ c.ids then first x else writer := by
  unfold found
  split_ifs <;> first | rfl | tauto

variable (edit) in
/-- A turn that the edit takes out. -/
def OfEdit (turn : Option Text) : Prop := ∃ t ∈ edit, turn = some t

instance (turn : Option Text) : Decidable (OfEdit edit turn) :=
  inferInstanceAs (Decidable (∃ t ∈ edit, _))

variable (user conversation edit) in
/-- The marks of the edit's turns tell the first and last writers of the rows, and what these turns
wrote is still `awaited`. -/
structure Signed (awaited : Text → Prop) (c : MemoryStore β) (first last : Text → Option Text) :
    Prop where
  ids : c.ids.Nodup
  entered : ∀ row ∈ c.rows, ∀ t ∈ edit, Enters user conversation t row → first row.id = some t
  updated : ∀ row ∈ c.rows, ∀ t ∈ edit, Updates user conversation t row → last row.id = some t
  first : ∀ row ∈ c.rows, ∀ t ∈ edit, first row.id = some t →
    Enters user conversation t row ∧ row.metadata.source ≠ some sourceExplicit ∧ awaited t
  last : ∀ row ∈ c.rows, ∀ t ∈ edit, last row.id = some t →
    (Enters user conversation t row ∨ Updates user conversation t row) ∧
      row.metadata.source ≠ some sourceExplicit ∧ awaited t

/-- Rows that differ in what neither a retirement nor a writer is told by. -/
structure SameMarks (row row' : MemoryRow RowMeta) : Prop where
  id : row'.id = row.id
  provenance : row'.metadata.toProvenance = row.metadata.toProvenance
  mtype : row'.metadata.mtype = row.metadata.mtype
  userId : row'.metadata.userId = row.metadata.userId

lemma SameMarks.refl (row : MemoryRow RowMeta) : SameMarks row row := ⟨rfl, rfl, rfl, rfl⟩

lemma Rewritten.sameMarks {turn : Option Text} {old row : MemoryRow RowMeta}
    (h : Rewritten turn old row) : SameMarks old row :=
  ⟨h.id, h.provenance, h.mtype, h.userId⟩

namespace SameMarks

variable {row row' : MemoryRow RowMeta} (h : SameMarks row row')

include h

lemma source : row'.metadata.source = row.metadata.source := congrArg Provenance.source h.provenance

lemma enters_iff {t : Text} : Enters user conversation t row' ↔ Enters user conversation t row := by
  have horigin := congrArg Provenance.originConversationId h.provenance
  have hturn := congrArg Provenance.originTurnId h.provenance
  have hconversation := congrArg Provenance.conversationId h.provenance
  have hlogged := congrArg Provenance.turnId h.provenance
  unfold Enters
  rw [h.userId, h.mtype, h.source, horigin, hturn, hconversation, hlogged]

lemma ofConversation_iff :
    OfConversation user conversation row' ↔ OfConversation user conversation row := by
  have horigin := congrArg Provenance.originConversationId h.provenance
  unfold OfConversation
  rw [h.userId, h.mtype, h.source, horigin]

end SameMarks

variable {awaited awaited' : Text → Prop} {c c' : MemoryStore β} {first last : Text → Option Text}

lemma Signed.mono (h : Signed user conversation edit awaited c first last)
    (hawaited : ∀ t ∈ edit, awaited t → awaited' t) :
    Signed user conversation edit awaited' c first last where
  ids := h.ids
  entered := h.entered
  updated := h.updated
  first row hrow t ht hfirst := (h.first row hrow t ht hfirst).imp_right
    fun hrest => hrest.imp_right (hawaited t ht)
  last row hrow t ht hlast := (h.last row hrow t ht hlast).imp_right
    fun hrest => hrest.imp_right (hawaited t ht)

/-- Rows that go, or lose a part of their text, leave the others' marks. What bears a turn that is no
longer awaited goes. -/
lemma Signed.lose (h : Signed user conversation edit awaited c first last) (hids : c'.ids.Nodup)
    (hsame : ∀ row' ∈ c'.rows, ∃ row ∈ c.rows, SameMarks row row' ∧
      row'.metadata.updatedTurnId = row.metadata.updatedTurnId ∧
      ∀ t ∈ edit, Enters user conversation t row ∨ Updates user conversation t row → awaited t →
        awaited' t) :
    Signed user conversation edit awaited' c' first last where
  ids := hids
  entered row' hrow' t ht henters := by
    obtain ⟨row, hrow, hmarks, -, -⟩ := hsame row' hrow'
    rw [hmarks.id]
    exact h.entered row hrow t ht (hmarks.enters_iff.1 henters)
  updated row' hrow' t ht hupdates := by
    obtain ⟨row, hrow, hmarks, hlast, -⟩ := hsame row' hrow'
    rw [hmarks.id]
    exact h.updated row hrow t ht ⟨hmarks.ofConversation_iff.1 hupdates.1, hlast ▸ hupdates.2⟩
  first row' hrow' t ht hfirst := by
    obtain ⟨row, hrow, hmarks, -, hstill⟩ := hsame row' hrow'
    rw [hmarks.id] at hfirst
    obtain ⟨henters, hsource, hawaited⟩ := h.first row hrow t ht hfirst
    rw [hmarks.enters_iff, hmarks.source]
    exact ⟨henters, hsource, hstill t ht (.inl henters) hawaited⟩
  last row' hrow' t ht hwriter := by
    obtain ⟨row, hrow, hmarks, hlast, hstill⟩ := hsame row' hrow'
    rw [hmarks.id] at hwriter
    obtain ⟨hbears, hsource, hawaited⟩ := h.last row hrow t ht hwriter
    rw [hmarks.source, hmarks.enters_iff, Updates, hmarks.ofConversation_iff, hlast]
    exact ⟨hbears, hsource, hstill t ht hbears hawaited⟩

lemma Signed.not_explicit (h : Signed user conversation edit awaited c first last)
    {row : MemoryRow RowMeta} (hrow : row ∈ c.rows) (hexplicit : ExplicitRow user row) :
    ¬ OfEdit edit (first row.id) ∧ ¬ OfEdit edit (last row.id) :=
  ⟨fun ⟨t, ht, hfirst⟩ => (h.first row hrow t ht hfirst).2.1 hexplicit.2,
    fun ⟨t, ht, hlast⟩ => (h.last row hrow t ht hlast).2.1 hexplicit.2⟩

/-- A row by other turns bears none of the edit. -/
lemma Signed.not_bears (h : Signed user conversation edit awaited c first last)
    {row : MemoryRow RowMeta} (hrow : row ∈ c.rows) (hfirst : ¬ OfEdit edit (first row.id))
    (hlast : ¬ OfEdit edit (last row.id)) : ¬ Bears user conversation edit row := by
  rintro ⟨t, ht, henters | hupdates⟩
  · exact hfirst ⟨t, ht, h.entered row hrow t ht henters⟩
  · exact hlast ⟨t, ht, h.updated row hrow t ht hupdates⟩

/-! #### Writing -/

lemma stampTurn_some {t : Text} (hne : t ≠ []) (hshort : t.length ≤ 80) (old : Option Text) :
    stampTurn (some t) old = some t := by
  simp [stampTurn, Option.filter, hne, List.take_of_length_le hshort]

/-- What a turn writes, it signs. -/
lemma Signed.write (h : Signed user conversation edit awaited c first last) (huser : user ≠ [])
    {turn : Option Text} {rewritten : Text → Prop} {fresh : MemoryRow RowMeta → Prop}
    (heffect : Effect rewritten turn fresh c c')
    (hstamp : ∀ x, rewritten x → ∀ old, stampTurn turn old = turn)
    (hawaited : ∀ t ∈ edit, turn = some t → awaited t)
    (hfresh : ∀ row, fresh row → ∀ t ∈ edit, (Enters user conversation t row ↔ turn = some t) ∧
      ¬ Updates user conversation t row ∧
      (turn = some t → row.metadata.source ≠ some sourceExplicit))
    (hhome : OfEdit edit turn → ∀ old ∈ c.rows, rewritten old.id →
      OfConversation user conversation old) :
    Signed user conversation edit awaited c' (found turn c c' first) (credit turn c c' last) := by
  -- a row is as it was, or new, or rewritten
  have hcases : ∀ row ∈ c'.rows,
      row ∈ c.rows ∧ found turn c c' first row.id = first row.id ∧
          credit turn c c' last row.id = last row.id ∨
        fresh row ∧ found turn c c' first row.id = turn ∧ credit turn c c' last row.id = turn ∨
        ∃ old ∈ c.rows, rewritten old.id ∧ Rewritten turn old row ∧
          found turn c c' first row.id = first old.id ∧ credit turn c c' last row.id = turn := by
    intro row hrow
    have hid : row.id ∈ c'.ids := List.mem_map_of_mem hrow
    rw [credit_of_mem heffect.nodup last hrow, found_of_mem first hid]
    by_cases hold : row ∈ c.rows
    · exact .inl ⟨hold, if_pos (List.mem_map_of_mem hold), if_pos hold⟩
    rw [if_neg hold]
    rcases heffect.came row hrow with hmem | ⟨hnew, hid⟩ | ⟨old, hmem, hx, hrewrites⟩
    · exact absurd hmem hold
    · exact .inr (.inl ⟨hnew, if_neg hid, rfl⟩)
    · refine .inr (.inr ⟨old, hmem, hx, hrewrites, ?_, rfl⟩)
      rw [hrewrites.id]
      exact if_pos (List.mem_map_of_mem hmem)
  refine ⟨heffect.nodup, ?_, ?_, ?_, ?_⟩
  · intro row hrow t ht henters
    rcases hcases row hrow with ⟨hold, hfirst, -⟩ | ⟨hnew, hfirst, -⟩ |
      ⟨old, hold, -, hrewrites, hfirst, -⟩
    · exact hfirst.trans (h.entered row hold t ht henters)
    · exact hfirst.trans ((hfresh row hnew t ht).1.1 henters)
    · exact hfirst.trans (h.entered old hold t ht (hrewrites.sameMarks.enters_iff.1 henters))
  · intro row hrow t ht hupdates
    rcases hcases row hrow with ⟨hold, -, hlast⟩ | ⟨hnew, -, -⟩ | ⟨old, hold, hx, hrewrites, -, hlast⟩
    · exact hlast.trans (h.updated row hold t ht hupdates)
    · exact absurd hupdates (hfresh row hnew t ht).2.1
    · obtain ⟨hhere, hmark⟩ := hupdates
      have howner := (hrewrites.sameMarks.ofConversation_iff.1 hhere).1
      rw [hrewrites.updatedTurnId user howner huser, hstamp _ hx] at hmark
      exact hlast.trans hmark
  · intro row hrow t ht hwriter
    rcases hcases row hrow with ⟨hold, hfirst, -⟩ | ⟨hnew, hfirst, -⟩ |
      ⟨old, hold, -, hrewrites, hfirst, -⟩
    · exact h.first row hold t ht (hfirst.symm.trans hwriter)
    · have hturn := hfirst.symm.trans hwriter
      obtain ⟨henters, -, hsource⟩ := hfresh row hnew t ht
      exact ⟨henters.2 hturn, hsource hturn, hawaited t ht hturn⟩
    · rw [hrewrites.sameMarks.enters_iff, hrewrites.sameMarks.source]
      exact h.first old hold t ht (hfirst.symm.trans hwriter)
  · intro row hrow t ht hwriter
    rcases hcases row hrow with ⟨hold, -, hlast⟩ | ⟨hnew, -, hlast⟩ |
      ⟨old, hold, hx, hrewrites, -, hlast⟩
    · exact h.last row hold t ht (hlast.symm.trans hwriter)
    · have hturn := hlast.symm.trans hwriter
      obtain ⟨henters, -, hsource⟩ := hfresh row hnew t ht
      exact ⟨.inl (henters.2 hturn), hsource hturn, hawaited t ht hturn⟩
    · have hturn := hlast.symm.trans hwriter
      have hhere := hhome ⟨t, ht, hturn⟩ old hold hx
      refine ⟨.inr ⟨hrewrites.sameMarks.ofConversation_iff.2 hhere, ?_⟩, ?_, hawaited t ht hturn⟩
      · rw [hrewrites.updatedTurnId user hhere.1 huser, hstamp _ hx]
        exact hturn
      · rw [hrewrites.sameMarks.source, hhere.2.2.1]
        exact fun heq => auto_ne_explicit (Option.some.inj heq)

/-! #### What each part of a job writes -/

lemma ne_nil_of_valid (huser : validUserId (some user) = some user) : user ≠ [] := by
  rintro rfl
  exact absurd huser (by decide)

lemma mtypes_ne : Text.ofString "semantic" ≠ Text.ofString "episodic" ∧
    Text.ofString "semantic" ≠ Text.ofString "reflection" ∧
    Text.ofString "episodic" ≠ Text.ofString "reflection" := by decide

lemma extracted_enters {job : Consolidation} {t : Text} {row : MemoryRow RowMeta}
    (h : job.Extracted row) : Enters job.userId conversation t row ↔
      job.conversationId = some conversation ∧ job.turnId = some t := by
  have hsource := congrArg Provenance.source h.provenance
  have horigin := congrArg Provenance.originConversationId h.provenance
  have hturn := congrArg Provenance.originTurnId h.provenance
  obtain ⟨hepisodic, hreflection, -⟩ := mtypes_ne
  constructor
  · rintro ⟨-, ⟨-, -, hc, ht⟩ | ⟨hm, -⟩ | ⟨hm, -⟩⟩
    · exact ⟨horigin.symm.trans hc, hturn.symm.trans ht⟩
    · exact absurd (Option.some.inj (h.mtype.symm.trans hm)) hepisodic
    · exact absurd (Option.some.inj (h.mtype.symm.trans hm)) hreflection
  · exact fun ⟨hc, ht⟩ => ⟨h.userId, .inl ⟨h.mtype, hsource, horigin.trans hc, hturn.trans ht⟩⟩

lemma extracted_marks {job : Consolidation}
    (hconversation : OfEdit edit job.turnId → job.conversationId = some conversation)
    {row : MemoryRow RowMeta} (h : job.Extracted row) :
    ∀ t ∈ edit, (Enters job.userId conversation t row ↔ job.turnId = some t) ∧
      ¬ Updates job.userId conversation t row ∧
      (job.turnId = some t → row.metadata.source ≠ some sourceExplicit) := by
  intro t ht
  refine ⟨(extracted_enters h).trans (and_iff_right_of_imp fun hturn =>
    hconversation ⟨t, ht, hturn⟩), ?_, fun _ => ?_⟩
  · rintro ⟨-, hmark⟩
    cases h.updatedTurnId.symm.trans hmark
  · rw [congrArg Provenance.source h.provenance]
    exact fun heq => auto_ne_explicit (Option.some.inj heq)

namespace TurnJob

variable {job : TurnJob κ}

lemma logCall_enters {t : Text} :
    Enters user conversation t ⟨(job.logCall user).row rules user, .native⟩ ↔
      job.conversationId = some conversation ∧ job.turnId = some t := by
  obtain ⟨hsemantic, -, hreflection⟩ := mtypes_ne
  constructor
  · rintro ⟨-, ⟨hm, -⟩ | ⟨-, hc, ht⟩ | ⟨hm, -⟩⟩
    · exact absurd (Option.some.inj hm).symm hsemantic
    · exact ⟨hc, ht⟩
    · exact absurd (Option.some.inj hm) hreflection
  · exact fun ⟨hc, ht⟩ => ⟨rfl, .inr (.inl ⟨rfl, hc, ht⟩)⟩

lemma insightCall_enters {t insight : Text} :
    Enters user conversation t ⟨(job.insightCall user insight).row rules user, .native⟩ ↔
      job.conversationId = some conversation ∧ job.turnId = some t := by
  obtain ⟨-, hsemantic, hepisodic⟩ := mtypes_ne
  constructor
  · rintro ⟨-, ⟨hm, -⟩ | ⟨hm, -⟩ | ⟨-, hc, ht⟩⟩
    · exact absurd (Option.some.inj hm).symm hsemantic
    · exact absurd (Option.some.inj hm).symm hepisodic
    · exact ⟨hc, ht⟩
  · exact fun ⟨hc, ht⟩ => ⟨rfl, .inr (.inr ⟨rfl, hc, ht⟩)⟩

lemma addInsights_effect (huser : validUserId (some user) = some user) {turnRef : Option Text}
    (hids : c.ids.Nodup) (insights : List Text) :
    Effect (fun _ => False) turnRef
      (fun row => ∃ insight, row = ⟨(job.insightCall user insight).row rules user, .native⟩) c
      (job.addInsights rules user c insights) := by
  induction insights generalizing c with
  | nil => exact .refl hids
  | cons insight insights ih =>
    have hfirst : Effect (fun _ => False) turnRef
        (fun row => ∃ insight, row = ⟨(job.insightCall user insight).row rules user, .native⟩) c
        (addRecord rules c (job.insightCall user insight)).1 := by
      refine .addRecord rules hids fun uid hvalid => ⟨insight, ?_⟩
      obtain rfl : user = uid := Option.some.inj (huser.symm.trans hvalid)
      rfl
    unfold addInsights
    dsimp only
    split_ifs
    · exact hfirst
    · exact hfirst.trans (ih hfirst.nodup) (addRecord_ids rules c _) fun _ _ => False.elim

end TurnJob

lemma save_marks {uid content kind sessionId now t : Text} :
    ¬ Enters user conversation t
        ⟨(rememberCall uid content kind sessionId now).row rules uid, .native⟩ ∧
      ¬ Updates user conversation t
        ⟨(rememberCall uid content kind sessionId now).row rules uid, .native⟩ := by
  constructor
  · rintro ⟨-, ⟨-, hs, -⟩ | ⟨-, hc, -⟩ | ⟨-, hc, -⟩⟩
    · exact auto_ne_explicit (Option.some.inj hs).symm
    · cases hc
    · cases hc
  · rintro ⟨-, hmark⟩
    cases hmark

/-- Erasing fields leaves the marks of what remains. -/
lemma forgetFact_sameMarks (hids : c.ids.Nodup) (uid : Text) (fields : List Field) (now : Text) :
    ∀ row' ∈ (forgetFact rules c uid fields now).rows, ∃ row ∈ c.rows, SameMarks row row' ∧
      row'.metadata.updatedTurnId = row.metadata.updatedTurnId := by
  intro row' hrow'
  rw [rows_forgetFact rules hids] at hrow'
  obtain ⟨row, hrow, hscrub⟩ := List.mem_filterMap.1 hrow'
  refine ⟨row, hrow, ?_⟩
  unfold scrub at hscrub
  split_ifs at hscrub
  · obtain rfl := Option.some.inj hscrub
    exact ⟨⟨rfl, rfl, rfl, rfl⟩, rfl⟩
  · obtain rfl := Option.some.inj hscrub
    exact ⟨.refl row, rfl⟩

lemma add_sameMarks (hids : c.ids.Nodup) (a : AddCall) :
    ∀ row' ∈ (add rules c a).1.rows, ∃ row ∈ (addRecord rules c a).1.rows, SameMarks row row' ∧
      row'.metadata.updatedTurnId = row.metadata.updatedTurnId := by
  have herased := forgetFact_sameMarks rules (addRecord_nodup rules hids a)
  unfold add
  cases validUserId a.userId with
  | none => exact fun row hrow => ⟨row, hrow, .refl row, rfl⟩
  | some uid =>
    dsimp only
    split_ifs
    · exact fun row hrow => ⟨row, hrow, .refl row, rfl⟩
    · split <;> [split_ifs; split_ifs; skip] <;> exact herased uid _ a.now

end RentCompass.Memory
