import RentCompass.Groups
import RentCompass.Store.Integrity

/-!
# Versions of a message

`version_map` groups the branches of a family by the slot they were made for: the conversation a
slot belongs to, and the edit branches that rewrite the message in it. It finds the family by the
root recorded on each conversation and takes the parent of each edit branch for a version.

Where nothing is deleted, the recorded roots are the ends of the walks up the parents, and the
parent of an edit branch owns the slot or is another version of it.
-/

namespace RentCompass.Store

open Rows

/-- A version, as the switcher lists it. -/
structure Version where
  conversationId : Id
  createdAt : Instant
  title : Text
deriving DecidableEq

/-- The conversations of a user under one root. -/
def familyRows (db : Db) (u : UserId) (root : Id) : List Conversation :=
  db.conversations.filter fun c => c.userId = u ∧ c.rootConversationId = some root

/-- What an edit branch puts into the group of its slot: itself, and its parent where that is of
the family. -/
def versionsOf (fam : List Conversation) (c : Conversation) : List Id :=
  c.id :: (c.parentConversationId.filter (· ∈ fam.map (·.id))).toList

/-- `(created_at, id)` in lexicographic order. -/
def Conversation.NotAfter (c c' : Conversation) : Prop :=
  c.createdAt < c'.createdAt ∨ c.createdAt = c'.createdAt ∧ c.id ≤ c'.id

instance : DecidableRel Conversation.NotAfter := fun c c' =>
  inferInstanceAs (Decidable (c.createdAt < c'.createdAt ∨
    c.createdAt = c'.createdAt ∧ c.id ≤ c'.id))

def Conversation.version (c : Conversation) : Version where
  conversationId := c.id
  createdAt := c.createdAt
  title := c.title

/-- The groups of a family. -/
def versionGroups (fam : List Conversation) : List (Id × List Id) :=
  Groups.build (·.editedSlotTurnId) (versionsOf fam) fam

/-- The rows of a group, in the order they are listed in. -/
def versionRows (fam : List Conversation) (ids : List Id) : List Version :=
  ((ids.filterMap fun i => selectOne (fun c : Conversation => c.id = i) fam).insertionSort
    Conversation.NotAfter).map Conversation.version

/-- `version_map`. -/
def versionMap (db : Db) (u : UserId) (cid : Id) : Option (List (Id × List Version)) :=
  (db.conversationOf u cid).map fun base =>
    let fam := familyRows db u (base.rootConversationId.getD cid)
    ((versionGroups fam).filter fun g => 2 ≤ g.2.length).map fun g => (g.1, versionRows fam g.2)

/-! ### Families -/

/-- `p` is the parent of the user's conversation `c`. -/
def Db.ChildOf (db : Db) (u : UserId) (c p : Id) : Prop :=
  ∃ k ∈ db.kin, k.userId = u ∧ k.id = c ∧ k.parent = some p

/-- The walk up the parents from `c` ends at `r`. -/
def Db.RootOf (db : Db) (u : UserId) (c r : Id) : Prop :=
  Relation.ReflTransGen (db.ChildOf u) c r ∧ ∃ k ∈ db.kin, k.userId = u ∧ k.id = r ∧ k.parent = none

/-- The two conversations come from one root. -/
def Db.SameFamily (db : Db) (u : UserId) (c c' : Id) : Prop := ∃ r, db.RootOf u c r ∧ db.RootOf u c' r

/-- The conversation is an edit branch made for the slot. -/
def Db.EditBranch (db : Db) (u : UserId) (c slot : Id) : Prop :=
  ∃ k ∈ db.kin, k.userId = u ∧ k.id = c ∧ k.slot = some slot

/-- Where a conversation comes from, as long as nothing is deleted. -/
def Db.Descends (db : Db) (k : Kin) : Prop :=
  (k.parent = none ∧ k.root = some k.id ∧ k.slot = none) ∨
  ∃ p ∈ db.kin, k.parent = some p.id ∧ p.userId = k.userId ∧ p.id < k.id ∧ k.root = p.root ∧
    ∀ s, k.slot = some s → p.slot = some s ∨ db.NamesTurn s k.userId p.id

/-- The anchor of an edit is the slot of its source, or a turn of it. -/
def BranchPlan.Anchors (plan : BranchPlan) (db : Db) : Prop :=
  plan.source.kin ∈ db.kin ∧ plan.source.userId = plan.userId ∧
  match plan.kind with
  | .fork .. => True
  | .edit _ _ _ anchor => plan.source.editedSlotTurnId = some anchor ∨
      db.NamesTurn anchor plan.userId plan.source.id

structure Families (w : World) : Prop where
  kinIds : Keyed (fun k : Kin => k.id) w.db.kin
  kinBelow : ∀ k ∈ w.db.kin, k.id < w.nextId
  rooted : ∀ k ∈ w.db.kin, k.root.isSome
  descends : ∀ k ∈ w.db.kin, w.db.Descends k
  plans : ∀ plan ∈ w.plans, plan.Anchors w.db

lemma families_empty : Families .empty where
  kinIds := keyed_nil
  kinBelow := by simp [World.empty, Db.empty, Db.kin]
  rooted := by simp [World.empty, Db.empty, Db.kin]
  descends := by simp [World.empty, Db.empty, Db.kin]
  plans := by simp [World.empty]

/-- Nothing is deleted. -/
def Bounds.lasting : Bounds := ⟨False, fun _ _ => False⟩

/-- Conversations and turns are added and stay. -/
structure Db.Lasts (db db' : Db) : Prop where
  kin : ∀ k ∈ db.kin, k ∈ db'.kin
  turns : ∀ tid u cid, db.NamesTurn tid u cid → db'.NamesTurn tid u cid

lemma Db.Lasts.descends {db db' : Db} (h : db.Lasts db') {k : Kin} (hk : db.Descends k) :
    db'.Descends k := by
  rcases hk with hroot | ⟨p, hp, hparent, hu, hlt, hroot, hslot⟩
  · exact .inl hroot
  · refine .inr ⟨p, h.kin p hp, hparent, hu, hlt, hroot, fun s hs => ?_⟩
    exact (hslot s hs).imp_right (h.turns s k.userId p.id)

lemma Db.Lasts.anchors {db db' : Db} (h : db.Lasts db') {plan : BranchPlan}
    (hp : plan.Anchors db) : plan.Anchors db' := by
  obtain ⟨hsource, hu, hkind⟩ := hp
  refine ⟨h.kin _ hsource, hu, ?_⟩
  cases hk : plan.kind with
  | fork => trivial
  | edit turnId srcTurns cutoff anchor =>
    simp only [hk] at hkind
    exact hkind.imp_right (h.turns _ _ _)

lemma Families.lasts {w w' : World} (h : Families w) (hl : w.db.Lasts w'.db)
    (hkin : w'.db.kin = w.db.kin) (hn : w.nextId ≤ w'.nextId)
    (hp : ∀ plan ∈ w'.plans, plan ∈ w.plans) : Families w' where
  kinIds := hkin ▸ h.kinIds
  kinBelow := fun k hk => lt_of_lt_of_le (h.kinBelow k (hkin ▸ hk)) hn
  rooted := hkin ▸ h.rooted
  descends := fun k hk => hl.descends (h.descends k (hkin ▸ hk))
  plans := fun plan hplan => hl.anchors (h.plans plan (hp plan hplan))

/-- A conversation is added behind the ones there are. -/
lemma Families.insert {w w' : World} (h : Families w) (hl : w.db.Lasts w'.db) {k : Kin}
    (hkin : w'.db.kin = w.db.kin ++ [k]) (hlow : w.nextId ≤ k.id) (hhigh : k.id < w'.nextId)
    (hroot : k.root.isSome) (hk : w'.db.Descends k) (hp : ∀ plan ∈ w'.plans, plan ∈ w.plans) : Families w' where
  kinIds := by
    rw [hkin]
    exact h.kinIds.append_one fun k' hk' => (lt_of_lt_of_le (h.kinBelow k' hk') hlow).ne
  kinBelow := by
    intro k' hk'
    rw [hkin] at hk'
    rcases List.mem_append.1 hk' with hold | hnew
    · exact ((h.kinBelow k' hold).trans_le hlow).trans hhigh
    · rw [List.mem_singleton.1 hnew]
      exact hhigh
  rooted := by
    intro k' hk'
    rw [hkin] at hk'
    rcases List.mem_append.1 hk' with hold | hnew
    · exact h.rooted k' hold
    · rwa [List.mem_singleton.1 hnew]
  descends := by
    intro k' hk'
    rw [hkin] at hk'
    rcases List.mem_append.1 hk' with hold | hnew
    · exact hl.descends (h.descends k' hold)
    · rwa [List.mem_singleton.1 hnew]
  plans := fun plan hplan => hl.anchors (h.plans plan (hp plan hplan))

/-- What is read for a plan. -/
lemma BranchPlan.ReadFrom.anchors {plan : BranchPlan} {db : Db} (h : plan.ReadFrom db) :
    plan.Anchors db := by
  rcases h with ⟨u, source, afterTurnId, title, key, h⟩ | ⟨u, source, turnId, title, key, h⟩
  · obtain ⟨src, forkTurn, hsrc, -, rfl⟩ := forkConversationPlan_ok h
    have hu : src.userId = u := (selectOne_holds
      (p := fun c : Conversation => c.userId = u ∧ c.id = source) hsrc).1
    exact ⟨List.mem_map_of_mem (selectOne_mem hsrc), hu, trivial⟩
  · obtain ⟨src, edited, hsrc, hedited, hconv, rfl⟩ := branchForEditPlan_ok h
    obtain ⟨hu, hid⟩ := selectOne_holds
      (p := fun c : Conversation => c.userId = u ∧ c.id = source) hsrc
    refine ⟨List.mem_map_of_mem (selectOne_mem hsrc), hu, ?_⟩
    have hown : db.NamesTurn turnId u src.id := by
      obtain ⟨htu, htid⟩ := selectOne_holds
        (p := fun t : Turn => t.userId = u ∧ t.id = turnId) hedited
      exact ⟨edited, selectOne_mem hedited, htid, htu, hconv.trans hid.symm⟩
    unfold resolveSlotAnchor
    dsimp only
    split
    · next anchor hanchor =>
      split
      · exact .inl hanchor
      · exact .inr hown
    · exact .inr hown

theorem Families.change {w w' : World} (h : Families w) (hchange : Change .lasting w w') :
    Families w' := by
  cases hchange with
  | keep hkeep hb =>
    exact h.lasts ⟨fun k hk => hkeep.kin ▸ hk, fun _ _ _ => hkeep.namesTurn⟩ hkeep.kin hb.nextId
      hb.plans
  | plan hread =>
    refine ⟨h.kinIds, h.kinBelow, h.rooted, h.descends, fun plan' hplan' => ?_⟩
    rcases List.mem_append.1 hplan' with hold | hnew
    · exact h.plans plan' hold
    · rw [List.mem_singleton.1 hnew]
      exact hread.anchors
  | converse u title agentArch agentVersion strict now =>
    have hkin := w.db.kin_insertConversation
      (rootConversation u title agentArch agentVersion strict w.nextId now)
    refine h.insert ⟨fun k hk => ?_, fun _ _ _ hn => hn⟩ hkin le_rfl (Nat.lt_succ_self _) rfl
      (.inl ⟨rfl, rfl, rfl⟩) fun _ hplan => hplan
    rw [createConversation, hkin]
    exact List.mem_append_left _ hk
  | start hstarts hticks hn hc hp =>
    have hlt : w.nextId + 1 < w'.nextId := by
      rw [hn]
      exact Nat.lt_succ_self _
    rcases hstarts.kin with hkin | ⟨rfl, hkin⟩
    · exact h.lasts ⟨fun k hk => hkin ▸ hk, fun _ _ _ => hstarts.namesTurn⟩ hkin
        ((Nat.le_succ _).trans hlt.le) (fun plan hplan => hp ▸ hplan)
    · exact h.insert ⟨fun k hk => by rw [hkin]; exact List.mem_append_left _ hk,
        fun _ _ _ => hstarts.namesTurn⟩ hkin (Nat.le_succ _) hlt rfl (.inl ⟨rfl, rfl, rfl⟩)
        fun plan hplan => hp ▸ hplan
  | finish hfin hb =>
    have hcl := hfin.closes
    exact h.lasts ⟨fun k hk => hcl.kin ▸ hk, fun _ _ _ => hcl.namesTurn⟩ hcl.kin hb.nextId hb.plans
  | branch hplan hcommit hn hc hp =>
    rename_i plan now
    have hbr := commitBranch_branched hcommit
    obtain ⟨hsource, hu, hkind⟩ := h.plans plan hplan
    have hlasts : w.db.Lasts w'.db :=
      ⟨fun k hk => by rw [hbr.kin_eq]; exact List.mem_append_left _ hk, fun _ _ _ => hbr.namesTurn⟩
    have hroot : (plan.child w.nextId now).kin.root = plan.source.kin.root := by
      obtain ⟨r, hr⟩ := Option.isSome_iff_exists.1 (h.rooted _ hsource)
      have hr' : plan.source.rootConversationId = some r := hr
      simp [BranchPlan.child, Conversation.kin, hr']
    refine h.insert hlasts hbr.kin_eq le_rfl ?_ rfl (.inr ⟨plan.source.kin, hlasts.kin _ hsource,
      rfl, hu, h.kinBelow _ hsource, hroot, fun s hs => ?_⟩) hp
    · rw [hn]
      exact lt_of_lt_of_le (Nat.lt_succ_self _) (Nat.le_add_right _ _)
    · cases hk : plan.kind with
      | fork => simp [BranchPlan.child, Conversation.kin, hk] at hs
      | edit turnId srcTurns cutoff anchor =>
        simp only [hk] at hkind
        obtain rfl : anchor = s := by simpa [BranchPlan.child, Conversation.kin, hk] using hs
        exact hkind.imp_right (hlasts.turns _ _ _)
  | delete c hB => exact absurd hB id

/-! ### The family and its slots -/

namespace Families

variable {w : World}

lemma row (h : Families w) {k k' : Kin} (hk : k ∈ w.db.kin) (hk' : k' ∈ w.db.kin)
    (hid : k.id = k'.id) : k = k' := h.kinIds.eq hk hk' hid

/-- Every walk up the parents ends, at the root that is recorded. -/
lemma exists_root (h : Families w) {k : Kin} (hk : k ∈ w.db.kin) :
    ∃ r, k.root = some r ∧ w.db.RootOf k.userId k.id r := by
  -- a parent was created before its child
  induction hn : k.id using Nat.strong_induction_on generalizing k with
  | _ n ih =>
    rcases h.descends k hk with ⟨hparent, hroot, -⟩ | ⟨p, hp, hparent, hu, hlt, hroot, -⟩
    · subst hn
      exact ⟨k.id, hroot, .refl, k, hk, rfl, rfl, hparent⟩
    · obtain ⟨r, hpr, hwalk, hend⟩ := ih p.id (hn ▸ hlt) hp rfl
      rw [hu] at hwalk hend
      subst hn
      exact ⟨r, hroot.trans hpr, hwalk.head ⟨k, hk, rfl, rfl, hparent⟩, hend⟩

/-- The root recorded on a conversation is where the walk up its parents ends. -/
lemma root_eq (h : Families w) {u : UserId} {c r : Id} (hr : w.db.RootOf u c r) {k : Kin}
    (hk : k ∈ w.db.kin) (hid : k.id = c) : k.root = some r := by
  obtain ⟨hwalk, e, he, -, heid, hend⟩ := hr
  induction hwalk using Relation.ReflTransGen.head_induction_on generalizing k with
  | refl =>
    obtain rfl := h.row hk he (hid.trans heid.symm)
    rcases h.descends k hk with ⟨-, hroot, -⟩ | ⟨p, -, hparent, -⟩
    · rw [hroot, hid]
    · rw [hend] at hparent
      cases hparent
  | head hchild _ ih =>
    obtain ⟨k', hk', -, hid', hparent'⟩ := hchild
    obtain rfl := h.row hk hk' (hid.trans hid'.symm)
    rcases h.descends k hk with ⟨hparent, -⟩ | ⟨p, hp, hparent, -, -, hroot, -⟩
    · rw [hparent] at hparent'
      cases hparent'
    · rw [hparent] at hparent'
      rw [hroot]
      exact ih hp (Option.some.inj hparent')

lemma exists_kin {u : UserId} {c r : Id} (hr : w.db.RootOf u c r) :
    ∃ k ∈ w.db.kin, k.userId = u ∧ k.id = c := by
  obtain ⟨hwalk, e, he, heu, heid, -⟩ := hr
  rcases hwalk.cases_head with rfl | ⟨_, ⟨k, hk, hu, hid, -⟩, -⟩
  · exact ⟨e, he, heu, heid⟩
  · exact ⟨k, hk, hu, hid⟩

/-- The conversations of one root are those recorded under it. -/
lemma sameFamily_iff (h : Families w) {k : Kin} (hk : k ∈ w.db.kin) {c : Id} :
    w.db.SameFamily k.userId k.id c ↔
      ∃ k' ∈ w.db.kin, k'.userId = k.userId ∧ k'.id = c ∧ k'.root = k.root := by
  constructor
  · rintro ⟨r, hkr, hcr⟩
    obtain ⟨k', hk', hu', hid'⟩ := exists_kin hcr
    exact ⟨k', hk', hu', hid', (h.root_eq hcr hk' hid').trans (h.root_eq hkr hk rfl).symm⟩
  · rintro ⟨k', hk', hu', rfl, hroot⟩
    obtain ⟨r, hr, hkr⟩ := h.exists_root hk
    obtain ⟨r', hr', hkr'⟩ := h.exists_root hk'
    obtain rfl := Option.some.inj (hr'.symm.trans (hroot.trans hr))
    exact ⟨r', hkr, hu' ▸ hkr'⟩

/-- Going up the parents of an edit branch along branches for one slot leads to the conversation
the slot belongs to. -/
lemma slot_owner (h : Families w) {k : Kin} (hk : k ∈ w.db.kin) {s : Id} (hs : k.slot = some s) :
    ∃ e ∈ w.db.kin, e.slot = some s ∧ e.root = k.root ∧ e.userId = k.userId ∧
      ∃ p ∈ w.db.kin, e.parent = some p.id ∧ p.root = k.root ∧ p.userId = k.userId ∧
        p.id ≠ e.id ∧ w.db.NamesTurn s k.userId p.id := by
  induction hn : k.id using Nat.strong_induction_on generalizing k with
  | _ n ih =>
    rcases h.descends k hk with ⟨-, -, hnone⟩ | ⟨p, hp, hparent, hu, hlt, hroot, hslot⟩
    · rw [hnone] at hs
      cases hs
    · rcases hslot s hs with hps | hown
      · obtain ⟨e, he, hes, her, heu, p', hp', hparent', hr', hu', hne, hown⟩ :=
          ih p.id (hn ▸ hlt) hp hps rfl
        rw [hu] at heu hu' hown
        exact ⟨e, he, hes, her.trans hroot.symm, heu, p', hp', hparent', hr'.trans hroot.symm, hu',
          hne, hown⟩
      · exact ⟨k, hk, hs, rfl, rfl, p, hp, hparent, hroot.symm, hu, hlt.ne, hown⟩

end Families

/-! ### The groups -/

lemma mem_familyRows {db : Db} {u : UserId} {root : Id} {c : Conversation} :
    c ∈ familyRows db u root ↔
      c ∈ db.conversations ∧ c.userId = u ∧ c.rootConversationId = some root := by
  simp [familyRows]

lemma mem_versionsOf {fam : List Conversation} {c : Conversation} {x : Id} :
    x ∈ versionsOf fam c ↔
      x = c.id ∨ c.parentConversationId = some x ∧ x ∈ fam.map (·.id) := by
  rw [versionsOf, List.mem_cons, Option.mem_toList, Option.filter_eq_some_iff]
  simp

lemma collects_versionGroups (fam : List Conversation) :
    Groups.Collects (·.editedSlotTurnId) (versionsOf fam) fam (versionGroups fam) :=
  Groups.collects_build _ _ fam

/-- The group of a slot is the conversation the slot belongs to and the edit branches for it. -/
lemma mem_versionGroups {w : World} (h : Families w) (hi : Integrity w) {u : UserId} {root : Id}
    {g : Id × List Id} (hg : g ∈ versionGroups (familyRows w.db u root)) {x : Id} :
    x ∈ g.2 ↔ w.db.NamesTurn g.1 u x ∨
      ∃ k ∈ w.db.kin, k.userId = u ∧ k.id = x ∧ k.root = some root ∧ k.slot = some g.1 := by
  have hspec := collects_versionGroups (familyRows w.db u root)
  have hrow : ∀ k ∈ w.db.kin, k.userId = u → k.root = some root →
      ∃ c ∈ familyRows w.db u root, c.kin = k := by
    intro k hk hu hroot
    obtain ⟨c, hc, rfl⟩ := List.mem_map.1 hk
    exact ⟨c, mem_familyRows.2 ⟨hc, hu, hroot⟩, rfl⟩
  rw [hspec.mem g hg]
  constructor
  · rintro ⟨c, hc, hslot, hx⟩
    obtain ⟨hmem, hu, hroot⟩ := mem_familyRows.1 hc
    have hkin : c.kin ∈ w.db.kin := List.mem_map_of_mem hmem
    rcases mem_versionsOf.1 hx with rfl | ⟨hparent, hfam⟩
    · exact .inr ⟨c.kin, hkin, hu, rfl, hroot, hslot⟩
    · rcases h.descends c.kin hkin with ⟨hnone, -⟩ | ⟨p, hp, hpar, hpu, -, hproot, hps⟩
      · have hnone' : c.parentConversationId = none := hnone
        rw [hnone'] at hparent
        cases hparent
      · have hid : p.id = x := Option.some.inj (hpar.symm.trans hparent)
        rcases hps g.1 hslot with hps | hown
        · exact .inr ⟨p, hp, hpu.trans hu, hid, hproot.symm.trans hroot, hps⟩
        · rw [← hid, ← hu]
          exact .inl hown
  · rintro (hown | ⟨k, hk, hu, rfl, hroot, hslot⟩)
    · -- the group was opened by an edit branch, and its slot has one owner
      obtain ⟨c, hc, hslot⟩ := (hspec.mem_keys g.1).1 (List.mem_map_of_mem hg)
      obtain ⟨hmem, hu, hroot⟩ := mem_familyRows.1 hc
      obtain ⟨e, he, hes, her, heu, p, hp, hparent, hpr, hpu, -, hpown⟩ :=
        h.slot_owner (List.mem_map_of_mem hmem) hslot
      obtain ⟨c', hc', rfl⟩ := hrow e he (heu.trans hu) (her.trans hroot)
      obtain ⟨cp, hcp, rfl⟩ := hrow p hp (hpu.trans hu) (hpr.trans hroot)
      have hx : cp.id = x := by
        obtain ⟨t, ht, htid, -, htc⟩ := hown
        obtain ⟨t', ht', htid', -, htc'⟩ := hpown
        obtain rfl := hi.turnIds.eq ht ht' (htid.trans htid'.symm)
        exact htc'.symm.trans htc
      subst hx
      exact ⟨c', hc', hes, mem_versionsOf.2 (.inr ⟨hparent, List.mem_map_of_mem hcp⟩)⟩
    · obtain ⟨c, hc, rfl⟩ := hrow k hk hu hroot
      exact ⟨c, hc, hslot, mem_versionsOf.2 (.inl rfl)⟩

/-- Each group has the branch that opened it and the conversation its slot belongs to. -/
lemma two_le_length_versionGroups {w : World} (h : Families w) (hi : Integrity w) {u : UserId}
    {root : Id} {g : Id × List Id} (hg : g ∈ versionGroups (familyRows w.db u root)) :
    2 ≤ g.2.length := by
  have hspec := collects_versionGroups (familyRows w.db u root)
  obtain ⟨c, hc, hslot⟩ := (hspec.mem_keys g.1).1 (List.mem_map_of_mem hg)
  obtain ⟨hmem, hu, hroot⟩ := mem_familyRows.1 hc
  obtain ⟨e, he, hes, her, heu, p, hp, hparent, hpr, hpu, hne, hpown⟩ :=
    h.slot_owner (List.mem_map_of_mem hmem) hslot
  have hp' : p.id ∈ g.2 := (mem_versionGroups h hi hg).2 (.inl (hu ▸ hpown))
  have he' : e.id ∈ g.2 :=
    (mem_versionGroups h hi hg).2 (.inr ⟨e, he, heu.trans hu, rfl, her.trans hroot, hes⟩)
  have hsub : [p.id, e.id] ⊆ g.2 := by
    intro x hx
    rcases List.mem_cons.1 hx with rfl | hx
    · exact hp'
    · rwa [List.mem_singleton.1 hx]
  have hnodup : [p.id, e.id].Nodup := by simp [hne]
  exact (List.subperm_of_subset hnodup hsub).length_le

/-! ### The map -/

/-- Ids of rows lead to the rows. -/
lemma map_id_filterMap_selectOne {fam : List Conversation} {ids : List Id}
    (h : ∀ i ∈ ids, i ∈ fam.map (·.id)) :
    (ids.filterMap fun i => selectOne (fun c : Conversation => c.id = i) fam).map (·.id) = ids := by
  induction ids with
  | nil => rfl
  | cons i ids ih =>
    obtain ⟨c₀, hc₀, hid₀⟩ := List.mem_map.1 (h i (by simp))
    have hsome : (selectOne (fun c : Conversation => c.id = i) fam).isSome :=
      selectOne_isSome.2 ⟨c₀, hc₀, hid₀⟩
    obtain ⟨c, hc⟩ := Option.isSome_iff_exists.1 hsome
    have hid : c.id = i := selectOne_holds (p := fun c : Conversation => c.id = i) hc
    simp only [List.filterMap_cons, hc, List.map_cons, hid]
    rw [ih fun j hj => h j (List.mem_cons_of_mem _ hj)]

lemma versionRows_ids {fam : List Conversation} {ids : List Id}
    (h : ∀ i ∈ ids, i ∈ fam.map (·.id)) :
    ((versionRows fam ids).map (·.conversationId)).Perm ids := by
  rw [versionRows, List.map_map]
  have hperm := (List.perm_insertionSort Conversation.NotAfter
    (ids.filterMap fun i => selectOne (fun c : Conversation => c.id = i) fam)).map (·.id)
  rw [map_id_filterMap_selectOne h] at hperm
  exact hperm

lemma mem_versionRows {fam : List Conversation} {ids : List Id} {v : Version}
    (hv : v ∈ versionRows fam ids) : ∃ c ∈ fam, v = c.version := by
  obtain ⟨c, hc, rfl⟩ := List.mem_map.1 hv
  obtain ⟨i, -, hi⟩ := List.mem_filterMap.1 ((List.perm_insertionSort _ _).mem_iff.1 hc)
  exact ⟨c, selectOne_mem hi, rfl⟩

/-- The action deletes no conversation and clears none. -/
def Action.DeletesNothing : Action → Prop
  | .clearConversation .. | .deleteConversation .. | .deleteAllUserData .. => False
  | _ => True

instance : DecidablePred Action.DeletesNothing := fun a => by
  cases a <;> unfold Action.DeletesNothing <;> infer_instance

lemma Action.DeletesNothing.within {a : Action} (h : a.DeletesNothing) (w : World) :
    w.Within .lasting a := by
  cases a with
  | startRequestTurn => exact fun hticks => absurd hticks id
  | clearConversation => exact h
  | deleteConversation => exact h
  | deleteAllUserData => exact h
  | _ => trivial

lemma families_after {as : List Action} (has : ∀ a ∈ as, a.DeletesNothing) :
    Families (World.after as) := by
  refine Runs.run_preserves_along (I := Families) (fun w a hw ha => ?_) families_empty
    (Runs.along_of_forall World.act _ has)
  exact (act_changes (ha.within w)).preserve (fun _ _ h hchange => h.change hchange) hw

/-- What the map of a conversation is read from. -/
lemma versionMap_eq {w : World} (h : Families w) (hi : Integrity w) {u : UserId} {cid r : Id}
    {c : Conversation} (hc : w.db.conversationOf u cid = some c)
    (hr : c.rootConversationId = some r) :
    versionMap w.db u cid = some ((versionGroups (familyRows w.db u r)).map
      fun g => (g.1, versionRows (familyRows w.db u r) g.2)) := by
  have hall : (versionGroups (familyRows w.db u r)).filter (fun g => 2 ≤ g.2.length) =
      versionGroups (familyRows w.db u r) := by
    rw [List.filter_eq_self]
    intro g hg
    exact decide_eq_true (two_le_length_versionGroups h hi hg)
  simp [versionMap, hc, hr, hall]

/-- The edit branches of a family, as they are recorded. -/
lemma Families.editBranch_iff {w : World} (h : Families w) {k : Kin} (hk : k ∈ w.db.kin)
    {c s : Id} :
    w.db.SameFamily k.userId k.id c ∧ w.db.EditBranch k.userId c s ↔
      ∃ k' ∈ w.db.kin, k'.userId = k.userId ∧ k'.id = c ∧ k'.root = k.root ∧ k'.slot = some s := by
  rw [h.sameFamily_iff hk]
  constructor
  · rintro ⟨⟨k', hk', hu', hid', hroot⟩, k'', hk'', -, hid'', hslot⟩
    obtain rfl := h.row hk' hk'' (hid'.trans hid''.symm)
    exact ⟨k', hk', hu', hid', hroot, hslot⟩
  · rintro ⟨k', hk', hu', hid', hroot, hslot⟩
    exact ⟨⟨k', hk', hu', hid', hroot⟩, k', hk', hu', hid', hslot⟩

/-- The slots of the groups. -/
lemma mem_versionGroups_slots {db : Db} {u : UserId} {root s : Id} :
    s ∈ (versionGroups (familyRows db u root)).map Prod.fst ↔
      ∃ k ∈ db.kin, k.userId = u ∧ k.root = some root ∧ k.slot = some s := by
  rw [(collects_versionGroups (familyRows db u root)).mem_keys]
  constructor
  · rintro ⟨c, hc, hslot⟩
    obtain ⟨hmem, hu, hroot⟩ := mem_familyRows.1 hc
    exact ⟨c.kin, List.mem_map_of_mem hmem, hu, hroot, hslot⟩
  · rintro ⟨k, hk, hu, hroot, hslot⟩
    obtain ⟨c, hc, rfl⟩ := List.mem_map.1 hk
    exact ⟨c, mem_familyRows.2 ⟨hc, hu, hroot⟩, hslot⟩

/-- The members of a group are of the family. -/
lemma versionGroups_subset {db : Db} {u : UserId} {root : Id} {g : Id × List Id}
    (hg : g ∈ versionGroups (familyRows db u root)) :
    ∀ x ∈ g.2, x ∈ (familyRows db u root).map (·.id) := by
  intro x hx
  obtain ⟨c, hc, -, hx⟩ := ((collects_versionGroups (familyRows db u root)).mem g hg x).1 hx
  rcases mem_versionsOf.1 hx with rfl | ⟨-, hfam⟩
  · exact List.mem_map_of_mem hc
  · exact hfam

/-- A row of a family is what its id leads to. -/
lemma Families.conversationOf {w : World} (h : Families w) {u : UserId} {root : Id}
    {c : Conversation} (hc : c ∈ familyRows w.db u root) : w.db.conversationOf u c.id = some c := by
  obtain ⟨hmem, hu, -⟩ := mem_familyRows.1 hc
  have hids : Keyed (fun c : Conversation => c.id) w.db.conversations := by
    have hkin := h.kinIds
    rw [Keyed, Db.kin, List.map_map] at hkin
    exact hkin
  have hsome : (selectOne (fun c' : Conversation => c'.userId = u ∧ c'.id = c.id)
      w.db.conversations).isSome := selectOne_isSome.2 ⟨c, hmem, hu, rfl⟩
  obtain ⟨c', hc'⟩ := Option.isSome_iff_exists.1 hsome
  have hid := (selectOne_holds
    (p := fun c' : Conversation => c'.userId = u ∧ c'.id = c.id) hc').2
  rw [hids.eq (selectOne_mem hc') hmem hid] at hc'
  exact hc'

/-- The switcher of a family. Any member has the same map. Its slots are those some edit branch of
the family was made for, and the versions of a slot are the conversation that has the turn and the
edit branches of the family made for it, each once. -/
theorem version_map_family (as : List Action) (has : ∀ a ∈ as, a.DeletesNothing) (u : UserId)
    (cid : Id) (hbase : ((World.after as).db.conversationOf u cid).isSome) :
    let db := (World.after as).db
    ∃ groups, versionMap db u cid = some groups ∧
      (∀ cid', db.SameFamily u cid cid' → versionMap db u cid' = some groups) ∧
      (groups.map Prod.fst).Nodup ∧
      (∀ slot, slot ∈ groups.map Prod.fst ↔
        ∃ c, db.SameFamily u cid c ∧ db.EditBranch u c slot) ∧
      ∀ g ∈ groups, 2 ≤ g.2.length ∧ (g.2.map (·.conversationId)).Nodup ∧
        (∀ c, c ∈ g.2.map (·.conversationId) ↔
          db.NamesTurn g.1 u c ∨ (db.SameFamily u cid c ∧ db.EditBranch u c g.1)) ∧
        ∀ v ∈ g.2, ∃ c, db.conversationOf u v.conversationId = some c ∧ v = c.version := by
  intro db
  have h : Families (World.after as) := families_after has
  have hi : Integrity (World.after as) := integrity_after as
  obtain ⟨base, hc⟩ := Option.isSome_iff_exists.1 hbase
  have hkin : base.kin ∈ db.kin := List.mem_map_of_mem (selectOne_mem hc)
  obtain ⟨hu, hid⟩ := selectOne_holds
    (p := fun c : Conversation => c.userId = u ∧ c.id = cid) hc
  obtain ⟨r, hr⟩ := Option.isSome_iff_exists.1 (h.rooted _ hkin)
  subst hu
  subst hid
  have hbranch : ∀ c s, db.SameFamily base.userId base.id c ∧ db.EditBranch base.userId c s ↔
      ∃ k ∈ db.kin, k.userId = base.userId ∧ k.id = c ∧ k.root = some r ∧ k.slot = some s := by
    intro c s
    rw [← hr]
    exact h.editBranch_iff hkin
  refine ⟨_, versionMap_eq h hi hc hr, ?_, ?_, ?_, ?_⟩
  · intro cid' hfam
    obtain ⟨k', hk', hu', rfl, hroot'⟩ := (h.sameFamily_iff hkin).1 hfam
    obtain ⟨c', hc', rfl⟩ := List.mem_map.1 hk'
    have hrow : c' ∈ familyRows db base.userId r :=
      mem_familyRows.2 ⟨hc', hu', hroot'.trans hr⟩
    exact versionMap_eq h hi (h.conversationOf hrow) (hroot'.trans hr)
  · rw [List.map_map]
    exact (collects_versionGroups (familyRows db base.userId r)).keys
  · intro s
    rw [List.map_map]
    refine mem_versionGroups_slots.trans ?_
    simp only [hbranch]
    constructor
    · rintro ⟨k, hk, hu', hroot, hslot⟩
      exact ⟨k.id, k, hk, hu', rfl, hroot, hslot⟩
    · rintro ⟨c, k, hk, hu', -, hroot, hslot⟩
      exact ⟨k, hk, hu', hroot, hslot⟩
  · intro g hg
    obtain ⟨g₀, hg₀, rfl⟩ := List.mem_map.1 hg
    have hperm := versionRows_ids (versionGroups_subset hg₀)
    have hnodup : g₀.2.Nodup :=
      (collects_versionGroups (familyRows db base.userId r)).nodup g₀ hg₀
    refine ⟨?_, hperm.nodup_iff.2 hnodup, fun c => ?_, fun v hv => ?_⟩
    · have hlen := hperm.length_eq
      rw [List.length_map] at hlen
      exact hlen ▸ two_le_length_versionGroups h hi hg₀
    · rw [hperm.mem_iff, hbranch]
      exact mem_versionGroups h hi hg₀
    · obtain ⟨c, hc', rfl⟩ := mem_versionRows hv
      exact ⟨c, h.conversationOf hc', rfl⟩

theorem version_map_family_edited :
    ((World.after (sampleRun ++ [.planEdit sampleStart.userId 1 0 none none,
      .commitBranch 2 0])).db.conversationOf sampleStart.userId 1).isSome ∧
    ∃ groups, versionMap (World.after (sampleRun ++ [.planEdit sampleStart.userId 1 0 none none,
      .commitBranch 2 0])).db sampleStart.userId 1 = some groups ∧
      ∀ g ∈ groups, 2 ≤ g.2.length := by
  have hbase : ((World.after (sampleRun ++ [.planEdit sampleStart.userId 1 0 none none,
      .commitBranch 2 0])).db.conversationOf sampleStart.userId 1).isSome := by decide +kernel
  obtain ⟨groups, heq, -, -, -, hgroups⟩ := version_map_family
    (sampleRun ++ [.planEdit sampleStart.userId 1 0 none none, .commitBranch 2 0])
    (by decide +kernel) sampleStart.userId 1 hbase
  exact ⟨hbase, groups, heq, fun g hg => (hgroups g hg).1⟩

end RentCompass.Store
