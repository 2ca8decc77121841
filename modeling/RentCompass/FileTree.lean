import RentCompass.Stateful
import RentCompass.Text
import Mathlib.Algebra.GroupWithZero.Nat

/-!
# File trees

A file system as the tree of its entries under resolved absolute paths, and the calls that add to
it: `mkdir` and an exclusive `open`. Neither replaces an entry, so the entries stand in the order
they were created and a later tree is the earlier one with new entries behind it.
-/

/-- A resolved absolute path: the names from the root on. -/
abbrev FileTree.Path := List Text

instance : LawfulBEq FileTree.Path := inferInstance

inductive FileTree.Node where
  | dir
  | file (bytes : List Nat)
  /-- A symbolic link, a device, a socket. -/
  | special
  deriving DecidableEq

open FileTree (Path Node)

structure FileTree where
  entries : List (Path × Node)
  distinct : (entries.map (·.1)).Nodup
  rooted : ∀ e ∈ entries, e.1 ≠ [] ∧ (e.1.dropLast = [] ∨ (e.1.dropLast, Node.dir) ∈ entries)

namespace FileTree

/-- The tree with nothing below the root. -/
def empty : FileTree := ⟨[], by simp, by simp⟩

/-- What stands at a path; the root is a directory. -/
def node? (fs : FileTree) (p : Path) : Option Node :=
  if p = [] then some .dir else fs.entries.lookup p

variable {fs fs' fs'' : FileTree} {p q : Path} {n m : Node}

lemma lookup_eq_some {α β : Type} [BEq α] [LawfulBEq α] {l : List (α × β)}
    (h : (l.map (·.1)).Nodup) {a : α} {b : β} : l.lookup a = some b ↔ (a, b) ∈ l := by
  induction l with
  | nil => simp
  | cons x l ih =>
    obtain ⟨k, v⟩ := x
    obtain ⟨hk, hl⟩ := List.nodup_cons.1 h
    rw [List.lookup_cons, List.mem_cons, Prod.mk.injEq]
    by_cases hak : a = k
    · subst hak
      have hout : (a, b) ∉ l := fun hm => hk (List.mem_map_of_mem (f := (·.1)) hm)
      simp [hout, eq_comm]
    · have hne : (a == k) = false := by simpa using hak
      simp [hak, hne, ih hl]

lemma lookup_eq_none {α β : Type} [BEq α] [LawfulBEq α] {l : List (α × β)} {a : α} :
    l.lookup a = none ↔ a ∉ l.map (·.1) := by
  induction l with
  | nil => simp
  | cons x l ih =>
    obtain ⟨k, v⟩ := x
    rw [List.lookup_cons, List.map_cons, List.mem_cons]
    by_cases hak : a = k
    · simp [hak]
    · have hne : (a == k) = false := by simpa using hak
      simp [hak, hne, ih]

@[simp] lemma node?_nil (fs : FileTree) : fs.node? [] = some .dir := rfl

lemma ne_nil_of_mem (h : (p, n) ∈ fs.entries) : p ≠ [] := (fs.rooted _ h).1

lemma node?_eq_some (hp : p ≠ []) : fs.node? p = some n ↔ (p, n) ∈ fs.entries := by
  rw [node?, if_neg hp, lookup_eq_some fs.distinct]

lemma node?_of_mem (h : (p, n) ∈ fs.entries) : fs.node? p = some n :=
  (node?_eq_some (ne_nil_of_mem h)).2 h

lemma node?_eq_none : fs.node? p = none ↔ p ≠ [] ∧ p ∉ fs.entries.map (·.1) := by
  by_cases hp : p = []
  · simp [hp]
  · rw [node?, if_neg hp, lookup_eq_none]
    simp [hp]

/-- The directory of an entry is one. -/
lemma node?_dropLast (h : fs.node? p ≠ none) : fs.node? p.dropLast = some .dir := by
  by_cases hp : p = []
  · simp [hp]
  · obtain ⟨n, hn⟩ := Option.ne_none_iff_exists'.1 h
    rcases (fs.rooted _ ((node?_eq_some hp).1 hn)).2 with hroot | hdir
    · simp only at hroot
      simp [hroot]
    · exact node?_of_mem hdir

/-- Every path above an entry is a directory. -/
lemma node?_above (h : fs.node? p ≠ none) (hq : q <+: p) (hne : q ≠ p) :
    fs.node? q = some .dir := by
  induction p using List.reverseRecOn with
  | nil => exact absurd (List.prefix_nil.1 hq) hne
  | append_singleton p x ih =>
    have hdir := node?_dropLast h
    rw [List.dropLast_concat] at hdir
    rcases List.prefix_concat_iff.1 hq with rfl | hq
    · exact absurd rfl hne
    · by_cases hqp : q = p
      · rw [hqp, hdir]
      · exact ih (by simp [hdir]) hq hqp

/-- A path below one that is absent is absent. -/
lemma node?_eq_none_below (h : fs.node? q = none) (hq : q <+: p) : fs.node? p = none := by
  by_contra hp
  by_cases hqp : q = p
  · exact hp (hqp ▸ h)
  · rw [node?_above hp hq hqp] at h
    cases h

/-! ### New entries -/

/-- The tree with one more entry. -/
def create (fs : FileTree) (p : Path) (n : Node) (hnew : fs.node? p = none)
    (hparent : fs.node? p.dropLast = some .dir) : FileTree where
  entries := fs.entries ++ [(p, n)]
  distinct := by
    have hp := (node?_eq_none.1 hnew).2
    rw [List.map_append, List.nodup_append]
    refine ⟨fs.distinct, by simp, ?_⟩
    rintro q hq _ hq' rfl
    simp only [List.map_cons, List.map_nil, List.mem_singleton] at hq'
    exact hp (hq' ▸ hq)
  rooted := by
    intro e he
    rcases List.mem_append.1 he with he | he
    · obtain ⟨hne, hdir⟩ := fs.rooted e he
      exact ⟨hne, hdir.imp_right (List.mem_append_left _)⟩
    · cases List.mem_singleton.1 he
      refine ⟨(node?_eq_none.1 hnew).1, ?_⟩
      by_cases hroot : p.dropLast = []
      · exact .inl hroot
      · exact .inr (List.mem_append_left _ ((node?_eq_some hroot).1 hparent))

/-- The later tree is the earlier one with new entries that satisfy `P`. -/
def Grows (P : Path × Node → Prop) (fs fs' : FileTree) : Prop :=
  ∃ created, fs'.entries = fs.entries ++ created ∧ ∀ e ∈ created, P e

variable {P Q : Path × Node → Prop}

lemma Grows.refl (P : Path × Node → Prop) (fs : FileTree) : Grows P fs fs :=
  ⟨[], by simp, by simp⟩

lemma Grows.trans (h : Grows P fs fs') (h' : Grows P fs' fs'') : Grows P fs fs'' := by
  obtain ⟨c, hc, hP⟩ := h
  obtain ⟨c', hc', hP'⟩ := h'
  refine ⟨c ++ c', by rw [hc', hc, List.append_assoc], ?_⟩
  intro e he
  exact (List.mem_append.1 he).elim (hP e) (hP' e)

/-- New entries stand at paths that were free, each at its own. -/
lemma fresh_of_append {created : List (Path × Node)} (h : fs'.entries = fs.entries ++ created) :
    (created.map (·.1)).Nodup ∧ ∀ e ∈ created, fs.node? e.1 = none := by
  have hdistinct := fs'.distinct
  rw [h, List.map_append, List.nodup_append] at hdistinct
  refine ⟨hdistinct.2.1, fun e he => node?_eq_none.2 ⟨?_, fun hold => ?_⟩⟩
  · exact (fs'.rooted e (h ▸ List.mem_append_right _ he)).1
  · exact hdistinct.2.2 _ hold e.1 (List.mem_map_of_mem he) rfl

lemma Grows.imp (h : Grows P fs fs') (hPQ : ∀ e, fs.node? e.1 = none → P e → Q e) :
    Grows Q fs fs' := by
  obtain ⟨c, hc, hP⟩ := h
  exact ⟨c, hc, fun e he => hPQ e ((fresh_of_append hc).2 e he) (hP e he)⟩

lemma Grows.node?_of_some (h : Grows P fs fs') (hp : fs.node? p = some n) :
    fs'.node? p = some n := by
  obtain ⟨c, hc, -⟩ := h
  by_cases hroot : p = []
  · subst hroot
    exact hp
  · rw [node?_eq_some hroot] at hp ⊢
    exact hc ▸ List.mem_append_left _ hp

/-- What is there now and was not is one of the new entries. -/
lemma Grows.of_node? (h : Grows P fs fs') (hold : fs.node? p = none) (hp : fs'.node? p = some n) :
    P (p, n) := by
  obtain ⟨c, hc, hP⟩ := h
  have hroot := (node?_eq_none.1 hold).1
  rw [node?_eq_some hroot, hc] at hp
  rcases List.mem_append.1 hp with hp | hp
  · rw [node?_of_mem hp] at hold
    cases hold
  · exact hP _ hp

lemma grows_create {hnew : fs.node? p = none} {hparent : fs.node? p.dropLast = some .dir}
    (h : P (p, n)) : Grows P fs (fs.create p n hnew hparent) :=
  ⟨[(p, n)], rfl, by simpa using h⟩

@[simp] lemma node?_create_self {hnew : fs.node? p = none}
    {hparent : fs.node? p.dropLast = some .dir} :
    (fs.create p n hnew hparent).node? p = some n :=
  (node?_eq_some (node?_eq_none.1 hnew).1).2 (List.mem_append_right _ (by simp))

/-! ### Calls -/

inductive OsError where
  | exists
  | notFound
  | notDirectory
  /-- Anything else: the name is too long, the disk is full, the process may not. -/
  | refused
  deriving DecidableEq

/-- What the operating system grants. -/
structure Host where
  /-- A directory or a file may be created at the path. -/
  creates : Path → Bool
  /-- How many of the bytes the file at the path takes, where it does not take them all. -/
  stores : Path → List Nat → Option Nat
  /-- The mode of the path may be changed. -/
  chmod : Path → Bool

/-- The host that grants everything. -/
def Host.willing : Host where
  creates _ := true
  stores _ _ := none
  chmod _ := true

/-- `os.mkdir`. -/
def osMkdir (host : Host) (p : Path) : EStateM OsError FileTree Unit := fun fs =>
  if hnew : fs.node? p = none then
    if hparent : fs.node? p.dropLast = some .dir then
      if host.creates p then .ok () (fs.create p .dir hnew hparent) else .error .refused fs
    else .error (if fs.node? p.dropLast = none then .notFound else .notDirectory) fs
  else .error .exists fs

/-- `path.mkdir(exist_ok=existOk)`. -/
def mkdirHere (host : Host) (existOk : Bool) (p : Path) : EStateM OsError FileTree Unit := fun fs =>
  match osMkdir host p fs with
  | .ok () fs' => .ok () fs'
  | .error e fs' => if existOk ∧ fs'.node? p = some .dir then .ok () fs' else .error e fs'

/-- `path.mkdir(parents=True, exist_ok=existOk)`, for a path of at most so many names. -/
def mkdirParents (host : Host) : Nat → Bool → Path → EStateM OsError FileTree Unit
  | 0, existOk, p => mkdirHere host existOk p
  | k + 1, existOk, p => fun fs =>
    match osMkdir host p fs with
    | .ok () fs' => .ok () fs'
    | .error .notFound fs' =>
      (mkdirParents host k true p.dropLast >>= fun () => mkdirHere host existOk p) fs'
    | .error e fs' => if existOk ∧ fs'.node? p = some .dir then .ok () fs' else .error e fs'

/-- `path.mkdir(parents=True, exist_ok=existOk)`. -/
def mkdir (host : Host) (existOk : Bool) (p : Path) : EStateM OsError FileTree Unit :=
  mkdirParents host p.length existOk p

/-- `with path.open("xb")`, and the writes to it. -/
def writeNew (host : Host) (p : Path) (bytes : List Nat) : EStateM OsError FileTree Unit := fun fs =>
  if hnew : fs.node? p = none then
    if hparent : fs.node? p.dropLast = some .dir then
      if host.creates p then
        match host.stores p bytes with
        | none => .ok () (fs.create p (.file bytes) hnew hparent)
        | some k => .error .refused (fs.create p (.file (bytes.take k)) hnew hparent)
      else .error .refused fs
    else .error (if fs.node? p.dropLast = none then .notFound else .notDirectory) fs
  else .error .exists fs

/-- `os.chmod`; the tree does not hold modes. -/
def chmod (host : Host) (p : Path) : EStateM OsError FileTree Unit := fun fs =>
  if host.chmod p then .ok () fs else .error .refused fs

/-! ### What the calls add -/

/-- A directory on the way to a path. -/
def OnTheWay (p : Path) (e : Path × Node) : Prop := e.1 <+: p ∧ e.2 = .dir

lemma OnTheWay.of_dropLast {e : Path × Node} (h : OnTheWay p.dropLast e) : OnTheWay p e :=
  ⟨h.1.trans ( List.dropLast_prefix p), h.2⟩

lemma osMkdir_meets (host : Host) (p : Path) (fs : FileTree) :
    (osMkdir host p).Meets fs
      (fun _ fs' => fs.node? p = none ∧ Grows (OnTheWay p) fs fs' ∧ fs'.node? p = some .dir)
      (fun fs' => fs' = fs) := by
  unfold EStateM.Meets osMkdir
  by_cases hnew : fs.node? p = none
  · by_cases hparent : fs.node? p.dropLast = some .dir
    · cases host.creates p
      · simp [hnew, hparent]
      · simp only [hnew, hparent, dif_pos, if_true]
        exact ⟨trivial, grows_create ⟨p.prefix_refl, rfl⟩, node?_create_self⟩
    · simp [hnew, hparent]
  · simp [hnew]

lemma mkdirHere_meets (host : Host) (existOk : Bool) (p : Path) (fs : FileTree) :
    (mkdirHere host existOk p).Meets fs
      (fun _ fs' => Grows (OnTheWay p) fs fs' ∧ fs'.node? p = some .dir ∧
        (existOk = false → fs.node? p = none))
      (Grows (OnTheWay p) fs) := by
  have h := osMkdir_meets host p fs
  unfold EStateM.Meets at h ⊢
  unfold mkdirHere
  cases hres : osMkdir host p fs with
  | ok u fs' =>
    rw [hres] at h
    exact ⟨h.2.1, h.2.2, fun _ => h.1⟩
  | error e fs' =>
    rw [hres] at h
    obtain rfl := h
    by_cases hok : existOk = true ∧ fs'.node? p = some .dir
    · simp only [if_pos hok]
      exact ⟨.refl _ _, hok.2, by simp [hok.1]⟩
    · simp only [if_neg hok]
      exact .refl _ _

/-- `mkdir` adds directories on the way to the path and nothing else. -/
lemma mkdirParents_meets (host : Host) (k : Nat) (existOk : Bool) (p : Path) (fs : FileTree) :
    (mkdirParents host k existOk p).Meets fs
      (fun _ fs' => Grows (OnTheWay p) fs fs' ∧ fs'.node? p = some .dir ∧
        (existOk = false → fs.node? p = none))
      (Grows (OnTheWay p) fs) := by
  induction k generalizing existOk p fs with
  | zero => exact mkdirHere_meets host existOk p fs
  | succ k ih =>
    have h := osMkdir_meets host p fs
    unfold EStateM.Meets at h ⊢
    unfold mkdirParents
    cases hres : osMkdir host p fs with
    | ok u fs' =>
      rw [hres] at h
      exact ⟨h.2.1, h.2.2, fun _ => h.1⟩
    | error e fs' =>
      rw [hres] at h
      obtain rfl := h
      have hexists : e ≠ .notFound →
          EStateM.Meets (fun fs' => if existOk ∧ fs'.node? p = some .dir then .ok () fs'
            else .error e fs') fs'
            (fun _ fs'' => Grows (OnTheWay p) fs' fs'' ∧ fs''.node? p = some .dir ∧
              (existOk = false → fs'.node? p = none))
            (Grows (OnTheWay p) fs') := by
        intro _
        unfold EStateM.Meets
        by_cases hok : existOk = true ∧ fs'.node? p = some .dir
        · simp only [if_pos hok]
          exact ⟨.refl _ _, hok.2, by simp [hok.1]⟩
        · simp only [if_neg hok]
          exact .refl _ _
      cases e with
      | notFound =>
        -- the parent is made first; a path that is still absent was absent before
        refine (EStateM.meets_bind (Q := _)).2 ?_
        refine (ih true p.dropLast fs').imp ?_ ?_
        · rintro ⟨⟩ fs₁ ⟨hgrow, -, -⟩
          have hgrow := hgrow.imp fun e _ he => he.of_dropLast
          refine (mkdirHere_meets host existOk p fs₁).imp ?_ ?_
          · rintro ⟨⟩ fs₂ ⟨hgrow', hdir, hnew⟩
            refine ⟨hgrow.trans hgrow', hdir, fun hok => ?_⟩
            by_contra hold
            obtain ⟨n, hn⟩ := Option.ne_none_iff_exists'.1 hold
            rw [hgrow.node?_of_some hn] at hnew
            exact absurd (hnew hok) (by simp)
          · exact fun fs₂ hgrow' => hgrow.trans hgrow'
        · exact fun fs₁ hgrow => hgrow.imp fun e _ he => he.of_dropLast
      | «exists» => exact hexists (by simp)
      | notDirectory => exact hexists (by simp)
      | refused => exact hexists (by simp)

lemma mkdir_meets (host : Host) (existOk : Bool) (p : Path) (fs : FileTree) :
    (mkdir host existOk p).Meets fs
      (fun _ fs' => Grows (OnTheWay p) fs fs' ∧ fs'.node? p = some .dir ∧
        (existOk = false → fs.node? p = none))
      (Grows (OnTheWay p) fs) :=
  mkdirParents_meets host p.length existOk p fs

/-- A file holds a beginning of what was to be written, and all of it where the write succeeds. -/
lemma writeNew_meets (host : Host) (p : Path) (bytes : List Nat) (fs : FileTree) :
    (writeNew host p bytes).Meets fs
      (fun _ fs' => fs.node? p = none ∧ fs'.entries = fs.entries ++ [(p, .file bytes)])
      (fun fs' => fs' = fs ∨ ∃ part, part <+: bytes ∧ fs.node? p = none ∧
        fs'.entries = fs.entries ++ [(p, .file part)]) := by
  unfold EStateM.Meets writeNew
  by_cases hnew : fs.node? p = none
  · by_cases hparent : fs.node? p.dropLast = some .dir
    · cases host.creates p
      · simp [hnew, hparent]
      · cases host.stores p bytes with
        | none =>
          simp only [hnew, hparent, dif_pos, if_true]
          exact ⟨trivial, rfl⟩
        | some k =>
          simp only [hnew, hparent, dif_pos, if_true]
          exact .inr ⟨bytes.take k, bytes.take_prefix k, trivial, rfl⟩
    · simp [hnew, hparent]
  · simp [hnew]

lemma chmod_meets (host : Host) (p : Path) (fs : FileTree) :
    (chmod host p).Meets fs (fun _ fs' => fs' = fs) (fun fs' => fs' = fs) := by
  unfold EStateM.Meets chmod
  cases host.chmod p
  · simp
  · simp

/-! ### What stands where afterwards -/

/-- The later tree is the earlier one with these nodes. -/
structure Adds (G : Path → Node → Prop) (fs fs' : FileTree) : Prop where
  keeps : ∀ q m, fs.node? q = some m → fs'.node? q = some m
  adds : ∀ q m, G q m → fs'.node? q = some m
  only : ∀ q m, fs'.node? q = some m → fs.node? q = some m ∨ G q m

section Adds

variable {G H : Path → Node → Prop}

lemma Adds.refl (fs : FileTree) : Adds (fun _ _ => False) fs fs :=
  ⟨fun _ _ h => h, fun _ _ h => h.elim, fun _ _ h => .inl h⟩

lemma Adds.trans (h : Adds G fs fs') (h' : Adds H fs' fs'') :
    Adds (fun q m => G q m ∨ H q m) fs fs'' where
  keeps q m hq := h'.keeps q m (h.keeps q m hq)
  adds q m hG := hG.elim (fun hG => h'.keeps q m (h.adds q m hG)) (h'.adds q m)
  only q m hq := by
    rcases h'.only q m hq with hq | hH
    · exact (h.only q m hq).imp_right .inl
    · exact .inr (.inr hH)

lemma Adds.congr (h : Adds G fs fs') (hGH : ∀ q m, G q m ↔ H q m) : Adds H fs fs' where
  keeps := h.keeps
  adds q m hH := h.adds q m ((hGH q m).2 hH)
  only q m hq := (h.only q m hq).imp_right (hGH q m).1

/-- A loop adds what its turns add. -/
lemma Adds.of_forM {α ε : Type} {f : α → EStateM ε FileTree Unit} {g : α → Path → Node → Prop}
    {l : List α} (hf : ∀ a ∈ l, ∀ fs fs', f a fs = .ok () fs' → Adds (g a) fs fs')
    (h : l.forM f fs = .ok () fs') : Adds (fun q m => ∃ a ∈ l, g a q m) fs fs' := by
  induction l generalizing fs with
  | nil =>
    cases h
    exact (Adds.refl _).congr (by simp)
  | cons a l ih =>
    have hcons : (a :: l).forM f = f a >>= fun _ => l.forM f := rfl
    rw [hcons, EStateM.bind_eq_ok] at h
    obtain ⟨⟨⟩, fs₁, ha, hl⟩ := h
    refine ((hf a (by simp) _ _ ha).trans (ih (fun b hb => hf b (by simp [hb])) hl)).congr ?_
    simp

lemma adds_of_onTheWay (h : Grows (OnTheWay p) fs fs') (hdir : fs'.node? p = some .dir) :
    Adds (fun q m => q <+: p ∧ m = .dir) fs fs' where
  keeps q m hq := h.node?_of_some hq
  adds q m := by
    rintro ⟨hq, rfl⟩
    by_cases hqp : q = p
    · rw [hqp, hdir]
    · exact node?_above (by simp [hdir]) hq hqp
  only q m hq := by
    cases hold : fs.node? q with
    | none => exact .inr (h.of_node? hold hq)
    | some m' =>
      rw [h.node?_of_some hold] at hq
      exact .inl hq

lemma adds_of_mkdir {host : Host} {existOk : Bool} (h : mkdir host existOk p fs = .ok () fs') :
    Adds (fun q m => q <+: p ∧ m = .dir) fs fs' := by
  obtain ⟨hgrow, hdir, -⟩ := (EStateM.meets_of_ok h).1 (mkdir_meets host existOk p fs)
  exact adds_of_onTheWay hgrow hdir

lemma adds_of_mkdirHere {host : Host} {existOk : Bool}
    (h : mkdirHere host existOk p fs = .ok () fs') :
    Adds (fun q m => q <+: p ∧ m = .dir) fs fs' := by
  obtain ⟨hgrow, hdir, -⟩ := (EStateM.meets_of_ok h).1 (mkdirHere_meets host existOk p fs)
  exact adds_of_onTheWay hgrow hdir

lemma adds_of_entries (hp : p ≠ []) (h : fs'.entries = fs.entries ++ [(p, n)]) :
    Adds (fun q m => q = p ∧ m = n) fs fs' := by
  have hgrow : Grows (fun e => e = (p, n)) fs fs' := ⟨_, h, by simp⟩
  refine ⟨fun q m hq => hgrow.node?_of_some hq, ?_, fun q m hq => ?_⟩
  · rintro q m ⟨rfl, rfl⟩
    exact (node?_eq_some hp).2 (h ▸ List.mem_append_right _ (by simp))
  · cases hold : fs.node? q with
    | none => exact .inr (Prod.mk.injEq _ _ _ _ ▸ hgrow.of_node? hold hq)
    | some m' =>
      rw [hgrow.node?_of_some hold] at hq
      exact .inl hq

lemma adds_of_writeNew {host : Host} {bytes : List Nat}
    (h : writeNew host p bytes fs = .ok () fs') :
    Adds (fun q m => q = p ∧ m = .file bytes) fs fs' := by
  obtain ⟨hnew, hentries⟩ := (EStateM.meets_of_ok h).1 (writeNew_meets host p bytes fs)
  exact adds_of_entries (node?_eq_none.1 hnew).1 hentries

end Adds

/-! ### Calls that are granted -/

lemma osMkdir_willing (hnew : fs.node? p = none) (hparent : fs.node? p.dropLast = some .dir) :
    osMkdir .willing p fs = .ok () (fs.create p .dir hnew hparent) := by
  rw [osMkdir, dif_pos hnew, dif_pos hparent]
  rfl

lemma osMkdir_of_exists (host : Host) (h : fs.node? p ≠ none) :
    osMkdir host p fs = .error .exists fs := by
  rw [osMkdir, dif_neg h]

lemma mkdir_willing (existOk : Bool) (hnew : fs.node? p = none)
    (hparent : fs.node? p.dropLast = some .dir) :
    mkdir .willing existOk p fs = .ok () (fs.create p .dir hnew hparent) := by
  obtain ⟨k, hk⟩ : ∃ k, p.length = k + 1 :=
    Nat.exists_eq_succ_of_ne_zero (mt List.length_eq_zero_iff.1 (node?_eq_none.1 hnew).1)
  simp only [mkdir, hk, mkdirParents, osMkdir_willing hnew hparent]

lemma mkdirHere_willing (existOk : Bool) (hnew : fs.node? p = none)
    (hparent : fs.node? p.dropLast = some .dir) :
    mkdirHere .willing existOk p fs = .ok () (fs.create p .dir hnew hparent) := by
  simp only [mkdirHere, osMkdir_willing hnew hparent]

/-- `mkdir(exist_ok=True)` of a directory does nothing. -/
lemma mkdir_of_dir (host : Host) (h : fs.node? p = some .dir) :
    mkdir host true p fs = .ok () fs := by
  have hexists : osMkdir host p fs = .error .exists fs := osMkdir_of_exists host (by simp [h])
  cases hk : p.length with
  | zero => simp [mkdir, hk, mkdirParents, mkdirHere, hexists, h]
  | succ k => simp [mkdir, hk, mkdirParents, hexists, h]

lemma writeNew_willing (bytes : List Nat) (hnew : fs.node? p = none)
    (hparent : fs.node? p.dropLast = some .dir) :
    writeNew .willing p bytes fs = .ok () (fs.create p (.file bytes) hnew hparent) := by
  rw [writeNew, dif_pos hnew, dif_pos hparent]
  rfl

lemma chmod_willing (p : Path) (fs : FileTree) : chmod .willing p fs = .ok () fs := rfl

@[simp] lemma entries_create {hnew : fs.node? p = none}
    {hparent : fs.node? p.dropLast = some .dir} :
    (fs.create p n hnew hparent).entries = fs.entries ++ [(p, n)] := rfl

/-- Below a directory, what is new on the way to a path is below it. -/
lemma below_of_new {dir : Path} {names : List Text} {e : Path × Node}
    (hdir : fs.node? dir = some .dir) (hnew : fs.node? e.1 = none) (he : e.1 <+: dir ++ names) :
    dir <+: e.1 := by
  rcases List.prefix_or_prefix_of_prefix he (List.prefix_append dir names) with h | h
  · rw [node?_eq_none_below hnew h] at hdir
    cases hdir
  · exact h

/-- The bytes of the regular files among some entries. -/
def sizeOf (entries : List (Path × Node)) : Nat :=
  (entries.map fun e => match e.2 with
    | .file bytes => bytes.length
    | _ => 0).sum

@[simp] lemma sizeOf_append (l l' : List (Path × Node)) : sizeOf (l ++ l') = sizeOf l + sizeOf l' := by
  simp [sizeOf]

lemma sizeOf_eq_zero {l : List (Path × Node)} (h : ∀ e ∈ l, e.2 = .dir) : sizeOf l = 0 := by
  induction l with
  | nil => rfl
  | cons e l ih =>
    have he := h e (by simp)
    have := ih fun x hx => h x (by simp [hx])
    simp only [sizeOf, List.map_cons, List.sum_cons] at this ⊢
    rw [this, he]

end FileTree
