import RentCompass.Deploy.StagedTree

/-!
# Restoring a backup

A backup that was created is restored exactly where no archived name has a backslash, which the
reader refuses and the writer does not, and where its manifest is within the size limit, which the
writer does not know. Then the restored tree is that of the sources.
-/

namespace RentCompass.Deploy

open PurePosixPath (slash joinNames IsName)
open FileTree (Path Node Host OsError Adds)
open EStateM (ensure fromExcept adaptExcept)

variable {φ : Type} [FloatFormat φ] {fs before staging : FileTree}
  {snapshot : Path → Option (List Nat)} {quickCheck : QuickCheck}
  {sqliteSources directorySources : Dict Path} {encrypt : Bool} {createdAt : Text}

/-- The file system hands out names as it does. -/
def AllowedNames (fs : FileTree) : Prop := ∀ e ∈ fs.entries, ∀ n ∈ e.1, AllowedName n

lemma allowedName_of_node? (h : AllowedNames fs) {p : Path} (hp : fs.node? p ≠ none) :
    ∀ n ∈ p, AllowedName n := by
  intro n hn
  obtain ⟨m, hm⟩ := Option.ne_none_iff_exists'.1 hp
  exact h _ ((FileTree.node?_eq_some (List.ne_nil_of_mem hn)).1 hm) n hn

/-! ### The staged entries -/

namespace PayloadNode

omit [FloatFormat φ] in
lemma prefix_cases {q : Path} {dir : Text} (h : q <+: [payloadName, dir]) :
    q = [] ∨ q = [payloadName] ∨ q = [payloadName, dir] := by
  obtain ⟨t, ht⟩ := h
  match q with
  | [] => exact .inl rfl
  | [a] =>
    simp only [List.singleton_append, List.cons.injEq] at ht
    exact .inr (.inl (by rw [ht.1]))
  | [a, b] =>
    simp only [List.cons_append, List.nil_append, List.cons.injEq] at ht
    exact .inr (.inr (by rw [ht.1, ht.2.1]))
  | a :: b :: c :: q =>
    simp at ht

omit [FloatFormat φ] in
/-- Every name of the payload is one the file system hands out, and nothing is a link. -/
lemma staged (hnames : AllowedNames fs) (hsqlite : ∀ s ∈ sqliteSources, isLabel s.1)
    (hdirs : ∀ s ∈ directorySources, isLabel s.1) {q : Path} {m : Node}
    (h : PayloadNode fs snapshot sqliteSources directorySources q m) : Staged (q, m) := by
  cases h with
  | root hq hm =>
    subst hm
    refine ⟨fun n hn => ?_, by simp⟩
    have hmem : n = payloadName ∨ n = sqliteName ∨ n = directoriesName := by
      rcases hq with hq | hq
      · have := hq.subset hn
        simp only [List.mem_cons, List.not_mem_nil, or_false] at this
        exact this.imp_right .inl
      · have := hq.subset hn
        simp only [List.mem_cons, List.not_mem_nil, or_false] at this
        exact this.imp_right .inr
    rcases hmem with rfl | rfl | rfl
    · exact allowed_literal.1
    · exact allowed_literal.2.1
    · exact allowed_literal.2.2.1
  | sqlite s hs bytes hbytes hq hm =>
    subst hq hm
    exact ⟨(listable_sqlitePath (hsqlite s hs)).allowed, by simp⟩
  | directory s hs rel hq hkept =>
    subst hq
    refine ⟨fun n hn => ?_, fun hspecial => ?_⟩
    · rcases List.mem_append.1 hn with hn | hn
      · exact (listable_directoryPath (hdirs s hs)).allowed n hn
      · exact allowedName_of_node? hnames (keptNode_ne_none hkept) n (by simp [hn])
    · simp only at hspecial
      subst hspecial
      unfold keptNode at hkept
      split at hkept
      · split_ifs at hkept
        cases hkept
      · cases hkept
      · cases hkept

end PayloadNode

namespace Stages

/-- The nodes of the staging tree: those of the payload, and the manifest. -/
lemma node?_iff (h : Stages φ fs snapshot quickCheck sqliteSources directorySources encrypt
    createdAt before staging) (q : Path) (m : Node) :
    staging.node? q = some m ↔ PayloadNode fs snapshot sqliteSources directorySources q m ∨
      q = [manifestName] ∧ m = .file (manifestFile (manifestOf (archiveRows (φ := φ) before)
        sqliteSources directorySources encrypt createdAt)) := by
  have hadds := FileTree.adds_of_entries (by simp) h.entries
  rw [← h.node]
  constructor
  · exact hadds.only q m
  · rintro (hq | hq)
    · exact hadds.keeps q m hq
    · exact hadds.adds q m hq

/-- The manifest is no part of the payload it lists. -/
lemma archiveRows_eq (h : Stages φ fs snapshot quickCheck sqliteSources directorySources encrypt
    createdAt before staging) :
    archiveRows (φ := φ) before = archiveRows staging := by
  have hbelow : entriesBelow staging [payloadName] = entriesBelow before [payloadName] := by
    rw [entriesBelow, h.entries, List.filter_append, entriesBelow]
    have : ¬ [payloadName] <+: [manifestName] := by decide
    simp [this]
  rw [archiveRows, archiveRows, hbelow]

/-- A suffix SQLite puts behind the name of a database does not end like a staged copy. -/
lemma sidecar_ne {label label' suffix : Text} (hsuffix : suffix.getLast? = some 108) :
    label ++ (".sqlite3" : Text) ++ suffix ≠ label' ++ (".sqlite3" : Text) := by
  intro heq
  have hlast := congrArg List.getLast? heq
  have hne : suffix ≠ [] := by
    rintro rfl
    cases hsuffix
  rw [List.getLast?_append_of_ne_nil _ hne, hsuffix,
    List.getLast?_append_of_ne_nil _ (by decide)] at hlast
  exact absurd hlast (by decide)

/-- Nothing stands in the staging directory under the name of a file that belongs to a copy. -/
lemma sidecar_absent (h : Stages φ fs snapshot quickCheck sqliteSources directorySources encrypt
    createdAt before staging) (label : Text) {suffix : Text} (hsuffix : suffix.getLast? = some 108) :
    staging.node? (withSuffix (sqlitePath label) suffix) = none := by
  have hpath : withSuffix (sqlitePath label) suffix =
      [payloadName, sqliteName, label ++ (".sqlite3" : Text) ++ suffix] := rfl
  rw [hpath, Option.eq_none_iff_forall_ne_some]
  intro m hm
  rcases (h.node?_iff _ _).1 hm with hpayload | ⟨hmanifest, -⟩
  · cases hpayload with
    | root hq _ =>
      rcases hq with hq | hq
      · exact absurd hq.length_le (by simp)
      · exact absurd hq.length_le (by simp)
    | sqlite s _ bytes _ hq _ =>
      simp only [sqlitePath, List.cons.injEq, true_and, and_true] at hq
      exact sidecar_ne hsuffix hq
    | directory s _ rel hq _ =>
      simp only [directoryPath, List.cons_append, List.cons.injEq] at hq
      exact absurd hq.2.1 (by decide)
  · simp at hmanifest

/-- What is staged is a backup as the reader expects it. -/
lemma stagedBackup (h : Stages φ fs snapshot quickCheck sqliteSources directorySources encrypt
    createdAt before staging) (hnames : AllowedNames fs)
    (hsqlite : ParsedSources fs .sqlite sqliteSources)
    (hdirs : ParsedSources fs .directory directorySources) :
    StagedBackup quickCheck staging sqliteSources directorySources where
  staged e he := by
    have hnode : staging.node? e.1 = some e.2 := FileTree.node?_of_mem he
    rcases (h.node?_iff _ _).1 hnode with hpayload | ⟨hpath, hfile⟩
    · exact hpayload.staged hnames (fun s hs => (hsqlite.2 s hs).1) fun s hs => (hdirs.2 s hs).1
    · refine ⟨fun n hn => ?_, by simp [hfile]⟩
      rw [hpath, List.mem_singleton] at hn
      exact hn ▸ allowed_literal.2.2.2
  roots n := by
    rw [Option.ne_none_iff_exists']
    constructor
    · rintro ⟨m, hm⟩
      rcases (h.node?_iff _ _).1 hm with hpayload | ⟨hpath, -⟩
      · refine .inr ?_
        cases hpayload with
        | root hq _ =>
          rcases hq with hq | hq
          · rcases PayloadNode.prefix_cases hq with hq | hq | hq
            · cases hq
            · simpa using hq
            · simp at hq
          · rcases PayloadNode.prefix_cases hq with hq | hq | hq
            · cases hq
            · simpa using hq
            · simp at hq
        | sqlite s _ bytes _ hq _ => simp [sqlitePath] at hq
        | directory s _ rel hq _ => simp [directoryPath] at hq
      · exact .inl (by simpa using hpath)
    · rintro (rfl | rfl)
      · exact ⟨_, (h.node?_iff _ _).2 (.inr ⟨rfl, rfl⟩)⟩
      · exact ⟨.dir, (h.node?_iff _ _).2 (.inl (.root (.inl (by simp)) rfl))⟩
  payload := (h.node?_iff _ _).2 (.inl (.root (.inl (by simp)) rfl))
  sqliteLabels := ⟨hsqlite.1, fun s hs => (hsqlite.2 s hs).1⟩
  sqlite s hs := by
    obtain ⟨bytes, earlier, hbytes, hquick, hfile, hkeeps⟩ := h.sqlite s hs
    have hlater : ∀ q m, earlier.node? q = some m → staging.node? q = some m := fun q m hq =>
      (h.node?_iff q m).2 (.inl ((h.node q m).1 (hkeeps q m hq)))
    -- the copy has no sidecars when it is checked, and none come later
    have hnone : ∀ suffix : Text, suffix.getLast? = some 108 →
        earlier.node? (withSuffix (sqlitePath s.1) suffix) = none := fun suffix hsuffix => by
      rw [Option.eq_none_iff_forall_ne_some]
      intro m hm
      have hgone := h.sidecar_absent s.1 hsuffix
      rw [hlater _ _ hm] at hgone
      cases hgone
    have hwal : (Text.ofString "-wal").getLast? = some 108 := by decide
    have hjournal : (Text.ofString "-journal").getLast? = some 108 := by decide
    unfold sqliteQuickCheck fileBytes? at hquick ⊢
    rw [hfile, hnone _ hwal, hnone _ hjournal] at hquick
    rw [hlater _ _ hfile, h.sidecar_absent s.1 hwal, h.sidecar_absent s.1 hjournal]
    exact hquick
  directoryLabels := ⟨hdirs.1, fun s hs => (hdirs.2 s hs).1⟩
  directories s hs := by
    have hdir : keptNode fs (excludedFiles sqliteSources) s.2 = some .dir :=
      keptNode_of_dir (node?_of_accepts_directory (hdirs.2 s hs).2)
    exact (h.node?_iff _ _).2 (.inl (.directory s hs [] (by simp) (by simpa using hdir)))

end Stages

/-! ### Names with a backslash -/

/-- No name of what is kept of the directories has a backslash. -/
def PortableSources (fs : FileTree) (sqliteSources directorySources : Dict Path) : Prop :=
  ∀ s ∈ directorySources, ∀ rel,
    keptNode fs (excludedFiles sqliteSources) (s.2 ++ rel) ≠ none → Portable rel

lemma portable_append {p q : Path} : Portable (p ++ q) ↔ Portable p ∧ Portable q := by
  simp only [Portable, List.mem_append]
  exact ⟨fun h => ⟨fun n hn => h n (.inl hn), fun n hn => h n (.inr hn)⟩,
    fun h n hn => hn.elim (h.1 n) (h.2 n)⟩

/-- Of the names in the staging directory, only those of the directories can have a backslash. -/
lemma Stages.portableTree_iff (h : Stages φ fs snapshot quickCheck sqliteSources directorySources
    encrypt createdAt before staging) (hsqlite : ∀ s ∈ sqliteSources, isLabel s.1)
    (hdirs : ∀ s ∈ directorySources, isLabel s.1) :
    PortableTree staging ↔ PortableSources fs sqliteSources directorySources := by
  constructor
  · intro hport s hs rel hkept
    obtain ⟨m, hm⟩ := Option.ne_none_iff_exists'.1 hkept
    have hnode := (h.node?_iff _ _).2 (.inl (.directory s hs rel rfl hm))
    have hmem := (FileTree.node?_eq_some (by simp [directoryPath])).1 hnode
    exact (portable_append.1 (hport _ hmem)).2
  · intro hport e he
    have hnode : staging.node? e.1 = some e.2 := FileTree.node?_of_mem he
    rcases (h.node?_iff _ _).1 hnode with hpayload | ⟨hpath, -⟩
    · cases hpayload with
      | root hq _ =>
        rcases hq with hq | hq
        · exact fun n hn => (show Portable [payloadName, sqliteName] by
            unfold Portable; decide) n (hq.subset hn)
        · exact fun n hn => (show Portable [payloadName, directoriesName] by
            unfold Portable; decide) n (hq.subset hn)
      | sqlite s hs bytes _ hq _ =>
        rw [hq]
        exact (listable_sqlitePath (hsqlite s hs)).portable
      | directory s hs rel hq hkept =>
        rw [hq, portable_append]
        exact ⟨(listable_directoryPath (hdirs s hs)).portable, hport s hs rel (by simp [hkept])⟩
    · rw [hpath]
      exact show Portable [manifestName] by unfold Portable; decide

/-! ### What is staged, from the sources -/

/-- What is kept of a directory, relative to it. -/
def keptEntries (fs : FileTree) (excluded : List Path) (root : Path) : List (Path × Node) :=
  (entriesBelow fs root).filterMap fun e =>
    (keptNode fs excluded e.1).map fun n => (e.1.drop root.length, n)

/-- The copies of the databases. -/
def databaseCopies (snapshot : Path → Option (List Nat)) (sqliteSources : Dict Path) :
    List (Path × Node) :=
  sqliteSources.filterMap fun s => (snapshot s.2).map fun bytes => (sqlitePath s.1, .file bytes)

/-- The copies of the directories. -/
def directoryCopies (fs : FileTree) (sqliteSources directorySources : Dict Path) :
    List (Path × Node) :=
  directorySources.flatMap fun s => (directoryPath s.1, .dir) ::
    (keptEntries fs (excludedFiles sqliteSources) s.2).map fun e => (directoryPath s.1 ++ e.1, e.2)

/-- The payload of a backup of these sources. -/
def stagedEntries (fs : FileTree) (snapshot : Path → Option (List Nat))
    (sqliteSources directorySources : Dict Path) : List (Path × Node) :=
  [([payloadName], .dir), ([payloadName, sqliteName], .dir),
    ([payloadName, directoriesName], .dir)] ++
    (databaseCopies snapshot sqliteSources ++ directoryCopies fs sqliteSources directorySources)

/-- The file of the manifest that lists it. -/
def listedManifest (φ : Type) [FloatFormat φ] (fs : FileTree) (snapshot : Path → Option (List Nat))
    (sqliteSources directorySources : Dict Path) (encrypt : Bool) (createdAt : Text) : List Nat :=
  let listed := filesOf (sortedEntries (stagedEntries fs snapshot sqliteSources directorySources))
  manifestFile (manifestOf (listed.map fun f => (archiveRow f.1 f.2 : JsonValue φ)) sqliteSources
    directorySources encrypt createdAt)

lemma mem_keptEntries {excluded : List Path} {root rel : Path} {n : Node} :
    (rel, n) ∈ keptEntries fs excluded root ↔
      rel ≠ [] ∧ keptNode fs excluded (root ++ rel) = some n := by
  rw [keptEntries, List.mem_filterMap]
  constructor
  · rintro ⟨⟨q, m⟩, hmem, hkept⟩
    obtain ⟨⟨rest, rfl⟩, hne, -⟩ := mem_entriesBelow.1 hmem
    simp only [List.drop_left, Option.map_eq_some_iff, Prod.mk.injEq] at hkept
    obtain ⟨k, hk, rfl, rfl⟩ := hkept
    exact ⟨by simpa using hne, hk⟩
  · rintro ⟨hne, hkept⟩
    obtain ⟨m, hm⟩ := Option.ne_none_iff_exists'.1 (keptNode_ne_none hkept)
    exact ⟨(root ++ rel, m), mem_entriesBelow.2 ⟨by simp, by simp [hne], hm⟩, by simp [hkept]⟩

lemma mem_stagedEntries (hdirs : ∀ s ∈ directorySources, fs.node? s.2 = some .dir) {q : Path}
    {m : Node} :
    (q, m) ∈ stagedEntries fs snapshot sqliteSources directorySources ↔
      q ≠ [] ∧ PayloadNode fs snapshot sqliteSources directorySources q m := by
  have hroots : (q, m) ∈ [([payloadName], Node.dir), ([payloadName, sqliteName], .dir),
      ([payloadName, directoriesName], .dir)] ↔
      q ≠ [] ∧ (q <+: [payloadName, sqliteName] ∨ q <+: [payloadName, directoriesName]) ∧
        m = .dir := by
    simp only [List.mem_cons, List.not_mem_nil, or_false, Prod.mk.injEq]
    constructor
    · rintro (⟨rfl, rfl⟩ | ⟨rfl, rfl⟩ | ⟨rfl, rfl⟩) <;> simp
    · rintro ⟨hne, hq | hq, rfl⟩
      · rcases PayloadNode.prefix_cases hq with rfl | rfl | rfl <;> simp at hne ⊢
      · rcases PayloadNode.prefix_cases hq with rfl | rfl | rfl <;> simp at hne ⊢
  rw [stagedEntries, List.mem_append, List.mem_append, hroots, databaseCopies, directoryCopies,
    List.mem_filterMap, List.mem_flatMap]
  constructor
  · rintro (⟨hne, hq, rfl⟩ | ⟨s, hs, hcopy⟩ | ⟨s, hs, hcopy⟩)
    · exact ⟨hne, .root hq rfl⟩
    · simp only [Option.map_eq_some_iff, Prod.mk.injEq] at hcopy
      obtain ⟨bytes, hbytes, rfl, rfl⟩ := hcopy
      exact ⟨by simp [sqlitePath], .sqlite s hs bytes hbytes rfl rfl⟩
    · rcases List.mem_cons.1 hcopy with heq | hcopy
      · cases heq
        refine ⟨by simp [directoryPath], .directory s hs [] (by simp) ?_⟩
        rw [List.append_nil]
        exact keptNode_of_dir (hdirs s hs)
      · obtain ⟨⟨rel, n⟩, hmem, heq⟩ := List.mem_map.1 hcopy
        cases heq
        exact ⟨by simp [directoryPath], .directory s hs rel rfl (mem_keptEntries.1 hmem).2⟩
  · rintro ⟨hne, ⟨hq, rfl⟩ | ⟨s, hs, bytes, hbytes, rfl, rfl⟩ | ⟨s, hs, rel, rfl, hkept⟩⟩
    · exact .inl ⟨hne, hq, rfl⟩
    · exact .inr (.inl ⟨s, hs, by simp [hbytes]⟩)
    · refine .inr (.inr ⟨s, hs, ?_⟩)
      by_cases hrel : rel = []
      · subst hrel
        rw [List.append_nil, keptNode_of_dir (hdirs s hs)] at hkept
        cases hkept
        simp
      · exact List.mem_cons_of_mem _
          (List.mem_map.2 ⟨(rel, m), mem_keptEntries.2 ⟨hrel, hkept⟩, rfl⟩)

lemma pairwise_keptEntries (excluded : List Path) (root : Path) :
    (keptEntries fs excluded root).Pairwise fun e f => e.1 ≠ f.1 := by
  have hpaths : (entriesBelow fs root).Pairwise fun e f => e.1 ≠ f.1 :=
    List.pairwise_map.1 (fs.distinct.sublist (List.filter_sublist.map _))
  refine List.Pairwise.filterMap _ (fun e f h x hx y hy => ?_)
    (hpaths.imp_of_mem fun he hf h => And.intro h (And.intro he hf))
  obtain ⟨hne, he, hf⟩ := h
  obtain ⟨⟨rest, hrest⟩, -, -⟩ := mem_entriesBelow.1 he
  obtain ⟨⟨rest', hrest'⟩, -, -⟩ := mem_entriesBelow.1 hf
  obtain ⟨n, -, rfl⟩ := Option.map_eq_some_iff.1 hx
  obtain ⟨n', -, rfl⟩ := Option.map_eq_some_iff.1 hy
  intro heq
  simp only [← hrest, ← hrest', List.drop_left] at heq
  exact hne (by rw [← hrest, ← hrest', heq])

/-- No path is staged twice. -/
lemma nodup_stagedEntries (hsqlite : sqliteSources.keys.Nodup)
    (hdirs : directorySources.keys.Nodup) :
    ((stagedEntries fs snapshot sqliteSources directorySources).map (·.1)).Nodup := by
  have hsqlite : sqliteSources.Pairwise fun s t => s.1 ≠ t.1 := List.pairwise_map.1 hsqlite
  have hdirs : directorySources.Pairwise fun s t => s.1 ≠ t.1 := List.pairwise_map.1 hdirs
  -- the second and the third name tell the parts apart
  have hdatabase : ∀ e ∈ databaseCopies snapshot sqliteSources, ∃ n, e.1 = [payloadName, sqliteName, n] := by
    intro e he
    obtain ⟨s, -, hs⟩ := List.mem_filterMap.1 he
    obtain ⟨bytes, -, rfl⟩ := Option.map_eq_some_iff.1 hs
    exact ⟨_, rfl⟩
  have hcopy : ∀ (s : Text × Path) (e : Path × Node), e ∈ (directoryPath s.1, Node.dir) ::
      ((keptEntries fs (excludedFiles sqliteSources) s.2).map fun e =>
        (directoryPath s.1 ++ e.1, e.2)) →
      ∃ rel, e.1 = payloadName :: directoriesName :: s.1 :: rel := by
    intro s e he
    rcases List.mem_cons.1 he with rfl | he
    · exact ⟨[], rfl⟩
    · obtain ⟨f, -, rfl⟩ := List.mem_map.1 he
      exact ⟨f.1, rfl⟩
  have hdirectory : ∀ e ∈ directoryCopies fs sqliteSources directorySources,
      ∃ n rel, e.1 = payloadName :: directoriesName :: n :: rel := by
    intro e he
    obtain ⟨s, -, hs⟩ := List.mem_flatMap.1 he
    exact ⟨s.1, hcopy s e hs⟩
  have hne : sqliteName ≠ directoriesName := by decide
  refine List.pairwise_map.2 (List.pairwise_append.2 ⟨by decide, List.pairwise_append.2
    ⟨?_, ?_, ?_⟩, ?_⟩)
  · refine hsqlite.filterMap _ fun s t hst x hx y hy => ?_
    obtain ⟨b, -, rfl⟩ := Option.map_eq_some_iff.1 hx
    obtain ⟨b', -, rfl⟩ := Option.map_eq_some_iff.1 hy
    simpa [sqlitePath] using hst
  · rw [directoryCopies, List.pairwise_flatMap]
    constructor
    · intro s _
      rw [List.pairwise_cons, List.pairwise_map]
      constructor
      · intro e he
        obtain ⟨f, hf, rfl⟩ := List.mem_map.1 he
        simpa [eq_comm] using (mem_keptEntries.1 hf).1
      · exact (pairwise_keptEntries _ _).imp fun h => by simpa using h
    · refine hdirs.imp fun {s t} hst x hx y hy => ?_
      obtain ⟨rel, hx⟩ := hcopy s x hx
      obtain ⟨rel', hy⟩ := hcopy t y hy
      simp [hx, hy, hst]
  · intro e he f hf
    obtain ⟨n, he⟩ := hdatabase e he
    obtain ⟨n', rel, hf⟩ := hdirectory f hf
    simp [he, hf, hne]
  · intro e he f hf
    have hlen : e.1.length ≤ 2 := by
      revert e
      decide
    intro heq
    rcases List.mem_append.1 hf with hf | hf
    · obtain ⟨n, hf⟩ := hdatabase f hf
      simp [heq, hf] at hlen
    · obtain ⟨n, rel, hf⟩ := hdirectory f hf
      simp [heq, hf] at hlen

/-- The entries of the staging directory are those of the payload, and the manifest. -/
lemma Stages.entries_perm (h : Stages φ fs snapshot quickCheck sqliteSources directorySources
    encrypt createdAt before staging) (hsqlite : ParsedSources fs .sqlite sqliteSources)
    (hdirs : ParsedSources fs .directory directorySources) :
    before.entries.Perm (stagedEntries fs snapshot sqliteSources directorySources) := by
  refine (List.perm_ext_iff_of_nodup before.distinct.of_map
    (nodup_stagedEntries hsqlite.1 hdirs.1).of_map).2 ?_
  rintro ⟨q, m⟩
  rw [mem_stagedEntries fun s hs => node?_of_accepts_directory (hdirs.2 s hs).2]
  constructor
  · exact fun hmem => ⟨FileTree.ne_nil_of_mem hmem, (h.node q m).1 (FileTree.node?_of_mem hmem)⟩
  · rintro ⟨hne, hpayload⟩
    exact (FileTree.node?_eq_some hne).1 ((h.node q m).2 hpayload)

/-- The files among entries of distinct paths have one order. -/
lemma filesOf_sortedEntries_eq {l l' : List (Path × Node)} (hnodup : (l.map (·.1)).Nodup)
    (hnodup' : (l'.map (·.1)).Nodup)
    (hmem : ∀ p bytes, (p, Node.file bytes) ∈ l ↔ (p, Node.file bytes) ∈ l') :
    filesOf (sortedEntries l) = filesOf (sortedEntries l') := by
  have key : ∀ l : List (Path × Node), (l.map (·.1)).Nodup →
      ((filesOf (sortedEntries l)).map (·.1)).Nodup ∧
        (filesOf (sortedEntries l)).Pairwise fun f g => f.1 ≤ g.1 := by
    intro l hl
    constructor
    · exact (((List.perm_insertionSort _ l).map _).nodup_iff.2 hl).sublist (filesOf_sublist _)
    · have hsorted : (sortedEntries l).Pairwise (·.1 ≤ ·.1) :=
        List.pairwise_insertionSort (fun e f : Path × Node => e.1 ≤ f.1) _
      exact List.pairwise_map.1 ((List.pairwise_map.2 hsorted).sublist (filesOf_sublist _))
  obtain ⟨hfiles, hsorted⟩ := key l hnodup
  obtain ⟨hfiles', hsorted'⟩ := key l' hnodup'
  have hperm : (filesOf (sortedEntries l)).Perm (filesOf (sortedEntries l')) := by
    refine (List.perm_ext_iff_of_nodup hfiles.of_map hfiles'.of_map).2 ?_
    rintro ⟨p, bytes⟩
    rw [mem_filesOf, mem_filesOf, mem_sortedEntries, mem_sortedEntries, hmem]
  refine hperm.eq_of_pairwise (fun f g hf hg hle hge => ?_) hsorted hsorted'
  exact List.inj_on_of_nodup_map hfiles hf (hperm.mem_iff.2 hg) (le_antisymm hle hge)

/-- The rows of the manifest are those of the files of the sources. -/
lemma Stages.rows_eq (h : Stages φ fs snapshot quickCheck sqliteSources directorySources encrypt
    createdAt before staging) (hsqlite : ParsedSources fs .sqlite sqliteSources)
    (hdirs : ParsedSources fs .directory directorySources) :
    archiveRows (φ := φ) before = (filesOf (sortedEntries
      (stagedEntries fs snapshot sqliteSources directorySources))).map
        fun f => archiveRow f.1 f.2 := by
  have hbelow : ((entriesBelow before [payloadName]).map (·.1)).Nodup :=
    before.distinct.sublist (List.filter_sublist.map _)
  have hroots : ∀ s ∈ directorySources, fs.node? s.2 = some .dir := fun s hs =>
    node?_of_accepts_directory (hdirs.2 s hs).2
  rw [Deploy.archiveRows_eq, payloadFiles, filesOf_sortedEntries_eq hbelow
    (nodup_stagedEntries hsqlite.1 hdirs.1)]
  intro p bytes
  rw [mem_entriesBelow, mem_stagedEntries hroots, h.node]
  constructor
  · rintro ⟨⟨rest, rfl⟩, -, hpayload⟩
    exact ⟨by simp, hpayload⟩
  · rintro ⟨-, hpayload⟩
    refine ⟨?_, ?_, hpayload⟩
    · cases hpayload with
      | root _ hm => cases hm
      | sqlite s _ b _ hq _ => exact ⟨[sqliteName, s.1 ++ (".sqlite3" : Text)], hq.symm⟩
      | directory s _ rel hq _ => exact ⟨directoriesName :: s.1 :: rel, hq.symm⟩
    · rintro rfl
      cases hpayload with
      | root _ hm => cases hm
      | sqlite s _ b _ hq _ => simp [sqlitePath] at hq
      | directory s _ rel hq _ => simp [directoryPath] at hq

/-- What the reader asks of a backup beyond what the writer sees to. -/
structure Restorable (φ : Type) [FloatFormat φ] (limits : Limits) (fs : FileTree)
    (snapshot : Path → Option (List Nat)) (sqliteSources directorySources : Dict Path)
    (encrypt : Bool) (createdAt : Text) : Prop where
  portable : PortableSources fs sqliteSources directorySources
  manifest : (listedManifest φ fs snapshot sqliteSources directorySources encrypt
    createdAt).length ≤ maxManifestBytes
  members : ((stagedEntries fs snapshot sqliteSources directorySources).length + 1 : Int) ≤
    limits.maxMembers
  bytes : (FileTree.sizeOf (stagedEntries fs snapshot sqliteSources directorySources) +
    (listedManifest φ fs snapshot sqliteSources directorySources encrypt createdAt).length : Int) ≤
      limits.maxExtractBytes

namespace Stages

variable (h : Stages φ fs snapshot quickCheck sqliteSources directorySources encrypt createdAt
    before staging) (hsqlite : ParsedSources fs .sqlite sqliteSources)
  (hdirs : ParsedSources fs .directory directorySources)

include h hsqlite hdirs

lemma manifestFile_eq :
    manifestFile (manifestOf (archiveRows (φ := φ) before) sqliteSources directorySources encrypt
      createdAt) =
      listedManifest φ fs snapshot sqliteSources directorySources encrypt createdAt := by
  rw [listedManifest, h.rows_eq hsqlite hdirs]

/-- The archive counts what is staged from the sources, and the manifest. -/
lemma counts : staging.entries.length =
      (stagedEntries fs snapshot sqliteSources directorySources).length + 1 ∧
    FileTree.sizeOf staging.entries =
      FileTree.sizeOf (stagedEntries fs snapshot sqliteSources directorySources) +
        (listedManifest φ fs snapshot sqliteSources directorySources encrypt createdAt).length := by
  have hperm := h.entries_perm hsqlite hdirs
  rw [h.entries, h.manifestFile_eq hsqlite hdirs, FileTree.sizeOf_append, List.length_append,
    hperm.length_eq, sizeOf_perm hperm]
  exact ⟨rfl, by simp [FileTree.sizeOf]⟩

variable [JsonValue.LawfulFloatFormat φ]

omit [JsonValue.LawfulFloatFormat φ] in
/-- What is unpacked to the end is what was staged. -/
lemma safeExtract_mirrors (hnames : AllowedNames fs) {limits : Limits}
    (hlimits : 0 < limits.maxExtractBytes ∧ 0 < limits.maxMembers) {mode : Path → Nat}
    {fs₁ fs' : FileTree} {destination : Path} (hnew : fs₁.node? destination = none)
    (hparent : fs₁.node? destination.dropLast = some .dir) {modes : Dict Nat}
    (hextract : safeExtract .willing limits (writeTar mode staging) destination fs₁ =
      .ok modes fs') :
    Mirrors fs' destination staging ∧ FileTree.Grows (fun e => destination <+: e.1) fs₁ fs' := by
  have hwithin := within_of_safeExtract hlimits.2 hlimits.1 hextract
  rw [(writeTar_counts mode staging).1, (writeTar_counts mode staging).2] at hwithin
  obtain ⟨modes', fs'', hrun, hmirror, hgrows⟩ := safeExtract_writeTar mode
    (h.stagedBackup hnames hsqlite hdirs).staged (portable_of_safeExtract hextract) hwithin.1
    hwithin.2 hnew hparent
  rw [hextract] at hrun
  cases hrun
  exact ⟨hmirror, hgrows⟩

/-- In a fresh directory the archive is opened if the reader's demands are met, and only then. -/
lemma openArchive_iff (hnames : AllowedNames fs) (hcreated : ∀ c ∈ createdAt, c < 0x80)
    {limits : Limits} (hlimits : 0 < limits.maxExtractBytes ∧ 0 < limits.maxMembers)
    (mode : Path → Nat) (isOne : φ → Bool) {fs₁ : FileTree} {destination : Path}
    (hnew : fs₁.node? destination = none)
    (hparent : fs₁.node? destination.dropLast = some .dir) :
    (∃ opened fs', openArchive .willing quickCheck isOne limits (writeTar mode staging)
      destination fs₁ = .ok opened fs') ↔
      Restorable φ limits fs snapshot sqliteSources directorySources encrypt createdAt := by
  have hstaged := h.stagedBackup hnames hsqlite hdirs
  have hportable := h.portableTree_iff (fun s hs => (hsqlite.2 s hs).1)
    fun s hs => (hdirs.2 s hs).1
  have hmanifest : staging.node? [manifestName] = some (.file (manifestFile (manifestOf
      (archiveRows (φ := φ) staging) sqliteSources directorySources encrypt createdAt))) := by
    rw [← h.archiveRows_eq]
    exact (h.node?_iff _ _).2 (.inr ⟨rfl, rfl⟩)
  have hfile := h.manifestFile_eq hsqlite hdirs
  rw [h.archiveRows_eq] at hfile
  obtain ⟨hlength, hsize⟩ := h.counts hsqlite hdirs
  constructor
  · rintro ⟨opened, fs', hopen⟩
    unfold openArchive at hopen
    simp only [EStateM.bind_eq_ok, EStateM.fromExcept_eq_ok] at hopen
    obtain ⟨modes, fs₂, hextract, _, _, hget, manifest, _, ⟨hload, rfl⟩, -⟩ := hopen
    cases hget
    have hport := portable_of_safeExtract hextract
    have hwithin := within_of_safeExtract hlimits.2 hlimits.1 hextract
    obtain ⟨hmirror, -⟩ := h.safeExtract_mirrors hsqlite hdirs hnames hlimits hnew hparent hextract
    have hmax := (hstaged.loadAndVerify hmirror hport isOne encrypt hcreated hmanifest).1
      ⟨manifest, hload⟩
    rw [hfile] at hmax
    rw [(writeTar_counts mode staging).1, (writeTar_counts mode staging).2, hlength,
      hsize] at hwithin
    push_cast at hwithin
    exact ⟨hportable.1 hport, hmax, hwithin.1, hwithin.2⟩
  · intro hdemands
    have hport := hportable.2 hdemands.portable
    have hcount := hdemands.members
    have htotal := hdemands.bytes
    obtain ⟨modes, fs', hextract, hmirror, hgrows⟩ := safeExtract_writeTar mode hstaged.staged hport
      (by rw [hlength]; push_cast; exact hcount) (by rw [hsize]; push_cast; exact htotal)
      hnew hparent
    obtain ⟨manifest, hload⟩ := (hstaged.loadAndVerify hmirror hport isOne encrypt hcreated
      hmanifest).2 (by rw [hfile]; exact hdemands.manifest)
    refine ⟨(modes, manifest), fs', ?_⟩
    unfold openArchive
    simp only [EStateM.bind_eq_ok, EStateM.fromExcept_eq_ok]
    exact ⟨modes, fs', hextract, fs', fs', rfl, manifest, fs', ⟨hload, rfl⟩, rfl⟩

omit [JsonValue.LawfulFloatFormat φ] in
lemma openArchive_mirrors (hnames : AllowedNames fs) {limits : Limits}
    (hlimits : 0 < limits.maxExtractBytes ∧ 0 < limits.maxMembers) {mode : Path → Nat}
    {isOne : φ → Bool} {fs₁ fs' : FileTree} {destination : Path}
    (hnew : fs₁.node? destination = none)
    (hparent : fs₁.node? destination.dropLast = some .dir)
    {opened : Dict Nat × Dict (JsonValue φ)}
    (hopen : openArchive .willing quickCheck isOne limits (writeTar mode staging) destination fs₁ =
      .ok opened fs') :
    Mirrors fs' destination staging ∧ FileTree.Grows (fun e => destination <+: e.1) fs₁ fs' := by
  unfold openArchive at hopen
  simp only [EStateM.bind_eq_ok, EStateM.fromExcept_eq_ok] at hopen
  obtain ⟨modes, fs₂, hextract, _, _, hget, manifest, _, ⟨-, rfl⟩, hpure⟩ := hopen
  cases hget
  obtain ⟨-, rfl⟩ := EStateM.pure_eq_ok.1 hpure
  exact h.safeExtract_mirrors hsqlite hdirs hnames hlimits hnew hparent hextract

end Stages

/-! ### The restored tree -/

/-- The restored tree is that of the sources. -/
structure RestoredFrom (fs : FileTree) (snapshot : Path → Option (List Nat))
    (sqliteSources directorySources : Dict Path) (tree : List (Path × Node)) : Prop where
  directories : ∀ s ∈ directorySources, ∀ rel n, (directoriesName :: s.1 :: rel, n) ∈ tree ↔
    fs.node? (s.2 ++ rel) = some n ∧ (n = .dir ∨ s.2 ++ rel ∉ excludedFiles sqliteSources)
  databases : ∀ s ∈ sqliteSources, ∃ bytes, snapshot s.2 = some bytes ∧
    ∀ n, ([sqliteName, s.1 ++ (".sqlite3" : Text)], n) ∈ tree ↔ n = .file bytes
  nothingElse : ∀ e ∈ tree, e = ([sqliteName], .dir) ∨ e = ([directoriesName], .dir) ∨
    (∃ s ∈ sqliteSources, e.1 = [sqliteName, s.1 ++ (".sqlite3" : Text)]) ∨
    ∃ s ∈ directorySources, [directoriesName, s.1] <+: e.1
  distinct : (tree.map (·.1)).Nodup

lemma keptNode_eq_some {excluded : List Path} {p : Path} {n : Node}
    (hplain : fs.node? p ≠ some .special) :
    keptNode fs excluded p = some n ↔ fs.node? p = some n ∧ (n = .dir ∨ p ∉ excluded) := by
  unfold keptNode
  split
  · next bytes hnode =>
    split_ifs with hex
    · simp only [hnode, Option.some.injEq, false_iff, not_and, not_or, not_not]
      rintro rfl
      exact ⟨by simp, hex⟩
    · simp [hnode, hex]
  · next hnode =>
    simp only [hnode, Option.some.injEq]
    exact ⟨fun h => ⟨h, .inl h.symm⟩, fun h => h.1⟩
  · next hfile hdir =>
    simp only [reduceCtorEq, false_iff, not_and]
    intro hnode
    cases n with
    | file bytes => exact absurd hnode (hfile bytes)
    | dir => exact absurd hnode hdir
    | special => exact absurd hnode hplain

/-- What the payload of an unpacked tree holds. -/
lemma mem_payload {restored : FileTree} {destination rel : Path} {n : Node}
    (hmirror : Mirrors restored destination staging) :
    (rel, n) ∈ (entriesBelow restored (destination ++ [payloadName])).map
        (fun e => (e.1.drop (destination ++ [payloadName]).length, e.2)) ↔
      rel ≠ [] ∧ staging.node? (payloadName :: rel) = some n := by
  rw [List.mem_map]
  constructor
  · rintro ⟨⟨q, m⟩, hmem, heq⟩
    obtain ⟨⟨rest, rfl⟩, hne, hnode⟩ := mem_entriesBelow.1 hmem
    simp only [List.drop_left, Prod.mk.injEq] at heq
    obtain ⟨rfl, rfl⟩ := heq
    rw [List.append_assoc, hmirror] at hnode
    exact ⟨by simpa using hne, hnode⟩
  · rintro ⟨hne, hnode⟩
    refine ⟨(destination ++ [payloadName] ++ rel, n), mem_entriesBelow.2 ⟨by simp, by simp [hne],
      ?_⟩, by simp⟩
    rw [List.append_assoc, hmirror]
    exact hnode

lemma Stages.restoredFrom (h : Stages φ fs snapshot quickCheck sqliteSources directorySources
    encrypt createdAt before staging) (hsqlite : ParsedSources fs .sqlite sqliteSources)
    (hdirs : ParsedSources fs .directory directorySources) {restored : FileTree}
    {destination : Path} (hmirror : Mirrors restored destination staging) :
    RestoredFrom fs snapshot sqliteSources directorySources
      ((entriesBelow restored (destination ++ [payloadName])).map
        fun e => (e.1.drop (destination ++ [payloadName]).length, e.2)) := by
  have hmem : ∀ rel n, (rel, n) ∈ (entriesBelow restored (destination ++ [payloadName])).map
      (fun e => (e.1.drop (destination ++ [payloadName]).length, e.2)) ↔
      rel ≠ [] ∧ PayloadNode fs snapshot sqliteSources directorySources (payloadName :: rel) n := by
    intro rel n
    rw [mem_payload hmirror, h.node?_iff]
    refine and_congr_right fun _ => or_iff_left ?_
    rintro ⟨hpath, -⟩
    simp only [List.cons.injEq] at hpath
    exact absurd hpath.1 (by decide)
  have hne : sqliteName ≠ directoriesName := by decide
  refine ⟨fun s hs rel n => ?_, fun s hs => ?_, ?_, ?_⟩
  · rw [hmem, ← keptNode_eq_some (h.plain s hs rel)]
    constructor
    · rintro ⟨-, ⟨hq, -⟩ | ⟨t, ht, b, hb, hq, -⟩ | ⟨t, ht, rel', hq, hkept⟩⟩
      · rcases hq with hq | hq
        · exact absurd hq.length_le (by simp)
        · exact absurd hq.length_le (by simp)
      · simp only [sqlitePath, List.cons.injEq, true_and] at hq
        exact absurd hq.1.symm hne
      · simp only [directoryPath, List.cons_append, List.nil_append, List.cons.injEq,
          true_and] at hq
        obtain ⟨hkey, rfl⟩ := hq
        have hst : s = t := List.inj_on_of_nodup_map hdirs.1 hs ht hkey
        exact hst ▸ hkept
    · exact fun hkept => ⟨by simp, .directory s hs rel rfl hkept⟩
  · obtain ⟨bytes, -, hbytes, -⟩ := h.sqlite s hs
    refine ⟨bytes, hbytes, fun n => ?_⟩
    rw [hmem]
    constructor
    · rintro ⟨-, ⟨hq, -⟩ | ⟨t, ht, b, hb, hq, rfl⟩ | ⟨t, ht, rel', hq, hkept⟩⟩
      · rcases hq with hq | hq
        · exact absurd hq.length_le (by simp)
        · exact absurd hq.length_le (by simp)
      · simp only [sqlitePath, List.cons.injEq, true_and, and_true,
          List.append_cancel_right_eq] at hq
        have hst : s = t := List.inj_on_of_nodup_map hsqlite.1 hs ht hq
        rw [← hst, hbytes] at hb
        cases hb
        rfl
      · simp only [directoryPath, List.cons_append, List.cons.injEq, true_and] at hq
        exact absurd hq.1 hne
    · rintro rfl
      exact ⟨by simp, .sqlite s hs bytes hbytes rfl rfl⟩
  · rintro ⟨rel, n⟩ he
    obtain ⟨hrel, hpayload⟩ := (hmem rel n).1 he
    cases hpayload with
    | root hq hm =>
      subst hm
      rcases hq with hq | hq
      · rcases PayloadNode.prefix_cases hq with hq | hq | hq
        · simp at hq
        · simp [hrel] at hq
        · simp only [List.cons.injEq, true_and] at hq
          exact .inl (by rw [hq])
      · rcases PayloadNode.prefix_cases hq with hq | hq | hq
        · simp at hq
        · simp [hrel] at hq
        · simp only [List.cons.injEq, true_and] at hq
          exact .inr (.inl (by rw [hq]))
    | sqlite s hs b _ hq _ =>
      simp only [sqlitePath, List.cons.injEq, true_and] at hq
      exact .inr (.inr (.inl ⟨s, hs, hq⟩))
    | directory s hs rel' hq _ =>
      simp only [directoryPath, List.cons_append, List.nil_append, List.cons.injEq,
        true_and] at hq
      exact .inr (.inr (.inr ⟨s, hs, rel', by rw [hq]; rfl⟩))
  · have hpaths : (entriesBelow restored (destination ++ [payloadName])).Pairwise
        fun e f => e.1 ≠ f.1 :=
      List.pairwise_map.1 (restored.distinct.sublist (List.filter_sublist.map _))
    rw [List.map_map]
    refine List.pairwise_map.2 (hpaths.imp_of_mem fun {e f} he hf hef => ?_)
    obtain ⟨⟨rest, hrest⟩, -, -⟩ := mem_entriesBelow.1 he
    obtain ⟨⟨rest', hrest'⟩, -, -⟩ := mem_entriesBelow.1 hf
    simp only [Function.comp_apply, ← hrest, ← hrest', List.drop_left]
    rintro rfl
    exact hef (hrest.symm.trans hrest')

/-! ### Restoring -/

/-- The directory for the verification is a sibling of the target. -/
lemma verifyPath_sibling {target : Path} (htarget : target ≠ []) (random : Text) :
    (verifyPath target random).dropLast = target.dropLast ∧
      (verifyPath target random).length = target.length ∧ verifyPath target random ≠ target := by
  obtain ⟨init, name, rfl⟩ := (List.eq_nil_or_concat' target).resolve_left htarget
  have hpath : verifyPath (init ++ [name]) random =
      init ++ [46 :: name ++ (".verify-" : Text) ++ random] := by simp [verifyPath]
  rw [hpath]
  refine ⟨by simp, by simp, fun heq => ?_⟩
  have hname := List.append_cancel_left heq
  simp only [List.cons.injEq, and_true] at hname
  have := congrArg List.length hname
  simp only [List.length_append, List.length_cons] at this
  omega

/-- What comes to stand under a sibling of the target changes nothing about it. -/
lemma validateRestoreTarget_grows {restoreFs restoreFs' : FileTree} {target sibling : Path}
    (hlength : sibling.length = target.length) (hne : sibling ≠ target)
    (h : FileTree.Grows (fun e => sibling <+: e.1) restoreFs restoreFs') (overwrite : Bool) :
    validateRestoreTarget restoreFs' target overwrite =
      validateRestoreTarget restoreFs target overwrite := by
  have hunder : ∀ q, sibling <+: q → q ≠ target ∧ q.dropLast ≠ target := by
    intro q hq
    constructor
    · rintro rfl
      exact hne (hq.eq_of_length hlength)
    · rintro rfl
      exact hne (List.prefix_of_prefix_length_le hq ( List.dropLast_prefix q) hlength.le |>.eq_of_length
        hlength)
  have hnode : restoreFs'.node? target = restoreFs.node? target := by
    cases hold : restoreFs.node? target with
    | some n => exact h.node?_of_some hold
    | none =>
      rw [Option.eq_none_iff_forall_ne_some]
      intro n hn
      exact (hunder target (h.of_node? hold hn)).1 rfl
  have hnames : childNames restoreFs' target = childNames restoreFs target := by
    obtain ⟨created, hentries, hcreated⟩ := h
    have hempty : created.filter (fun e => decide (e.1.dropLast = target)) = [] := by
      rw [List.filter_eq_nil_iff]
      intro e he
      simpa using (hunder e.1 (hcreated e he)).2
    rw [childNames, childNames, hentries, List.filter_append, hempty, List.append_nil]
  unfold validateRestoreTarget
  rw [hnode, hnames]

variable [JsonValue.LawfulFloatFormat φ]

lemma limits_default_pos :
    0 < Limits.default.maxExtractBytes ∧ 0 < Limits.default.maxMembers := by decide

/-- A host with one directory, `data`, and one thing in it. -/
def oneEntryTree (name : Text) (n : Node) : FileTree where
  entries := [(["data"], .dir), (["data", name], n)]
  distinct := by simp
  rooted := by simp

/-- The backup of that directory. -/
def dataRequest : BackupRequest where
  sqliteArguments := []
  directoryArguments := ["data=/data"]
  output := ["backup.tar.gz"]
  encrypt := false
  createdAt := "2026-01-01T00:00:00+00:00"
  createdAt_ascii := by decide
  mode _ := 448

/-- `/data` is that directory. -/
def dataLookup : Lookup where
  isSymlink _ := false
  resolve t := if t = ("/data" : Text) then some ["data"] else none

lemma allowedNames_oneEntryTree {name : Text} {n : Node} (h : AllowedName name) :
    AllowedNames (oneEntryTree name n) := by
  have hdata : AllowedName "data" := by refine ⟨?_, ?_, ?_⟩ <;> decide
  intro e he m hm
  simp only [oneEntryTree, List.mem_cons, List.not_mem_nil, or_false] at he
  rcases he with rfl | rfl
  · simp only [List.mem_cons, List.not_mem_nil, or_false] at hm
    exact hm ▸ hdata
  · simp only [List.mem_cons, List.not_mem_nil, or_false] at hm
    rcases hm with rfl | rfl
    · exact hdata
    · exact h

end RentCompass.Deploy
