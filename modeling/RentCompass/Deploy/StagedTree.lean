import RentCompass.Deploy.ManifestRoundTrip

/-!
# What a backup stages

The staging tree of a backup that succeeds, node by node.
-/

namespace RentCompass.Deploy

open PurePosixPath (slash joinNames IsName)
open FileTree (Path Node Host OsError Adds)
open EStateM (ensure fromExcept adaptExcept)

/-! ### Sources -/

/-- The sources of a kind: distinct labels, for nodes of that kind. -/
def ParsedSources (fs : FileTree) (kind : SourceKind) (sources : Dict Path) : Prop :=
  sources.keys.Nodup ∧ ∀ s ∈ sources, isLabel s.1 ∧ kind.accepts (fs.node? s.2)

lemma parsedSources_of_ok {lookup : Lookup} {fs : FileTree} {kind : SourceKind}
    {values : List Text} {sources : Dict Path}
    (h : parseLabeledSources lookup fs kind values = .ok sources) :
    ParsedSources fs kind sources := by
  refine List.foldlM_preserves (I := ParsedSources fs kind) ?_ ⟨by simp [Dict.keys], by simp⟩ h
  rintro result value result' ⟨hnodup, hsources⟩ hstep
  unfold parseLabeledSource at hstep
  simp only [Except.bind_eq_ok, Except.ensure_eq_ok, Except.ofOption_eq_ok,
    Except.pure_eq_ok] at hstep
  obtain ⟨-, -, -, hlabel, -, hfresh, -, -, -, -, path, -, -, hkind, rfl⟩ := hstep
  rw [Dict.insert_of_notMem hfresh]
  refine ⟨?_, fun s hs => ?_⟩
  · simp only [Dict.keys, List.map_append, List.map_cons, List.map_nil]
    rw [List.nodup_append]
    refine ⟨hnodup, by simp, ?_⟩
    rintro a ha b hb rfl
    rw [List.mem_singleton] at hb
    exact hfresh (hb ▸ ha)
  · rcases List.mem_append.1 hs with hs | hs
    · exact hsources s hs
    · rw [List.mem_singleton.1 hs]
      exact ⟨hlabel, hkind⟩

lemma node?_of_accepts_directory {o : Option Node} (h : SourceKind.directory.accepts o) :
    o = some .dir := by
  unfold SourceKind.accepts at h
  split at h
  · cases h
  · rfl
  · cases h

/-! ### The copy of a directory -/

/-- What a backup keeps of a path: directories, and files that are not excluded. -/
def keptNode (fs : FileTree) (excluded : List Path) (p : Path) : Option Node :=
  match fs.node? p with
  | some (.file bytes) => if p ∈ excluded then none else some (.file bytes)
  | some .dir => some .dir
  | _ => none

/-- The nodes of the copy. -/
def CopyOf (fs : FileTree) (excluded : List Path) (root destination : Path) (q : Path)
    (m : Node) : Prop :=
  q <+: destination ∧ m = .dir ∨
    ∃ rel, q = destination ++ rel ∧ keptNode fs excluded (root ++ rel) = some m

variable {host : Host} {fs : FileTree} {excluded : List Path}

lemma keptNode_ne_none {p : Path} {m : Node} (h : keptNode fs excluded p = some m) :
    fs.node? p ≠ none := by
  intro hnone
  rw [keptNode, hnone] at h
  cases h

lemma keptNode_of_dir {p : Path} (h : fs.node? p = some .dir) :
    keptNode fs excluded p = some .dir := by
  rw [keptNode, h]

lemma node?_of_keptNode_dir {p : Path} (h : keptNode fs excluded p = some .dir) :
    fs.node? p = some .dir := by
  unfold keptNode at h
  split at h
  · split_ifs at h
    cases h
  · assumption
  · cases h

lemma mem_directoryNames {root : Path} {n : Text} :
    n ∈ directoryNames fs root ↔ fs.node? (root ++ [n]) = some .dir := by
  rw [directoryNames, List.mem_filter, List.mem_insertionSort, mem_childNames, decide_eq_true_eq]
  exact ⟨fun h => h.2, fun h => ⟨by simp [h], h⟩⟩

lemma mem_fileNames {root : Path} {n : Text} :
    n ∈ fileNames fs root ↔
      fs.node? (root ++ [n]) ≠ none ∧ fs.node? (root ++ [n]) ≠ some .dir := by
  rw [fileNames, List.mem_filter, List.mem_insertionSort, mem_childNames, decide_eq_true_eq]

lemma adds_of_copyEntry {child destination : Path} {staging staging' : FileTree}
    (h : copyEntry host fs excluded child destination staging = .ok () staging') :
    Adds (fun q m => q = destination ∧ keptNode fs excluded child = some m) staging staging' ∧
      fs.node? child ≠ some .special := by
  unfold copyEntry at h
  cases hnode : fs.node? child with
  | none =>
    simp only [hnode] at h
    cases h
  | some n =>
    cases n with
    | dir =>
      simp only [hnode] at h
      cases h
    | special =>
      simp only [hnode] at h
      cases h
    | file bytes =>
      simp only [hnode] at h
      refine ⟨?_, by simp⟩
      split_ifs at h with hex
      · obtain ⟨-, rfl⟩ := EStateM.pure_eq_ok.1 h
        refine (Adds.refl staging).congr ?_
        simp [keptNode, hnode, hex]
      · refine (FileTree.adds_of_writeNew (EStateM.adaptExcept_eq_ok.1 h)).congr ?_
        intro q m
        rw [keptNode, hnode]
        simp [hex, eq_comm]

/-- Below a directory of so many levels, the walk copies what is to be kept, and has met no link
and no device. -/
lemma adds_of_copyDirectory {depth : Nat} {root destination : Path} {staging staging' : FileTree}
    (hroot : fs.node? root = some .dir)
    (hdepth : ∀ rel, fs.node? (root ++ rel) ≠ none → rel.length < depth)
    (h : copyDirectory host fs excluded depth root destination staging = .ok () staging') :
    Adds (CopyOf fs excluded root destination) staging staging' ∧
      ∀ rel, fs.node? (root ++ rel) ≠ some .special := by
  induction depth generalizing root destination staging staging' with
  | zero =>
    have := hdepth [] (by simp [hroot])
    simp at this
  | succ depth ih =>
    unfold copyDirectory at h
    simp only [EStateM.bind_eq_ok, stagingCall, EStateM.adaptExcept_eq_ok] at h
    obtain ⟨⟨⟩, staging₁, h₁, ⟨⟩, staging₂, h₂, ⟨⟩, staging₃, h₃, h₄⟩ := h
    have hchild : ∀ n ∈ directoryNames fs root, ∀ rel,
        fs.node? (root ++ [n] ++ rel) ≠ none → rel.length < depth := by
      intro n _ rel hrel
      rw [List.append_assoc] at hrel
      have := hdepth _ hrel
      simpa using this
    have hdirs := Adds.of_forM (g := fun n q m => q <+: destination ++ [n] ∧ m = .dir)
      (fun n _ _ _ h => FileTree.adds_of_mkdirHere (EStateM.adaptExcept_eq_ok.1 h)) h₂
    have hfiles := Adds.of_forM (g := fun n q m =>
        q = destination ++ [n] ∧ keptNode fs excluded (root ++ [n]) = some m)
      (fun n _ _ _ h => (adds_of_copyEntry h).1) h₃
    have hrest := Adds.of_forM (g := fun n => CopyOf fs excluded (root ++ [n]) (destination ++ [n]))
      (fun n hn _ _ h => (ih (mem_directoryNames.1 hn) (hchild n hn) h).1) h₄
    have hbelow : ∀ n rel, rel ≠ [] → fs.node? (root ++ n :: rel) ≠ none →
        n ∈ directoryNames fs root := by
      intro n rel hrel hnode
      rw [mem_directoryNames]
      refine FileTree.node?_above hnode ⟨rel, by simp⟩ ?_
      simpa using hrel
    constructor
    · refine (((FileTree.adds_of_mkdir h₁).trans hdirs).trans (hfiles.trans hrest)).congr ?_
      intro q m
      constructor
      · rintro ((⟨hq, rfl⟩ | ⟨n, hn, hq, rfl⟩) | (⟨n, hn, rfl, hkept⟩ | ⟨n, hn, hcopy⟩))
        · exact .inl ⟨hq, rfl⟩
        · rcases List.prefix_concat_iff.1 hq with rfl | hq
          · exact .inr ⟨[n], rfl, keptNode_of_dir (mem_directoryNames.1 hn)⟩
          · exact .inl ⟨hq, rfl⟩
        · exact .inr ⟨[n], rfl, hkept⟩
        · rcases hcopy with ⟨hq, rfl⟩ | ⟨rel, rfl, hkept⟩
          · rcases List.prefix_concat_iff.1 hq with rfl | hq
            · exact .inr ⟨[n], rfl, keptNode_of_dir (mem_directoryNames.1 hn)⟩
            · exact .inl ⟨hq, rfl⟩
          · exact .inr ⟨n :: rel, by simp, by simpa using hkept⟩
      · rintro (⟨hq, rfl⟩ | ⟨rel, rfl, hkept⟩)
        · exact .inl (.inl ⟨hq, rfl⟩)
        · cases rel with
          | nil =>
            rw [List.append_nil, keptNode_of_dir hroot] at hkept
            cases hkept
            exact .inl (.inl ⟨by simp, rfl⟩)
          | cons n rel =>
            by_cases hrel : rel = []
            · subst hrel
              cases m with
              | dir =>
                have hn := mem_directoryNames.2 (node?_of_keptNode_dir hkept)
                exact .inl (.inr ⟨n, hn, by simp, rfl⟩)
              | file bytes =>
                refine .inr (.inl ⟨n, mem_fileNames.2 ⟨keptNode_ne_none hkept, ?_⟩, rfl, hkept⟩)
                intro hdir
                rw [keptNode_of_dir hdir] at hkept
                cases hkept
              | special =>
                refine .inr (.inl ⟨n, mem_fileNames.2 ⟨keptNode_ne_none hkept, ?_⟩, rfl, hkept⟩)
                intro hdir
                rw [keptNode_of_dir hdir] at hkept
                cases hkept
            · exact .inr (.inr ⟨n, hbelow n rel hrel (keptNode_ne_none hkept),
                .inr ⟨rel, by simp, by simpa using hkept⟩⟩)
    · intro rel hspecial
      cases rel with
      | nil =>
        rw [List.append_nil, hroot] at hspecial
        cases hspecial
      | cons n rel =>
        by_cases hrel : rel = []
        · subst hrel
          have hn : n ∈ fileNames fs root := mem_fileNames.2 (by simp [hspecial])
          obtain ⟨t, t', -, ht, -⟩ := EStateM.exists_of_forM_ok h₃ n hn
          exact (adds_of_copyEntry ht).2 hspecial
        · have hn := hbelow n rel hrel (by simp [hspecial])
          obtain ⟨t, t', -, ht, -⟩ := EStateM.exists_of_forM_ok h₄ n hn
          exact (ih (mem_directoryNames.1 hn) (hchild n hn) ht).2 rel (by simpa using hspecial)

lemma length_lt_levels {p : Path} (h : fs.node? p ≠ none) : p.length < levels fs := by
  by_cases hp : p = []
  · subst hp
    simp [levels]
  · obtain ⟨n, hn⟩ := Option.ne_none_iff_exists'.1 h
    have hmem : p.length ∈ fs.entries.map (·.1.length) :=
      List.mem_map_of_mem (f := (·.1.length)) ((FileTree.node?_eq_some hp).1 hn)
    have hle : ∀ l : List Nat, p.length ∈ l → p.length ≤ l.foldr max 0 := by
      intro l
      induction l with
      | nil => simp
      | cons k l ih =>
        rw [List.mem_cons, List.foldr_cons]
        rintro (rfl | hl)
        · exact Nat.le_max_left _ _
        · exact (ih hl).trans (Nat.le_max_right _ _)
    exact Nat.lt_succ_of_le (hle _ hmem)

lemma adds_of_copyDirectoryStable {source destination : Path} {staging staging' : FileTree}
    (hsource : fs.node? source = some .dir)
    (h : copyDirectoryStable host fs excluded source destination staging = .ok () staging') :
    Adds (CopyOf fs excluded source destination) staging staging' ∧
      ∀ rel, fs.node? (source ++ rel) ≠ some .special := by
  unfold copyDirectoryStable at h
  simp only [EStateM.bind_eq_ok, stagingCall, EStateM.adaptExcept_eq_ok] at h
  obtain ⟨⟨⟩, staging₁, h₁, h₂⟩ := h
  obtain ⟨hadds, hplain⟩ := adds_of_copyDirectory hsource (fun rel hrel => by
    have := length_lt_levels hrel
    rw [List.length_append] at this
    omega) h₂
  refine ⟨((FileTree.adds_of_mkdir h₁).trans hadds).congr ?_, hplain⟩
  intro q m
  constructor
  · rintro (h | h)
    · exact .inl h
    · exact h
  · exact .inr

/-! ### The staging tree -/

variable {φ : Type} [FloatFormat φ] {snapshot : Path → Option (List Nat)} {quickCheck : QuickCheck}
  {sqliteSources directorySources : Dict Path} {encrypt : Bool} {createdAt : Text}

/-- The nodes of the payload. -/
inductive PayloadNode (fs : FileTree) (snapshot : Path → Option (List Nat))
    (sqliteSources directorySources : Dict Path) (q : Path) (m : Node) : Prop where
  | root (hq : q <+: [payloadName, sqliteName] ∨ q <+: [payloadName, directoriesName])
      (hm : m = .dir)
  | sqlite (s : Text × Path) (hs : s ∈ sqliteSources) (bytes : List Nat)
      (hbytes : snapshot s.2 = some bytes) (hq : q = sqlitePath s.1) (hm : m = .file bytes)
  | directory (s : Text × Path) (hs : s ∈ directorySources) (rel : Path)
      (hq : q = directoryPath s.1 ++ rel)
      (hkept : keptNode fs (excludedFiles sqliteSources) (s.2 ++ rel) = some m)

omit [FloatFormat φ] in
lemma adds_of_onlineSqliteBackup {s : Text × Path} {staging staging' : FileTree}
    (h : onlineSqliteBackup host snapshot quickCheck s staging = .ok () staging') :
    ∃ bytes, snapshot s.2 = some bytes ∧
      sqliteQuickCheck quickCheck staging' (sqlitePath s.1) ∧
      Adds (fun q m => q <+: [payloadName, sqliteName] ∧ m = .dir ∨
        q = sqlitePath s.1 ∧ m = .file bytes) staging staging' := by
  unfold onlineSqliteBackup at h
  simp only [EStateM.bind_eq_ok, stagingCall, EStateM.adaptExcept_eq_ok,
    EStateM.fromExcept_eq_ok, Except.ofOption_eq_ok] at h
  obtain ⟨⟨⟩, staging₁, h₁, bytes, _, ⟨hbytes, rfl⟩, ⟨⟩, staging₂, h₂, _, _, hget, hcheck⟩ := h
  cases hget
  obtain ⟨hquick, rfl⟩ := EStateM.ensure_eq_ok.1 hcheck
  exact ⟨bytes, hbytes, hquick,
    (FileTree.adds_of_mkdir h₁).trans (FileTree.adds_of_writeNew h₂)⟩

/-- What a staging that succeeds leaves behind. -/
structure Stages (φ : Type) [FloatFormat φ] (fs : FileTree) (snapshot : Path → Option (List Nat))
    (quickCheck : QuickCheck) (sqliteSources directorySources : Dict Path) (encrypt : Bool)
    (createdAt : Text) (before staging : FileTree) : Prop where
  entries : staging.entries = before.entries ++ [([manifestName], .file (manifestFile (manifestOf
    (archiveRows (φ := φ) before) sqliteSources directorySources encrypt createdAt)))]
  node : ∀ q m, before.node? q = some m ↔
    PayloadNode fs snapshot sqliteSources directorySources q m
  /-- Each copy passed the check when not everything was there yet. -/
  sqlite : ∀ s ∈ sqliteSources, ∃ bytes earlier, snapshot s.2 = some bytes ∧
    sqliteQuickCheck quickCheck earlier (sqlitePath s.1) ∧
    earlier.node? (sqlitePath s.1) = some (.file bytes) ∧
    ∀ q m, earlier.node? q = some m → before.node? q = some m
  plain : ∀ s ∈ directorySources, ∀ rel, fs.node? (s.2 ++ rel) ≠ some .special

lemma stages_of_ok {staging : FileTree}
    (hdirs : ∀ s ∈ directorySources, fs.node? s.2 = some .dir)
    (h : stageBackup φ host fs snapshot quickCheck sqliteSources directorySources encrypt createdAt
      FileTree.empty = .ok () staging) :
    ∃ before, Stages φ fs snapshot quickCheck sqliteSources directorySources encrypt createdAt
      before staging := by
  unfold stageBackup at h
  simp only [EStateM.bind_eq_ok, stagingCall, EStateM.adaptExcept_eq_ok] at h
  obtain ⟨⟨⟩, staging₁, h₁, ⟨⟩, staging₂, h₂, ⟨⟩, staging₃, h₃, ⟨⟩, staging₄, h₄, _, _, hget, h₅⟩ := h
  cases hget
  have hsqlite : ∀ (l : Dict Path) {t t' : FileTree},
      l.forM (onlineSqliteBackup host snapshot quickCheck) t = .ok () t' →
      Adds (fun q m => ∃ s ∈ l, q <+: [payloadName, sqliteName] ∧ m = .dir ∨
        ∃ bytes, snapshot s.2 = some bytes ∧ q = sqlitePath s.1 ∧ m = .file bytes) t t' := by
    intro l t t' ht
    refine (Adds.of_forM (g := fun s q m => q <+: [payloadName, sqliteName] ∧ m = .dir ∨
      ∃ bytes, snapshot s.2 = some bytes ∧ q = sqlitePath s.1 ∧ m = .file bytes)
      (fun s _ u u' hu => ?_) ht).congr (by simp)
    obtain ⟨bytes, hbytes, -, hadds⟩ := adds_of_onlineSqliteBackup hu
    exact hadds.congr fun q m => by simp [hbytes]
  have hcopies := Adds.of_forM
    (g := fun s => CopyOf fs (excludedFiles sqliteSources) s.2 (directoryPath s.1))
    (fun s hs _ _ hu => (adds_of_copyDirectoryStable (hdirs s (Dict.mem_sortKeys.1 hs)) hu).1) h₄
  have hall := (((FileTree.adds_of_mkdir h₁).trans (FileTree.adds_of_mkdir h₂)).trans
    (hsqlite _ h₃)).trans hcopies
  refine ⟨staging₄, ?_, ?_, ?_, ?_⟩
  · exact ((EStateM.meets_of_ok h₅).1 (FileTree.writeNew_meets _ _ _ _)).2
  · intro q m
    constructor
    · intro hnode
      rcases hall.only q m hnode with hempty | hadded
      · by_cases hnil : q = []
        · subst hnil
          cases hempty
          exact .root (.inl (by simp)) rfl
        · rw [FileTree.node?_eq_some hnil] at hempty
          cases hempty
      · rcases hadded with ((⟨hq, rfl⟩ | ⟨hq, rfl⟩) | ⟨s, hs, hcase⟩) | ⟨s, hs, hcopy⟩
        · exact .root (.inl hq) rfl
        · exact .root (.inr hq) rfl
        · rcases hcase with ⟨hq, rfl⟩ | ⟨bytes, hbytes, rfl, rfl⟩
          · exact .root (.inl hq) rfl
          · exact .sqlite s (Dict.mem_sortKeys.1 hs) bytes hbytes rfl rfl
        · have hs := Dict.mem_sortKeys.1 hs
          rcases hcopy with ⟨hq, rfl⟩ | ⟨rel, rfl, hkept⟩
          · change q <+: [payloadName, directoriesName] ++ [s.1] at hq
            rcases List.prefix_concat_iff.1 hq with rfl | hq
            · refine .directory s hs [] (by simp [directoryPath]) ?_
              rw [List.append_nil]
              exact keptNode_of_dir (hdirs s hs)
            · exact .root (.inr hq) rfl
          · exact .directory s hs rel rfl hkept
    · rintro (⟨hq | hq, rfl⟩ | ⟨s, hs, bytes, hbytes, rfl, rfl⟩ | ⟨s, hs, rel, rfl, hkept⟩)
      · exact hall.adds _ _ (.inl (.inl (.inl ⟨hq, rfl⟩)))
      · exact hall.adds _ _ (.inl (.inl (.inr ⟨hq, rfl⟩)))
      · exact hall.adds _ _ (.inl (.inr ⟨s, Dict.mem_sortKeys.2 hs, .inr ⟨bytes, hbytes, rfl, rfl⟩⟩))
      · exact hall.adds _ _ (.inr ⟨s, Dict.mem_sortKeys.2 hs, .inr ⟨rel, rfl, hkept⟩⟩)
  · intro s hs
    obtain ⟨t, t', rest, ht, -, hrest⟩ :=
      EStateM.exists_of_forM_ok h₃ s (Dict.mem_sortKeys.2 hs)
    obtain ⟨bytes, hbytes, hquick, hadds⟩ := adds_of_onlineSqliteBackup ht
    refine ⟨bytes, t', hbytes, hquick, hadds.adds _ _ (.inr ⟨rfl, rfl⟩), fun q m hq => ?_⟩
    exact hcopies.keeps q m ((hsqlite _ hrest).keeps q m hq)
  · intro s hs
    obtain ⟨t, t', rest, ht, -⟩ := EStateM.exists_of_forM_ok h₄ s (Dict.mem_sortKeys.2 hs)
    exact (adds_of_copyDirectoryStable (hdirs s hs) ht).2

end RentCompass.Deploy
