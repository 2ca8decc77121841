import RentCompass.Deploy.CreateBackup
import RentCompass.Deploy.HostileArchives

/-!
# Unpacking what was archived

The members of a staged tree, unpacked by a host that grants every call, are the tree again,
unless a name has a backslash: then nothing is unpacked to the end.
-/

namespace RentCompass.Deploy

open PurePosixPath (slash dot dotDot joinNames joinpath IsName)
open FileTree (Path Node Host OsError Grows OnTheWay)
open EStateM (ensure fromExcept adaptExcept Meets)

/-! ### Joined names -/

lemma joinNames_cons_cons (n m : Text) (names : List Text) :
    joinNames (n :: m :: names) = n ++ slash :: joinNames (m :: names) := by
  simp [joinNames, List.intercalate_cons_cons]

lemma joinNames_singleton (n : Text) : joinNames [n] = n := by simp [joinNames]

lemma mem_joinNames {c : Nat} (hc : c ≠ slash) {names : List Text} :
    c ∈ joinNames names ↔ ∃ n ∈ names, c ∈ n := by
  induction names with
  | nil => simp [joinNames]
  | cons n names ih =>
    cases names with
    | nil => simp [joinNames_singleton]
    | cons m names =>
      rw [joinNames_cons_cons, List.mem_append, List.mem_cons, ih]
      simp [hc]

/-- A path of names is what its text reads as. -/
lemma joinNames_ends {names : List Text} (hne : names ≠ []) (h : ∀ n ∈ names, IsName n) :
    joinNames names ≠ [] ∧ (joinNames names).head? ≠ some slash ∧
      (joinNames names).getLast? ≠ some slash := by
  induction names with
  | nil => exact absurd rfl hne
  | cons n names ih =>
    have hn := h n (by simp)
    have hlast : n.getLast? ≠ some slash := fun hlast =>
      hn.slash_notMem (List.mem_of_getLast? hlast)
    cases names with
    | nil =>
      rw [joinNames_singleton]
      exact ⟨hn.ne_nil, hn.head, hlast⟩
    | cons m names =>
      obtain ⟨hrest, -, hend⟩ := ih (by simp) fun x hx => h x (by simp [hx])
      rw [joinNames_cons_cons]
      refine ⟨by simp, ?_, ?_⟩
      · rw [List.head?_append_of_ne_nil _ hn.ne_nil]
        exact hn.head
      · rw [List.getLast?_append_cons, List.getLast?_cons_of_ne_nil hrest]
        exact hend

/-- A name the file system allows that may be archived. -/
def Portable (names : List Text) : Prop := ∀ n ∈ names, backslash ∉ n

lemma safeMemberName_joinNames {names : List Text} (hne : names ≠ [])
    (h : ∀ n ∈ names, IsName n) (hzero : ∀ n ∈ names, 0 ∉ n) (hport : Portable names) :
    safeMemberName (joinNames names) = .ok ⟨false, names⟩ := by
  obtain ⟨hnil, hhead, hlast⟩ := joinNames_ends hne h
  have hnorm : (joinNames names).rdropWhile (· == slash) = joinNames names := by
    rw [List.rdropWhile_eq_self_iff]
    intro hl hslash
    exact hlast (by rw [List.getLast?_eq_some_getLast hl]; simpa using hslash)
  have hback : backslash ∉ joinNames names := fun hb => by
    obtain ⟨n, hn, hb⟩ := (mem_joinNames (by decide)).1 hb
    exact hport n hn hb
  have hnul : 0 ∉ joinNames names := fun hb => by
    obtain ⟨n, hn, hb⟩ := (mem_joinNames (by decide)).1 hb
    exact hzero n hn hb
  have hsplit : (joinNames names).splitOn slash = names :=
    List.splitOn_intercalate slash (fun n hn => (h n hn).slash_notMem) hne
  unfold safeMemberName
  dsimp only
  rw [hnorm, hsplit, if_neg (by simp [hnil, hhead, hback, hnul]), if_neg,
    PurePosixPath.ofSegments_of_names h]
  rintro ⟨n, hn, hbad⟩
  rcases hbad with hbad | hbad | hbad
  · exact (h n hn).ne_nil hbad
  · exact (h n hn).ne_dot hbad
  · exact (h n hn).ne_dotDot hbad

lemma portable_of_safe {names : List Text} {path : PurePosixPath}
    (h : safeMemberName (joinNames names) = .ok path) : Portable names := by
  intro n hn hb
  have hmem : backslash ∈ joinNames names := (mem_joinNames (by decide)).2 ⟨n, hn, hb⟩
  unfold safeMemberName at h
  dsimp only at h
  rw [if_pos (.inr (.inr (.inl hmem)))] at h
  cases h

/-! ### One member -/

/-- A name of the source tree as the file system hands it out. -/
structure AllowedName (name : Text) : Prop where
  isName : IsName name
  noNul : 0 ∉ name
  /-- `os.fsdecode` makes a lone surrogate of a byte that is no UTF-8, and of nothing else. -/
  decoded : ∀ c ∈ name, c < 0x110000 ∧ (Text.isSurrogate c → 0xDC80 ≤ c ∧ c ≤ 0xDCFF)

/-- An entry that a backup stages. -/
structure Staged (e : Path × Node) : Prop where
  names : ∀ n ∈ e.1, AllowedName n
  kind : e.2 ≠ .special

/-- The entry under another directory. -/
def shift (destination : Path) (e : Path × Node) : Path × Node := (destination ++ e.1, e.2)

/-- What the entry counts against the expanded size. -/
def bytesOf (e : Path × Node) : Nat := FileTree.sizeOf [e]

lemma memberOf_name (mode : Path → Nat) (e : Path × Node) :
    (memberOf mode e).name = joinNames e.1 := by
  unfold memberOf
  split <;> rfl

lemma memberOf_size (mode : Path → Nat) (e : Path × Node) :
    (memberOf mode e).size = bytesOf e := by
  unfold memberOf bytesOf FileTree.sizeOf
  obtain ⟨p, n⟩ := e
  cases n <;> simp

/-- What a granted call creates for a member. -/
lemma writeMember_memberOf {fs : FileTree} {target : Path} {e : Path × Node} (mode : Path → Nat)
    (key : Text) (hkind : e.2 ≠ .special) (hnew : fs.node? target = none)
    (hparent : fs.node? target.dropLast = some .dir) :
    ∃ fs', writeMember .willing target key (memberOf mode e) fs = .ok () fs' ∧
      fs'.entries = fs.entries ++ [(target, e.2)] := by
  obtain ⟨p, n⟩ := e
  cases n with
  | special => exact absurd rfl hkind
  | dir =>
    refine ⟨fs.create target .dir hnew hparent, ?_, rfl⟩
    unfold writeMember
    rw [if_pos (by rfl), EStateM.adaptExcept_eq_ok]
    exact FileTree.mkdir_willing false hnew hparent
  | file bytes =>
    refine ⟨fs.create target (.file bytes) hnew hparent, ?_, rfl⟩
    have hcopied : copyChunks bytes.length bytes bytes.length = (bytes, 0) := by
      rw [copyChunks_eq _ _ _ le_rfl, List.take_length, Nat.sub_self]
    unfold writeMember
    rw [if_neg (by simp [memberOf])]
    simp only [EStateM.bind_eq_ok, EStateM.adaptExcept_eq_ok, memberOf, Int.toNat_natCast, hcopied]
    exact ⟨(), fs, FileTree.mkdir_of_dir .willing hparent, (), _,
      FileTree.writeNew_willing bytes hnew hparent, by simp⟩

/-- One turn of the loop unpacks one staged entry. -/
lemma extractMember_memberOf {fs : FileTree} {destination : Path} (limits : Limits)
    (mode : Path → Nat) (index : Nat) {e : Path × Node} {state : Extraction} (he : Staged e) (hne : e.1 ≠ [])
    (hport : Portable e.1) (hindex : (index : Int) ≤ limits.maxMembers)
    (hseen : joinNames e.1 ∉ state.seen)
    (hroom : state.totalBytes + bytesOf e ≤ limits.maxExtractBytes)
    (hnew : fs.node? (destination ++ e.1) = none)
    (hparent : fs.node? (destination ++ e.1.dropLast) = some .dir) :
    ∃ state' fs', extractMember .willing limits destination index (memberOf mode e) state fs =
        .ok state' fs' ∧ fs'.entries = fs.entries ++ [shift destination e] ∧
      state'.seen = joinNames e.1 :: state.seen ∧
      state'.totalBytes = state.totalBytes + bytesOf e := by
  have hname := fun n hn => (he.names n hn).isName
  have hpath : IsMemberPath ⟨false, e.1⟩ := ⟨rfl, hne, hname⟩
  have htarget : (destination ++ e.1).dropLast = destination ++ e.1.dropLast :=
    List.dropLast_append_of_ne_nil hne
  obtain ⟨fs', hwrite, hentries⟩ := writeMember_memberOf mode (joinNames e.1) he.kind hnew
    (htarget ▸ hparent)
  have hkind : (memberOf mode e).kind = .directory ∨ (memberOf mode e).kind = .regular := by
    obtain ⟨p, n⟩ := e
    cases n with
    | special => exact absurd rfl he.kind
    | dir => exact .inl rfl
    | file bytes => exact .inr rfl
  refine ⟨⟨state.modes.insert (joinNames e.1) (memberOf mode e).mode, joinNames e.1 :: state.seen,
    state.totalBytes + bytesOf e⟩, fs', ?_, hentries, rfl, rfl⟩
  unfold extractMember
  simp only [EStateM.bind_eq_ok, EStateM.ensure_eq_ok, EStateM.fromExcept_eq_ok,
    EStateM.adaptExcept_eq_ok, EStateM.pure_eq_ok, memberOf_name, memberOf_size]
  refine ⟨(), fs, ⟨hindex, rfl⟩, ⟨false, e.1⟩, fs,
    ⟨safeMemberName_joinNames hne hname (fun n hn => (he.names n hn).noNul) hport, rfl⟩, ?_⟩
  rw [hpath.asPosix_eq, hpath.joinpath_parts]
  exact ⟨(), fs, ⟨hseen, rfl⟩, (), fs, ⟨hkind, rfl⟩, (), fs, ⟨by omega, rfl⟩, (), fs,
    ⟨hroom, rfl⟩, (), fs', hwrite, (), fs', FileTree.chmod_willing _ _, rfl, rfl⟩

/-! ### The loop -/

lemma node?_shift {fs fs' : FileTree} {destination : Path} {l : List (Path × Node)} {p : Path}
    (hentries : fs'.entries = fs.entries ++ l.map (shift destination)) (hp : p ≠ [])
    (hnone : fs.node? (destination ++ p) = none) (n : Node) :
    fs'.node? (destination ++ p) = some n ↔ (p, n) ∈ l := by
  have hne : destination ++ p ≠ [] := by simp [hp]
  rw [FileTree.node?_eq_some hne, hentries, List.mem_append]
  have hold : (destination ++ p, n) ∉ fs.entries := fun h => by
    rw [FileTree.node?_of_mem h] at hnone
    cases hnone
  simp only [hold, false_or, List.mem_map, shift, Prod.mk.injEq]
  constructor
  · rintro ⟨⟨q, m⟩, hmem, hpath, rfl⟩
    rwa [← List.append_cancel_left hpath]
  · exact fun h => ⟨(p, n), h, rfl, rfl⟩

/-- The paths of a list in order, each with its directory in front of it. -/
def ParentsFirst (l : List (Path × Node)) : Prop :=
  ∀ done e rest, l = done ++ e :: rest → e.1.dropLast = [] ∨ (e.1.dropLast, Node.dir) ∈ done

/-- The loop unpacks the staged entries in the order it finds them. -/
lemma extractMembers_memberOf {destination : Path} {limits : Limits} (mode : Path → Nat)
    {l : List (Path × Node)} (hstaged : ∀ e ∈ l, Staged e ∧ e.1 ≠ [] ∧ Portable e.1)
    (hnodup : (l.map (·.1)).Nodup) (horder : ParentsFirst l) {fs₀ : FileTree}
    (hdir : fs₀.node? destination = some .dir)
    (hfree : ∀ p, p ≠ [] → fs₀.node? (destination ++ p) = none)
    (hcount : (l.length : Int) ≤ limits.maxMembers)
    (hbytes : (FileTree.sizeOf l : Int) ≤ limits.maxExtractBytes)
    (done rest : List (Path × Node)) (hl : l = done ++ rest) (fs : FileTree)
    (hfs : fs.entries = fs₀.entries ++ done.map (shift destination)) (state : Extraction)
    (hseen : ∀ key, key ∈ state.seen ↔ ∃ e ∈ done, key = joinNames e.1)
    (htotal : state.totalBytes = FileTree.sizeOf done) :
    ∃ state' fs', extractMembers .willing limits destination false (done.length + 1)
        (rest.map (memberOf mode)) state fs = .ok state' fs' ∧
      fs'.entries = fs₀.entries ++ l.map (shift destination) := by
  induction rest generalizing done fs state with
  | nil =>
    rw [List.append_nil] at hl
    subst hl
    exact ⟨state, fs, rfl, hfs⟩
  | cons e rest ih =>
    have hmem : e ∈ l := by simp [hl]
    obtain ⟨he, hne, hport⟩ := hstaged e hmem
    have hname : ∀ n ∈ e.1, slash ∉ n := fun n hn => ((he.names n hn).isName).slash_notMem
    have hpaths : e.1 ∉ done.map (·.1) := fun hin => by
      rw [hl, List.map_append, List.nodup_append] at hnodup
      exact hnodup.2.2 _ hin e.1 (by simp) rfl
    have hnew : fs.node? (destination ++ e.1) = none := by
      cases hnode : fs.node? (destination ++ e.1) with
      | none => rfl
      | some n =>
        rw [node?_shift hfs hne (hfree _ hne)] at hnode
        exact absurd (List.mem_map_of_mem (f := (·.1)) hnode) hpaths
    have hgrow : Grows (fun _ => True) fs₀ fs := ⟨_, hfs, by simp⟩
    have hparent : fs.node? (destination ++ e.1.dropLast) = some .dir := by
      rcases horder done e rest hl with hroot | hdone
      · rw [hroot, List.append_nil]
        exact hgrow.node?_of_some hdir
      · by_cases hroot : e.1.dropLast = []
        · rw [hroot, List.append_nil]
          exact hgrow.node?_of_some hdir
        · exact (node?_shift hfs hroot (hfree _ hroot) _).2 hdone
    have hfresh : joinNames e.1 ∉ state.seen := by
      rw [hseen]
      rintro ⟨d, hd, heq⟩
      obtain ⟨hd', hdne, -⟩ := hstaged d (by simp [hl, hd])
      have := PurePosixPath.joinNames_inj hname
        (fun n hn => ((hd'.names n hn).isName).slash_notMem) hne hdne heq
      exact hpaths (this ▸ List.mem_map_of_mem hd)
    have hsize : FileTree.sizeOf l = FileTree.sizeOf done + (bytesOf e + FileTree.sizeOf rest) := by
      rw [hl, FileTree.sizeOf_append, bytesOf, ← FileTree.sizeOf_append [e] rest]
      rfl
    have hlen : l.length = done.length + (rest.length + 1) := by simp [hl]
    obtain ⟨state₁, fs₁, hrun, hfs₁, hseen₁, htotal₁⟩ := extractMember_memberOf limits mode
      (done.length + 1) he hne hport (by push_cast; omega) hfresh (by omega) hnew hparent
    obtain ⟨state', fs', hrest, hfs'⟩ := ih (done ++ [e]) (by simp [hl]) fs₁
      (by rw [hfs₁, hfs]; simp) state₁
      (by
        intro key
        rw [hseen₁, List.mem_cons, hseen]
        simp only [List.mem_append, List.mem_singleton, or_and_right, exists_or, exists_eq_left]
        exact or_comm)
      (by rw [htotal₁, htotal, FileTree.sizeOf_append]; rfl)
    refine ⟨state', fs', ?_, hfs'⟩
    rw [List.map_cons, extractMembers, EStateM.bind_eq_ok]
    refine ⟨state₁, fs₁, hrun, ?_⟩
    simpa using hrest

/-! ### The whole archive -/

lemma mem_sortedEntries {entries : List (Path × Node)} {e : Path × Node} :
    e ∈ sortedEntries entries ↔ e ∈ entries := List.mem_insertionSort _

/-- Sorted by their names, directories come before what is in them. -/
lemma parentsFirst_sortedEntries (staging : FileTree) :
    ParentsFirst (sortedEntries staging.entries) := by
  intro done e rest hl
  have he : e ∈ staging.entries := mem_sortedEntries.1 (by simp [hl])
  refine (staging.rooted e he).2.imp_right fun hdir => ?_
  have hmem := mem_sortedEntries.2 hdir
  have hne : e.1 ≠ [] := (staging.rooted e he).1
  have hshort : e.1.dropLast ≠ e.1 := fun h => by
    have := congrArg List.length h
    have := List.length_pos_of_ne_nil hne
    rw [List.length_dropLast] at *
    omega
  rw [hl] at hmem
  rcases List.mem_append.1 hmem with hdone | hrest
  · exact hdone
  · exfalso
    rcases List.mem_cons.1 hrest with heq | hrest
    · exact hshort (congrArg (·.1) heq)
    · have hsorted : (sortedEntries staging.entries).Pairwise (·.1 ≤ ·.1) :=
        List.pairwise_insertionSort (fun e f : Path × Node => e.1 ≤ f.1) _
      rw [hl, List.pairwise_append, List.pairwise_cons] at hsorted
      have hle : e.1 ≤ e.1.dropLast := hsorted.2.1.1 _ hrest
      have hge : e.1.dropLast ≤ e.1 := not_lt.1 (List.IsPrefix.le ( List.dropLast_prefix e.1))
      exact hshort (le_antisymm hge hle)

/-- Every name of the tree may be archived. -/
def PortableTree (staging : FileTree) : Prop := ∀ e ∈ staging.entries, Portable e.1

lemma sizeOf_perm {l l' : List (Path × Node)} (h : l.Perm l') :
    FileTree.sizeOf l = FileTree.sizeOf l' := (h.map _).sum_eq

/-- The tree is unpacked as it was staged. -/
theorem safeExtract_writeTar {fs staging : FileTree} {destination : Path} {limits : Limits}
    (mode : Path → Nat) (hstaged : ∀ e ∈ staging.entries, Staged e) (hport : PortableTree staging)
    (hcount : (staging.entries.length : Int) ≤ limits.maxMembers)
    (hbytes : (FileTree.sizeOf staging.entries : Int) ≤ limits.maxExtractBytes)
    (hnew : fs.node? destination = none)
    (hparent : fs.node? destination.dropLast = some .dir) :
    ∃ modes fs', safeExtract .willing limits (writeTar mode staging) destination fs =
        .ok modes fs' ∧ (∀ p, fs'.node? (destination ++ p) = staging.node? p) ∧
      Grows (fun e => destination <+: e.1) fs fs' := by
  have hperm : (sortedEntries staging.entries).Perm staging.entries :=
    List.perm_insertionSort _ _
  let fs₀ := fs.create destination .dir hnew hparent
  have hdir : fs₀.node? destination = some .dir := FileTree.node?_create_self
  have hfree : ∀ p, p ≠ [] → fs₀.node? (destination ++ p) = none := by
    intro p hp
    rw [FileTree.node?_eq_none]
    refine ⟨by simp [hp], ?_⟩
    have hfs := (FileTree.node?_eq_none.1 (FileTree.node?_eq_none_below hnew
      (List.prefix_append destination p))).2
    rw [FileTree.entries_create, List.map_append, List.mem_append]
    rintro (h | h)
    · exact hfs h
    · simp [hp] at h
  obtain ⟨state', fs', hrun, hfs'⟩ := extractMembers_memberOf mode (fun e he => by
      rw [mem_sortedEntries] at he
      exact ⟨hstaged e he, (staging.rooted e he).1, hport e he⟩)
    ((hperm.map _).nodup_iff.2 staging.distinct) (parentsFirst_sortedEntries staging) hdir hfree
    (by rwa [hperm.length_eq]) (by rwa [sizeOf_perm hperm]) [] _ rfl fs₀ (by simp) ⟨[], [], 0⟩
    (by simp) rfl
  have hgrow : Grows (fun _ => True) fs₀ fs' := ⟨_, hfs', by simp⟩
  refine ⟨state'.modes, fs', ?_, ?_, ?_⟩
  · unfold safeExtract
    simp only [EStateM.bind_eq_ok, EStateM.adaptExcept_eq_ok, EStateM.pure_eq_ok]
    exact ⟨(), fs₀, FileTree.mkdir_willing false hnew hparent, state', fs', hrun, rfl, rfl⟩
  · intro p
    by_cases hp : p = []
    · subst hp
      simpa using hgrow.node?_of_some hdir
    · refine Option.ext fun n => ?_
      rw [node?_shift hfs' hp (hfree p hp), mem_sortedEntries, FileTree.node?_eq_some hp]
  · have hcreate : Grows (fun e => destination <+: e.1) fs fs₀ :=
      FileTree.grows_create (List.prefix_rfl)
    refine hcreate.trans ⟨_, hfs', fun e he => ?_⟩
    obtain ⟨d, -, rfl⟩ := List.mem_map.1 he
    exact List.prefix_append destination d.1

/-- An archive that is unpacked to the end has no name with a backslash. -/
theorem portable_of_safeExtract {fs fs' staging : FileTree} {host : Host} {destination : Path}
    {limits : Limits} {mode : Path → Nat} {modes : Dict Nat}
    (h : safeExtract host limits (writeTar mode staging) destination fs = .ok modes fs') :
    PortableTree staging := by
  have key : ∀ (members : List Member) (index : Nat) (state state' : Extraction)
      (fs fs' : FileTree), extractMembers host limits destination false index members state fs =
        .ok state' fs' → ∀ m ∈ members, ∃ path, safeMemberName m.name = .ok path := by
    intro members
    induction members with
    | nil => simp
    | cons member members ih =>
      intro index state state' fs fs' h
      rw [extractMembers, EStateM.bind_eq_ok] at h
      obtain ⟨state₁, fs₁, hmember, hrest⟩ := h
      intro m hm
      rcases List.mem_cons.1 hm with rfl | hm
      · unfold extractMember at hmember
        simp only [EStateM.bind_eq_ok, EStateM.ensure_eq_ok, EStateM.fromExcept_eq_ok] at hmember
        obtain ⟨-, -, -, path, -, ⟨hpath, -⟩, -⟩ := hmember
        exact ⟨path, hpath⟩
      · exact ih _ _ _ _ _ hrest m hm
  unfold safeExtract at h
  simp only [EStateM.bind_eq_ok] at h
  obtain ⟨-, fs₀, -, state, fs₁, hrun, -⟩ := h
  intro e he
  have hmem : memberOf mode e ∈ (writeTar mode staging).members :=
    List.mem_map_of_mem (mem_sortedEntries.2 he)
  obtain ⟨path, hpath⟩ := key _ _ _ _ _ _ hrun _ hmem
  rw [memberOf_name] at hpath
  exact portable_of_safe hpath

/-- The members that were unpacked to the end are within the limits. -/
lemma within_of_extractMembers {host : Host} {limits : Limits} {destination : Path} {broken : Bool}
    {members : List Member} {index : Nat} {state state' : Extraction} {fs fs' : FileTree}
    (h : extractMembers host limits destination broken (index + 1) members state fs =
      .ok state' fs') (hindex : (index : Int) ≤ limits.maxMembers)
    (htotal : state.totalBytes ≤ limits.maxExtractBytes) :
    (index + members.length : Int) ≤ limits.maxMembers ∧
      state.totalBytes + (members.map (·.size)).sum ≤ limits.maxExtractBytes := by
  induction members generalizing index state fs with
  | nil => simpa using ⟨hindex, htotal⟩
  | cons member members ih =>
    rw [extractMembers, EStateM.bind_eq_ok] at h
    obtain ⟨state₁, fs₁, hmember, hrest⟩ := h
    unfold extractMember at hmember
    simp only [EStateM.bind_eq_ok, EStateM.ensure_eq_ok, EStateM.fromExcept_eq_ok,
      EStateM.pure_eq_ok] at hmember
    obtain ⟨⟨⟩, _, ⟨hcount, rfl⟩, path, _, ⟨_, rfl⟩, ⟨⟩, _, ⟨_, rfl⟩, ⟨⟩, _, ⟨_, rfl⟩, ⟨⟩, _,
      ⟨_, rfl⟩, ⟨⟩, _, ⟨hroom, rfl⟩, ⟨⟩, _, _, ⟨⟩, _, _, rfl, rfl⟩ := hmember
    have := ih hrest (by exact_mod_cast hcount) hroom
    simp only [List.length_cons, List.map_cons, List.sum_cons]
    push_cast at this ⊢
    omega

theorem within_of_safeExtract {host : Host} {limits : Limits} {archive : Archive}
    {destination : Path} {modes : Dict Nat} {fs fs' : FileTree} (hlimits : 0 < limits.maxMembers)
    (hbytes : 0 < limits.maxExtractBytes)
    (h : safeExtract host limits archive destination fs = .ok modes fs') :
    (archive.members.length : Int) ≤ limits.maxMembers ∧
      (archive.members.map (·.size)).sum ≤ limits.maxExtractBytes := by
  unfold safeExtract at h
  simp only [EStateM.bind_eq_ok] at h
  obtain ⟨-, fs₀, -, state, fs₁, hrun, -⟩ := h
  have := within_of_extractMembers hrun hlimits.le hbytes.le
  simpa using this

/-- What an archive of a tree counts for. -/
lemma writeTar_counts (mode : Path → Nat) (staging : FileTree) :
    (writeTar mode staging).members.length = staging.entries.length ∧
      ((writeTar mode staging).members.map (·.size)).sum = FileTree.sizeOf staging.entries := by
  have hperm : (sortedEntries staging.entries).Perm staging.entries :=
    List.perm_insertionSort _ _
  have hsum : ∀ l : List (Path × Node),
      ((l.map (memberOf mode)).map (·.size)).sum = FileTree.sizeOf l := by
    intro l
    induction l with
    | nil => rfl
    | cons e l ih =>
      have hcons : FileTree.sizeOf (e :: l) = bytesOf e + FileTree.sizeOf l :=
        FileTree.sizeOf_append [e] l
      rw [List.map_cons, List.map_cons, List.sum_cons, ih, memberOf_size, hcons]
      push_cast
      rfl
  refine ⟨?_, ?_⟩
  · rw [writeTar, List.length_map, hperm.length_eq]
  · rw [writeTar, hsum, sizeOf_perm hperm]

end RentCompass.Deploy
