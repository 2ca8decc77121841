import RentCompass.Deploy.RuntimeBackup

/-!
# Hostile archives

Whatever the members and the manifest, opening an archive touches nothing but the directory it
unpacks into, and ends well only where the payload is what the manifest lists.
-/

namespace RentCompass.Deploy

open PurePosixPath (slash dot dotDot joinNames joinpath IsName)
open FileTree (Path Node Host OsError Grows OnTheWay)
open EStateM (ensure fromExcept adaptExcept Meets)

/-! ### Names -/

/-- A path text that is taken as it stands. -/
structure IsMemberPath (path : PurePosixPath) : Prop where
  relative : path.absolute = false
  ne_nil : path.names ≠ []
  isName : ∀ n ∈ path.names, IsName n

namespace IsMemberPath

variable {path path' : PurePosixPath}

lemma parts_eq (h : IsMemberPath path) : path.parts = path.names := by
  simp [PurePosixPath.parts, h.relative]

lemma asPosix_eq (h : IsMemberPath path) : path.asPosix = joinNames path.names := by
  simp [PurePosixPath.asPosix, h.relative, h.ne_nil]

lemma joinpath_parts (h : IsMemberPath path) (base : Path) :
    joinpath base path.parts = base ++ path.names := by
  rw [h.parts_eq, PurePosixPath.joinpath_of_names base h.isName]

end IsMemberPath

lemma isName_of_mem_splitOn {t name : Text} (h : name ∈ t.splitOn slash)
    (hplain : ¬ (name = [] ∨ name = dot ∨ name = dotDot)) : IsName name := by
  push Not at hplain
  exact ⟨hplain.1, hplain.2.1, hplain.2.2, PurePosixPath.slash_notMem_splitOn h⟩

/-- An accepted name is a path of plain names, which the text joins. -/
lemma isMemberPath_of_safe {name : Text} {path : PurePosixPath}
    (h : safeMemberName name = .ok path) :
    IsMemberPath path ∧ path.asPosix = name.rdropWhile (· == slash) := by
  unfold safeMemberName at h
  dsimp only at h
  split_ifs at h with hbad hpart
  cases h
  push Not at hpart
  have hnames : ∀ n ∈ (name.rdropWhile (· == slash)).splitOn slash, IsName n := fun n hn =>
    isName_of_mem_splitOn hn (by simpa using hpart n hn)
  rw [PurePosixPath.ofSegments_of_names hnames]
  have hpath : IsMemberPath ⟨false, (name.rdropWhile (· == slash)).splitOn slash⟩ :=
    ⟨rfl, List.splitOn_ne_nil _ _, hnames⟩
  refine ⟨hpath, ?_⟩
  rw [hpath.asPosix_eq]
  exact List.intercalate_splitOn slash

/-! ### Extraction -/

/-- An entry under the destination that is a directory or a regular file. -/
def Inside (destination : Path) (e : Path × Node) : Prop :=
  (∃ names, e.1 = destination ++ names ∧ ∀ n ∈ names, IsName n) ∧ e.2 ≠ .special

/-- What is new lies under the destination, and is a directory or a regular file. -/
def Contained (destination : Path) : FileTree → FileTree → Prop := Grows (Inside destination)

/-- What is new is contained, and its files have at most so many bytes. -/
def Spends (destination : Path) (budget : Int) (fs fs' : FileTree) : Prop :=
  Contained destination fs fs' ∧
    (FileTree.sizeOf fs'.entries : Int) ≤ FileTree.sizeOf fs.entries + budget

variable {destination : Path} {fs fs' fs'' : FileTree} {b c : Int}

lemma Spends.refl (destination : Path) (fs : FileTree) (hb : 0 ≤ b) : Spends destination b fs fs :=
  ⟨.refl _ _, by omega⟩

lemma Spends.trans (h : Spends destination b fs fs') (h' : Spends destination c fs' fs'') :
    Spends destination (b + c) fs fs'' :=
  ⟨h.1.trans h'.1, by have := h.2; have := h'.2; omega⟩

lemma Spends.mono (h : Spends destination b fs fs') (hbc : b ≤ c) : Spends destination c fs fs' :=
  ⟨h.1, by have := h.2; omega⟩

/-- Directories on the way to a path below the destination cost nothing. -/
lemma spends_of_onTheWay {names : List Text} (hnames : ∀ n ∈ names, IsName n)
    (hdir : fs.node? destination = some .dir)
    (h : Grows (OnTheWay (destination ++ names)) fs fs') : Spends destination 0 fs fs' := by
  refine ⟨h.imp ?_, ?_⟩
  · rintro e hnew ⟨hway, hkind⟩
    obtain ⟨way, hbelow⟩ := FileTree.below_of_new hdir hnew hway
    rw [← hbelow] at hway
    have hsub := ((List.prefix_append_right_inj destination).1 hway).subset
    exact ⟨⟨way, hbelow.symm, fun n hn => hnames n (hsub hn)⟩, by simp [hkind]⟩
  · obtain ⟨created, hcreated, hway⟩ := h
    have := FileTree.sizeOf_eq_zero fun e he => (hway e he).2
    rw [hcreated, FileTree.sizeOf_append, this]
    simp

lemma spends_of_file {names : List Text} (hnames : ∀ n ∈ names, IsName n) {bytes : List Nat}
    (h : fs'.entries = fs.entries ++ [(destination ++ names, .file bytes)]) {b : Int}
    (hb : (bytes.length : Int) ≤ b) : Spends destination b fs fs' := by
  refine ⟨⟨_, h, ?_⟩, ?_⟩
  · intro e he
    cases List.mem_singleton.1 he
    exact ⟨⟨names, rfl, hnames⟩, by simp⟩
  · rw [h, FileTree.sizeOf_append]
    simp only [FileTree.sizeOf, List.map_cons, List.map_nil, List.sum_cons, List.sum_nil]
    omega

/-- The copy loop writes the first bytes, up to the size, and stops early where they run out. -/
lemma copyChunks_eq (fuel : Nat) (data : List Nat) (remaining : Nat) (h : remaining ≤ fuel) :
    copyChunks fuel data remaining = (data.take remaining, remaining - data.length) := by
  induction fuel generalizing data remaining with
  | zero =>
    obtain rfl : remaining = 0 := by omega
    simp [copyChunks]
  | succ fuel ih =>
    unfold copyChunks
    by_cases hzero : remaining = 0
    · simp [hzero]
    · rw [if_neg hzero]
      dsimp only
      split_ifs with hchunk
      · have hdata : data = [] := by
          rcases List.take_eq_nil_iff.1 hchunk with h | h
          · simp only [chunkSize] at h
            omega
          · exact h
        simp [hdata]
      · have hlen : 0 < (data.take (min chunkSize remaining)).length := List.length_pos_of_ne_nil hchunk
        have hle : (data.take (min chunkSize remaining)).length ≤ remaining := by
          rw [List.length_take]
          omega
        rw [ih _ _ (by omega)]
        refine Prod.ext ?_ ?_
        · -- the chunk and the first bytes behind it
          have hmin : min chunkSize remaining ≤ data.length ∨
              data.length < min chunkSize remaining := by omega
          rcases hmin with hmin | hmin
          · have hlen' : (data.take (min chunkSize remaining)).length = min chunkSize remaining := by
              rw [List.length_take, Nat.min_eq_left hmin]
            have hsum : min chunkSize remaining + (remaining - min chunkSize remaining) = remaining :=
              Nat.add_sub_cancel' (Nat.min_le_right _ _)
            rw [hlen', ← List.take_add, hsum]
          · rw [List.take_of_length_le (l := data) (by omega), List.drop_length, List.take_nil,
              List.append_nil, List.take_of_length_le (by omega)]
        · simp only [List.length_drop, List.length_take]
          omega

lemma length_copyChunks (data : List Nat) (size : Nat) :
    (copyChunks size data size).1.length ≤ size := by
  rw [copyChunks_eq size data size le_rfl, List.length_take]
  exact Nat.min_le_left _ _

/-- The target of a member with an accepted name lies below the destination. -/
lemma writeMember_meets (host : Host) {names : List Text} (hnames : ∀ n ∈ names, IsName n) (key : Text) {member : Member}
    (hsize : 0 ≤ member.size) (hdir : fs.node? destination = some .dir) :
    (writeMember host (destination ++ names) key member).Meets fs
      (fun _ => Spends destination member.size fs) (Spends destination member.size fs) := by
  unfold writeMember
  split_ifs
  · rw [EStateM.meets_adaptExcept]
    refine (FileTree.mkdir_meets host false (destination ++ names) fs).imp ?_ ?_
    · exact fun _ fs' h => (spends_of_onTheWay hnames hdir h.1).mono hsize
    · exact fun fs' h => (spends_of_onTheWay hnames hdir h).mono hsize
  · have hparent : ∀ {fs'}, Grows (OnTheWay (destination ++ names).dropLast) fs fs' →
        Spends destination 0 fs fs' := fun h =>
      spends_of_onTheWay hnames hdir (h.imp fun _ _ he => he.of_dropLast)
    have hcopied : ((copyChunks member.size.toNat member.data member.size.toNat).1.length : Int) ≤
        member.size := by
      have := length_copyChunks member.data member.size.toNat
      omega
    simp only [EStateM.meets_bind, EStateM.meets_adaptExcept]
    refine (FileTree.mkdir_meets host true _ fs).imp ?_ ?_
    · rintro - fs₁ ⟨hgrow, -⟩
      have h₁ := hparent hgrow
      refine (FileTree.writeNew_meets host _ _ fs₁).imp ?_ ?_
      · rintro - fs₂ ⟨-, hentries⟩
        have h₂ : Spends destination member.size fs fs₂ :=
          (h₁.trans (spends_of_file hnames hentries hcopied)).mono (by omega)
        simp only [EStateM.meets_ensure]
        exact ⟨fun _ => h₂, fun _ => h₂⟩
      · rintro fs₂ (rfl | ⟨part, hpart, -, hentries⟩)
        · exact h₁.mono hsize
        · have hlen : (part.length : Int) ≤ member.size :=
            le_trans (by exact_mod_cast hpart.length_le) hcopied
          exact (h₁.trans (spends_of_file hnames hentries hlen)).mono (by omega)
    · exact fun fs₁ hgrow => (hparent hgrow).mono hsize

/-- One member: its bytes are counted before they are written. -/
lemma extractMember_meets (host : Host) (limits : Limits) (index : Nat) (member : Member)
    (state : Extraction) (hdir : fs.node? destination = some .dir)
    (hroom : state.totalBytes ≤ max 0 limits.maxExtractBytes) :
    (extractMember host limits destination index member state).Meets fs
      (fun state' fs' => Spends destination (state'.totalBytes - state.totalBytes) fs fs' ∧
        state'.totalBytes ≤ max 0 limits.maxExtractBytes ∧ (index : Int) ≤ limits.maxMembers)
      (Spends destination (max 0 limits.maxExtractBytes - state.totalBytes) fs) := by
  have hstay : Spends destination (max 0 limits.maxExtractBytes - state.totalBytes) fs fs :=
    .refl _ _ (by omega)
  unfold extractMember
  simp only [EStateM.meets_bind, EStateM.meets_ensure, EStateM.meets_fromExcept,
    EStateM.meets_adaptExcept, EStateM.meets_pure]
  refine ⟨fun hindex => ⟨fun relative hname => ?_, fun _ _ => hstay⟩, fun _ => hstay⟩
  refine ⟨fun _ => ⟨fun _ => ⟨fun hsize => ⟨fun htotal => ?_, fun _ => hstay⟩, fun _ => hstay⟩,
    fun _ => hstay⟩, fun _ => hstay⟩
  obtain ⟨hpath, -⟩ := isMemberPath_of_safe hname
  rw [hpath.joinpath_parts]
  refine (writeMember_meets host hpath.isName relative.asPosix hsize hdir).imp ?_ ?_
  · rintro - fs₁ h₁
    refine (FileTree.chmod_meets host _ fs₁).imp ?_ ?_
    · rintro - _ rfl
      refine ⟨h₁.mono (by omega), ?_, hindex⟩
      omega
    · rintro _ rfl
      exact h₁.mono (by omega)
  · exact fun fs₁ h₁ => h₁.mono (by omega)

/-- The loop: what the members before have left may be spent. -/
lemma extractMembers_meets (host : Host) (limits : Limits) (broken : Bool) (index : Nat)
    (members : List Member) (state : Extraction) (hdir : fs.node? destination = some .dir)
    (hroom : state.totalBytes ≤ max 0 limits.maxExtractBytes) :
    (extractMembers host limits destination broken index members state).Meets fs
      (fun state' fs' => Spends destination (state'.totalBytes - state.totalBytes) fs fs' ∧
        state'.totalBytes ≤ max 0 limits.maxExtractBytes ∧
        (members ≠ [] → (index + members.length : Int) ≤ limits.maxMembers + 1))
      (Spends destination (max 0 limits.maxExtractBytes - state.totalBytes) fs) := by
  induction members generalizing index state fs with
  | nil =>
    unfold extractMembers
    simp only [EStateM.meets_bind, EStateM.meets_ensure, EStateM.meets_pure]
    exact ⟨fun _ => ⟨.refl _ _ (by omega), hroom, by simp⟩, fun _ => .refl _ _ (by omega)⟩
  | cons member members ih =>
    unfold extractMembers
    rw [EStateM.meets_bind]
    refine (extractMember_meets host limits index member state hdir hroom).imp ?_ ?_
    · rintro state₁ fs₁ ⟨h₁, hroom₁, hindex⟩
      have hdir₁ := h₁.1.node?_of_some hdir
      refine (ih (index + 1) state₁ hdir₁ hroom₁).imp ?_ ?_
      · rintro state₂ fs₂ ⟨h₂, hroom₂, hcount⟩
        refine ⟨(h₁.trans h₂).mono (by omega), hroom₂, fun _ => ?_⟩
        cases members with
        | nil =>
          simp only [List.length_cons, List.length_nil]
          omega
        | cons next members =>
          have := hcount (by simp)
          simp only [List.length_cons] at this ⊢
          push_cast at this ⊢
          omega
      · exact fun fs₂ h₂ => (h₁.trans h₂).mono (by omega)
    · exact fun fs₁ h₁ => h₁

/-- The destination is the only thing that is new on the way to it. -/
lemma spends_of_destination (hparent : fs.node? destination.dropLast = some .dir)
    (h : Grows (OnTheWay destination) fs fs') : Spends destination 0 fs fs' := by
  refine ⟨h.imp ?_, ?_⟩
  · rintro ⟨p, n⟩ hnew ⟨hway, hkind⟩
    simp only at hnew hway hkind
    subst hkind
    suffices hp : p = destination from ⟨⟨[], by simp [hp], by simp⟩, by simp⟩
    by_contra hne
    have hlen : p.length < destination.length :=
      lt_of_le_of_ne hway.length_le fun h => hne (hway.eq_of_length h)
    have habove : p <+: destination.dropLast := by
      refine List.prefix_of_prefix_length_le hway ( List.dropLast_prefix destination) ?_
      rw [List.length_dropLast]
      exact Nat.le_sub_one_of_lt hlen
    rw [FileTree.node?_eq_none_below hnew habove] at hparent
    cases hparent
  · obtain ⟨created, hcreated, hway⟩ := h
    have := FileTree.sizeOf_eq_zero fun e he => (hway e he).2
    rw [hcreated, FileTree.sizeOf_append, this]
    simp

/-- Unpacking stays under the destination and within the limits. -/
lemma safeExtract_meets (host : Host) (limits : Limits) (archive : Archive)
    (hparent : fs.node? destination.dropLast = some .dir) :
    (safeExtract host limits archive destination).Meets fs
      (fun _ fs' => Spends destination (max 0 limits.maxExtractBytes) fs fs' ∧
        fs.node? destination = none ∧
        (archive.members.length : Int) ≤ max 0 limits.maxMembers)
      (Spends destination (max 0 limits.maxExtractBytes) fs) := by
  unfold safeExtract
  simp only [EStateM.meets_bind, EStateM.meets_adaptExcept, EStateM.meets_pure]
  refine (FileTree.mkdir_meets host false destination fs).imp ?_ ?_
  · rintro - fs₁ ⟨hgrow, hdir, hnew⟩
    have h₁ := spends_of_destination hparent hgrow
    refine (extractMembers_meets host limits archive.broken 1 archive.members ⟨[], [], 0⟩ hdir
      (by simp)).imp ?_ ?_
    · rintro state fs₂ ⟨h₂, hroom, hcount⟩
      refine ⟨(h₁.trans h₂).mono (by simpa using hroom), hnew rfl, ?_⟩
      cases hmembers : archive.members with
      | nil => simp
      | cons member members =>
        rw [hmembers] at hcount
        have := hcount (by simp)
        omega
    · exact fun fs₂ h₂ => (h₁.trans h₂).mono (by simp)
  · exact fun fs₁ hgrow => (spends_of_destination hparent hgrow).mono (by simp)

/-! ### The manifest -/

variable {φ : Type}

lemma manifestRelativePath_eq_ok {value : Option (JsonValue φ)} {wanted : Text}
    {path : PurePosixPath} (h : manifestRelativePath value wanted = .ok path) :
    IsMemberPath path ∧ value = some (.str path.asPosix) ∧ wanted <+: path.asPosix := by
  unfold manifestRelativePath at h
  split at h
  · simp only [Except.bind_eq_ok, Except.ensure_eq_ok, Except.pure_eq_ok] at h
    obtain ⟨path, hsafe, -, ⟨heq, hwanted⟩, rfl⟩ := h
    exact ⟨(isMemberPath_of_safe hsafe).1, by rw [heq], hwanted⟩
  · cases h

/-- A text that begins with a directory is a path into it. -/
lemma names_of_prefix {path : PurePosixPath} (hpath : IsMemberPath path) {dir : Text}
    (hdir : slash ∉ dir) (h : dir ++ [slash] <+: path.asPosix) :
    ∃ rest, path.names = dir :: rest ∧ rest ≠ [] := by
  obtain ⟨t, ht⟩ := h
  rw [hpath.asPosix_eq] at ht
  have hsplit := List.splitOn_intercalate slash (fun n hn => (hpath.isName n hn).slash_notMem)
    hpath.ne_nil
  change (joinNames path.names).splitOn slash = path.names at hsplit
  rw [← ht, List.append_assoc, List.singleton_append,
    List.splitOn_append_cons_self_of_not_mem hdir] at hsplit
  exact ⟨_, hsplit.symm, List.splitOn_ne_nil _ _⟩

/-- A record names a file of the payload. -/
def IsPayloadPath (path : PurePosixPath) : Prop :=
  IsMemberPath path ∧ ∃ rest, path.names = payloadName :: rest ∧ rest ≠ []

lemma readFileRecord_eq_ok {row : JsonValue φ} {record : FileRecord}
    (h : readFileRecord row = .ok record) : IsPayloadPath record.path := by
  unfold readFileRecord at h
  split at h
  · simp only [Except.bind_eq_ok] at h
    obtain ⟨path, hpath, h⟩ := h
    obtain ⟨hmember, -, hwanted⟩ := manifestRelativePath_eq_ok hpath
    split at h
    · simp only [Except.bind_eq_ok, Except.ensure_eq_ok, Except.pure_eq_ok] at h
      obtain ⟨-, -, rfl⟩ := h
      exact ⟨hmember, names_of_prefix hmember (by decide) hwanted⟩
    · cases h
  · cases h

/-- The records are read off the rows in order, and no path comes twice. -/
lemma readFileRecords_eq_ok {expected records : List FileRecord} {rows : List (JsonValue φ)}
    (h : readFileRecords expected rows = .ok records)
    (hnodup : (expected.map (·.path.asPosix)).Nodup) :
    ∃ new, records = expected ++ new ∧
      List.Forall₂ (fun row record => readFileRecord row = .ok record) rows new ∧
      (records.map (·.path.asPosix)).Nodup := by
  induction rows generalizing expected with
  | nil =>
    cases h
    exact ⟨[], by simp, .nil, hnodup⟩
  | cons row rows ih =>
    unfold readFileRecords at h
    simp only [Except.bind_eq_ok, Except.ensure_eq_ok] at h
    obtain ⟨record, hrecord, -, hfresh, h⟩ := h
    obtain ⟨new, rfl, hrows, hnew⟩ := ih h (by
      rw [List.map_append, List.nodup_append]
      refine ⟨hnodup, by simp, ?_⟩
      rintro a ha b hb rfl
      simp only [List.map_cons, List.map_nil, List.mem_singleton] at hb
      exact hfresh (hb ▸ ha))
    exact ⟨record :: new, by simp, .cons hrecord hrows, hnew⟩

lemma listField_eq_ok {manifest : Dict (JsonValue φ)} {field : String}
    {items : List (JsonValue φ)} (h : listField manifest field = .ok items) :
    manifest.get? field = some (.arr items) := by
  unfold listField at h
  split at h
  · rename_i heq
    cases h
    exact heq
  · cases h

/-- The payload is what the records say. -/
structure Listed (fs : FileTree) (destination : Path) (records : List FileRecord) : Prop where
  distinct : (records.map (·.path)).Nodup
  /-- Each record is of a file of the payload, with its size and its hash. -/
  recorded : ∀ record ∈ records, IsPayloadPath record.path ∧ ∃ bytes,
    fs.node? (destination ++ record.path.names) = some (.file bytes) ∧
    bytes.length = record.size ∧ Sha256.hex (Sha256.digest bytes) = record.sha256
  /-- Each entry of the payload is a directory or a recorded file. -/
  complete : ∀ p n, destination ++ [payloadName] <+: p → fs.node? p = some n →
    n = .dir ∨ ∃ record ∈ records, p = destination ++ record.path.names

lemma payload_path (destination : Path) : joinpath destination [payloadName] =
    destination ++ [payloadName] :=
  PurePosixPath.joinpath_of_names destination (by decide)

lemma joinNames_mem_actual {actual : List Text} {names : List Text} {bytes : List Nat}
    (h : actualPayloadFiles fs (destination ++ [payloadName]) = .ok actual)
    (hpayload : [payloadName] <+: names) (hnode : fs.node? (destination ++ names) = some (.file bytes))
    (hdir : fs.node? (destination ++ [payloadName]) = some .dir) : joinNames names ∈ actual := by
  unfold actualPayloadFiles at h
  dsimp only at h
  split_ifs at h
  cases h
  have hne : names ≠ [payloadName] := by
    rintro rfl
    rw [hdir] at hnode
    cases hnode
  have hroot : destination ++ names ≠ [] := by
    intro hnil
    rw [hnil] at hnode
    cases hnode
  rw [List.mem_map]
  refine ⟨(destination ++ names, .file bytes), ?_, by simp⟩
  rw [List.mem_filter, entriesBelow, List.mem_filter]
  refine ⟨⟨(FileTree.node?_eq_some hroot).1 hnode, ?_⟩, by simp⟩
  simpa using ⟨hpayload, hne⟩

/-- A verified manifest lists the payload. -/
lemma listed_of_verifyManifest {quickCheck : QuickCheck} {isOne : φ → Bool}
    {manifest : Dict (JsonValue φ)}
    (hinside : ∀ p n, destination <+: p → fs.node? p = some n → Inside destination (p, n))
    (hdir : fs.node? (destination ++ [payloadName]) = some .dir)
    (h : verifyManifest quickCheck isOne fs destination manifest = .ok ()) :
    ∃ rows records, manifest.get? "files" = some (.arr rows) ∧
      List.Forall₂ (fun row record => readFileRecord row = .ok record) rows records ∧
      Listed fs destination records := by
  unfold verifyManifest at h
  simp only [Except.bind_eq_ok, Except.ensure_eq_ok, payload_path] at h
  obtain ⟨-, -, -, -, rows, hrows, records, hrecords, actual, hactual, -, ⟨hlisted, -⟩, ⟨⟩, hverify,
    -⟩ := h
  obtain ⟨_, rfl, hread, hnodup⟩ := readFileRecords_eq_ok hrecords (by simp)
  have hpath : ∀ record ∈ records, IsPayloadPath record.path := fun record hrecord => by
    obtain ⟨row, -, hrow⟩ := hread.exists_left hrecord
    exact readFileRecord_eq_ok hrow
  refine ⟨rows, records, listField_eq_ok hrows, hread, ?_, ?_, ?_⟩
  · have hmap : records.map (·.path.asPosix) = (records.map (·.path)).map (·.asPosix) := by simp
    rw [hmap] at hnodup
    exact hnodup.of_map _
  · intro record hrecord
    refine ⟨hpath record hrecord, ?_⟩
    have hfile := List.forM_eq_ok.1 hverify record hrecord
    unfold verifyRecord at hfile
    rw [(hpath record hrecord).1.joinpath_parts] at hfile
    split at hfile
    · rename_i bytes hnode
      split_ifs at hfile with hsize hhash
      exact ⟨bytes, hnode, by simpa using hsize, by simpa using hhash⟩
    · cases hfile
  · intro p n hbelow hnode
    obtain ⟨⟨names, rfl, hnames⟩, hkind⟩ := hinside p n
      ((List.prefix_append _ _).trans hbelow) hnode
    cases n with
    | dir => exact .inl rfl
    | special => exact absurd rfl hkind
    | file bytes =>
      have hpayload := (List.prefix_append_right_inj destination).1 hbelow
      have hmem := hlisted _ (joinNames_mem_actual hactual hpayload hnode hdir)
      obtain ⟨record, hrecord, heq⟩ := List.mem_map.1 hmem
      have hmember := (hpath record hrecord).1
      rw [hmember.asPosix_eq] at heq
      refine .inr ⟨record, hrecord, congrArg _ ?_⟩
      refine PurePosixPath.joinNames_inj (fun n hn => (hnames n hn).slash_notMem)
        (fun n hn => (hmember.isName n hn).slash_notMem) ?_ hmember.ne_nil heq.symm
      rintro rfl
      simp at hpayload

variable [FloatFormat φ]

/-- A manifest that was loaded is an object whose checks all hold. -/
lemma loadAndVerifyManifest_eq_ok {quickCheck : QuickCheck} {isOne : φ → Bool}
    {manifest : Dict (JsonValue φ)}
    (h : loadAndVerifyManifest quickCheck isOne fs destination = .ok manifest) :
    fs.node? (destination ++ [payloadName]) = some .dir ∧
      verifyManifest quickCheck isOne fs destination manifest = .ok () := by
  unfold loadAndVerifyManifest at h
  simp only [Except.bind_eq_ok, Except.pure_eq_ok] at h
  obtain ⟨bytes, hbytes, manifest, -, ⟨⟩, hverify, rfl⟩ := h
  refine ⟨?_, hverify⟩
  unfold manifestBytes at hbytes
  dsimp only at hbytes
  rw [payload_path] at hbytes
  split_ifs at hbytes
  split at hbytes
  · rename_i hdir
    exact hdir
  · cases hbytes

/-- The tree with new entries under the destination: directories and regular files of at most so
many bytes, at paths that were free and each created once. -/
def Unpacked (destination : Path) (budget : Int) (fs fs' : FileTree) : Prop :=
  ∃ created, fs'.entries = fs.entries ++ created ∧ (created.map (·.1)).Nodup ∧
    (∀ e ∈ created, fs.node? e.1 = none ∧ Inside destination e) ∧
    (FileTree.sizeOf created : Int) ≤ budget

omit [FloatFormat φ] in
lemma Spends.unpacked (h : Spends destination b fs fs') : Unpacked destination b fs fs' := by
  obtain ⟨⟨created, hcreated, hinside⟩, hsize⟩ := h
  obtain ⟨hnodup, hfree⟩ := FileTree.fresh_of_append hcreated
  refine ⟨created, hcreated, hnodup, fun e he => ⟨hfree e he, hinside e he⟩, ?_⟩
  rw [hcreated, FileTree.sizeOf_append] at hsize
  push_cast at hsize
  omega

end RentCompass.Deploy
