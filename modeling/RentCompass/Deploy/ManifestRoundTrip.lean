import RentCompass.Deploy.TarRoundTrip

/-!
# Verifying what was listed

The manifest of a staged tree, read back from the unpacked tree, passes every check, if its file
is within the size limit.
-/

namespace RentCompass.Deploy

open PurePosixPath (slash joinNames joinpath IsName)
open FileTree (Path Node)

/-! ### Listings -/

lemma mem_childNames {fs : FileTree} {p : Path} {name : Text} :
    name ∈ childNames fs p ↔ fs.node? (p ++ [name]) ≠ none := by
  have hne : p ++ [name] ≠ [] := by simp
  rw [childNames, List.mem_filterMap]
  constructor
  · rintro ⟨⟨q, n⟩, hmem, hlast⟩
    obtain ⟨hentry, hdir⟩ := List.mem_filter.1 hmem
    simp only [decide_eq_true_eq] at hdir hlast
    have hq : q = p ++ [name] := by
      obtain ⟨init, rfl⟩ := List.getLast?_eq_some_iff.1 hlast
      rw [← hdir, List.dropLast_concat]
    rw [FileTree.node?_of_mem (hq ▸ hentry)]
    simp
  · intro h
    obtain ⟨n, hn⟩ := Option.ne_none_iff_exists'.1 h
    refine ⟨(p ++ [name], n), List.mem_filter.2 ⟨(FileTree.node?_eq_some hne).1 hn, ?_⟩, ?_⟩
    · simp
    · simp

lemma mem_entriesBelow {fs : FileTree} {p q : Path} {n : Node} :
    (q, n) ∈ entriesBelow fs p ↔ p <+: q ∧ q ≠ p ∧ fs.node? q = some n := by
  rw [entriesBelow, List.mem_filter]
  simp only [decide_eq_true_eq]
  constructor
  · rintro ⟨hmem, hbelow, hne⟩
    exact ⟨hbelow, hne, FileTree.node?_of_mem hmem⟩
  · rintro ⟨hbelow, hne, hnode⟩
    refine ⟨(FileTree.node?_eq_some ?_).1 hnode, hbelow, hne⟩
    rintro rfl
    exact hne (List.prefix_nil.1 hbelow).symm

/-! ### ASCII texts -/

/-- A text that is its own encoding, and has no carriage return. -/
def Plain (t : Text) : Prop := ∀ c ∈ t, c < 0x80 ∧ c ≠ 13

instance (t : Text) : Decidable (Plain t) := inferInstanceAs (Decidable (∀ c ∈ t, _))

lemma utf8_of_plain {t : Text} (h : Plain t) : Sha256.utf8 t = t := by
  induction t with
  | nil => rfl
  | cons c t ih =>
    have hc := (h c (by simp)).1
    have := ih fun d hd => h d (by simp [hd])
    simp only [Sha256.utf8, List.flatMap_cons] at this ⊢
    rw [this, Sha256.utf8Char, if_pos hc]
    rfl

lemma decodeUtf8_of_plain {t : Text} (h : Plain t) : decodeUtf8 t = some t := by
  induction t with
  | nil => rfl
  | cons c t ih =>
    have hrest := ih fun d hd => h d (by simp [hd])
    unfold decodeUtf8
    rw [if_pos (h c (by simp)).1, hrest]
    rfl

lemma universalNewlines_of_plain {t : Text} (h : Plain t) : universalNewlines t = t := by
  induction t with
  | nil => rfl
  | cons c t ih =>
    have hc := (h c (by simp)).2
    rw [universalNewlines, ih fun d hd => h d (by simp [hd])]
    · exact fun _ h => absurd h hc
    · exact hc

lemma Plain.append {t u : Text} (ht : Plain t) (hu : Plain u) : Plain (t ++ u) := fun c hc =>
  (List.mem_append.1 hc).elim (ht c) (hu c)

lemma Plain.cons {c : Nat} {t : Text} (hc : c < 0x80 ∧ c ≠ 13) (ht : Plain t) : Plain (c :: t) :=
  List.forall_mem_cons.2 ⟨hc, ht⟩

lemma plain_intercalate {sep : Text} {ts : List Text} (hsep : Plain sep)
    (h : ∀ t ∈ ts, Plain t) : Plain (sep.intercalate ts) := by
  induction ts with
  | nil => simp [Plain]
  | cons t ts ih =>
    have ht := h t (by simp)
    cases ts with
    | nil => simpa using ht
    | cons u ts =>
      rw [List.intercalate_cons_cons]
      exact (ht.append hsep).append (ih fun x hx => h x (by simp [hx]))

lemma plain_hexDigit {n : Nat} (h : n < 16) :
    JsonValue.hexDigit n < 0x80 ∧ JsonValue.hexDigit n ≠ 13 := by
  revert n
  decide

lemma plain_unicodeText (n : Nat) : Plain (JsonValue.unicodeText n) := by
  have hdigit : ∀ m, JsonValue.hexDigit (m % 16) < 0x80 ∧ JsonValue.hexDigit (m % 16) ≠ 13 :=
    fun m => plain_hexDigit (Nat.mod_lt _ (by decide))
  intro c hc
  simp only [JsonValue.unicodeText, List.mem_cons, List.not_mem_nil, or_false] at hc
  rcases hc with rfl | rfl | rfl | rfl | rfl | rfl
  · decide
  · decide
  · exact hdigit _
  · exact hdigit _
  · exact hdigit _
  · exact hdigit _

lemma plain_asciiChar (c : Nat) : Plain (JsonValue.asciiChar c) := by
  unfold JsonValue.asciiChar
  split
  · decide
  · decide
  · decide
  · decide
  · decide
  · decide
  · decide
  · split_ifs with hplain hbmp
    · intro d hd
      rw [List.mem_singleton.1 hd]
      omega
    · exact plain_unicodeText _
    · exact (plain_unicodeText _).append (plain_unicodeText _)

lemma plain_asciiText (s : Text) : Plain (JsonValue.asciiText s) := by
  refine Plain.cons (by decide) (Plain.append ?_ (by decide))
  intro c hc
  obtain ⟨d, -, hc⟩ := List.mem_flatMap.1 hc
  exact plain_asciiChar d c hc

lemma plain_newline (level : Nat) : Plain (JsonValue.newline level) :=
  Plain.cons (by decide) fun c hc => by
    rw [List.eq_of_mem_replicate hc]
    decide

lemma plain_lines (level : Nat) {ts : List Text} (h : ∀ t ∈ ts, Plain t) :
    Plain (JsonValue.lines level ts) :=
  plain_intercalate (Plain.cons (by decide) (plain_newline level)) h

lemma plain_intText (n : Int) : Plain (JsonValue.intText n) := by
  have hdec : ∀ m : Nat, Plain (JsonValue.decimal m) := by
    intro m c hc
    unfold JsonValue.decimal at hc
    split_ifs at hc
    · rw [List.mem_singleton.1 hc]
      decide
    · rw [List.mem_reverse, List.mem_map] at hc
      obtain ⟨d, hd, rfl⟩ := hc
      have := Nat.digits_lt_base (by decide : 1 < 10) hd
      omega
  unfold JsonValue.intText
  split_ifs
  · exact Plain.cons (by decide) (hdec _)
  · exact hdec _

variable {φ : Type}

section Written

variable [FloatFormat φ]

/-- There are no floats in the value. -/
def hasNoFloat (v : JsonValue φ) : Bool :=
  v.all fun
    | .float _ => false
    | _ => true

lemma plain_indented (v : JsonValue φ) (h : hasNoFloat v) (level : Nat) :
    Plain (v.indented level) := by
  induction v using JsonValue.induct generalizing level with
  | null => exact show Plain (Text.ofString "null") by decide
  | bool b => cases b with
    | false => exact show Plain (Text.ofString "false") by decide
    | true => exact show Plain (Text.ofString "true") by decide
  | int n => exact plain_intText n
  | float x => cases h
  | str s => exact plain_asciiText s
  | arr items ih =>
    simp only [hasNoFloat, JsonValue.all_arr, Bool.true_and, List.all_eq_true] at h
    by_cases hne : items = []
    · subst hne
      exact show Plain [JsonValue.openArr, JsonValue.closeArr] by decide
    · rw [JsonValue.indented_arr hne]
      refine Plain.cons (by decide) ((plain_newline _).append (Plain.append ?_
        ((plain_newline _).append (by decide))))
      refine plain_lines _ fun t ht => ?_
      obtain ⟨v, hv, rfl⟩ := List.mem_map.1 ht
      exact ih v hv (h v hv) _
  | obj fields ih =>
    simp only [hasNoFloat, JsonValue.all_obj, Bool.true_and, List.all_eq_true] at h
    by_cases hne : fields = []
    · subst hne
      exact show Plain [JsonValue.openObj, JsonValue.closeObj] by decide
    · rw [JsonValue.indented_obj hne]
      refine Plain.cons (by decide) ((plain_newline _).append (Plain.append ?_
        ((plain_newline _).append (by decide))))
      refine plain_lines _ fun t ht => ?_
      obtain ⟨p, hp, rfl⟩ := List.mem_map.1 ht
      have hp := Dict.mem_sortKeys.1 hp
      exact (plain_asciiText _).append (Plain.cons (by decide) (Plain.cons (by decide)
        (ih p hp (h p hp) _)))

/-- A manifest is read back from its file. -/
lemma parseManifest_manifestFile [JsonValue.LawfulFloatFormat φ] (fields : Dict (JsonValue φ))
    (hfloat : hasNoFloat (.obj fields)) (hdict : (JsonValue.obj fields).distinctKeys)
    (hfin : (JsonValue.obj fields).finite) (hread : (JsonValue.obj fields).readable) :
    parseManifest (manifestFile (.obj fields)) =
      .ok (Dict.sortKeys (fields.map fun p => (p.1, p.2.sorted))) := by
  have hplain : Plain ((JsonValue.obj fields).indented 0 ++ [10]) :=
    (plain_indented _ hfloat 0).append (by decide)
  rw [parseManifest, manifestFile, utf8_of_plain hplain, decodeUtf8_of_plain hplain,
    Option.bind_some, universalNewlines_of_plain hplain,
    JsonValue.loads_indented _ hdict hfin hread, JsonValue.sorted_obj]

end Written

/-! ### Paths of the manifest -/

/-- A path whose text is read back as itself. -/
structure Listable (p : Path) : Prop where
  ne_nil : p ≠ []
  allowed : ∀ n ∈ p, AllowedName n
  portable : Portable p

lemma Listable.isMemberPath {p : Path} (h : Listable p) : IsMemberPath ⟨false, p⟩ :=
  ⟨rfl, h.ne_nil, fun n hn => (h.allowed n hn).isName⟩

lemma Listable.asPosix {p : Path} (h : Listable p) :
    (⟨false, p⟩ : PurePosixPath).asPosix = joinNames p := h.isMemberPath.asPosix_eq

lemma manifestRelativePath_joinNames {p : Path} (h : Listable p) {wanted : Text}
    (hwanted : wanted <+: joinNames p) :
    manifestRelativePath (some (.str (joinNames p) : JsonValue φ)) wanted = .ok ⟨false, p⟩ := by
  have hsafe := safeMemberName_joinNames h.ne_nil (fun n hn => (h.allowed n hn).isName)
    (fun n hn => (h.allowed n hn).noNul) h.portable
  unfold manifestRelativePath
  simp only [Except.bind_eq_ok, Except.ensure_eq_ok, Except.pure_eq_ok]
  exact ⟨_, hsafe, (), ⟨h.asPosix, by rwa [h.asPosix]⟩, rfl⟩

/-- The record of a staged file. -/
def recordOf (p : Path) (bytes : List Nat) : FileRecord :=
  ⟨⟨false, p⟩, bytes.length, Sha256.hex (Sha256.digest bytes)⟩

lemma isSha256_hex_digest (bytes : List Nat) : isSha256 (Sha256.hex (Sha256.digest bytes)) := by
  simp only [isSha256, Bool.and_eq_true, decide_eq_true_eq, List.all_eq_true, Bool.or_eq_true]
  refine ⟨?_, fun c hc => ?_⟩
  · rw [Sha256.length_hex, Sha256.length_digest]
  · exact Sha256.hex_range (fun b hb => Sha256.lt_of_mem_digest hb) hc

lemma lookup_map {α β : Type} {f : α → β} (fields : Dict α) (key : Text) :
    Dict.get? (fields.map fun p => (p.1, f p.2)) key = (fields.get? key).map f := by
  induction fields with
  | nil => rfl
  | cons p fields ih =>
    obtain ⟨k, v⟩ := p
    simp only [Dict.get?, List.map_cons, List.lookup_cons] at ih ⊢
    cases key == k
    · exact ih
    · rfl

@[simp] lemma ofString_beq (s t : String) : (Text.ofString s == Text.ofString t) = (s == t) := by
  rw [Bool.eq_iff_iff, beq_iff_eq, beq_iff_eq, Text.ofString_inj]

/-- The fields of an object stay what they are when its keys are sorted. -/
lemma get?_sorted {fields : Dict (JsonValue φ)} (h : fields.keys.Nodup) (key : Text) :
    (Dict.sortKeys (fields.map fun p => (p.1, p.2.sorted))).get? key =
      (fields.get? key).map JsonValue.sorted := by
  have hkeys : Dict.keys (fields.map fun p => (p.1, p.2.sorted)) = fields.keys := by
    simp [Dict.keys, Function.comp_def]
  rw [Dict.get?_sortKeys (by rwa [hkeys])]
  exact lookup_map fields key

@[simp] lemma sorted_str (s : Text) : (JsonValue.str s : JsonValue φ).sorted = .str s := rfl

@[simp] lemma sorted_int (n : Int) : (JsonValue.int n : JsonValue φ).sorted = .int n := rfl

lemma readFileRecord_archiveRow {rest : Path} (bytes : List Nat) (hne : rest ≠ [])
    (h : Listable (payloadName :: rest)) :
    readFileRecord ((archiveRow (payloadName :: rest) bytes : JsonValue φ).sorted) =
      .ok (recordOf (payloadName :: rest) bytes) := by
  have hwanted : ("payload/" : Text) <+: joinNames (payloadName :: rest) := by
    obtain ⟨m, ns, rfl⟩ := List.exists_cons_of_ne_nil hne
    rw [joinNames_cons_cons]
    exact ⟨joinNames (m :: ns), rfl⟩
  have hpath : manifestRelativePath (some (.str (joinNames (payloadName :: rest)) : JsonValue φ))
      "payload/" = .ok ⟨false, payloadName :: rest⟩ := manifestRelativePath_joinNames h hwanted
  have hnodup : (Dict.keys [(Text.ofString "path", JsonValue.str (joinNames (payloadName :: rest))),
      (Text.ofString "size", (JsonValue.int bytes.length : JsonValue φ)),
      (Text.ofString "sha256", .str (Sha256.hex (Sha256.digest bytes)))]).Nodup :=
    show List.Nodup [Text.ofString "path", Text.ofString "size", Text.ofString "sha256"] by decide
  rw [archiveRow, JsonValue.sorted_obj]
  unfold readFileRecord
  dsimp only
  rw [get?_sorted hnodup, get?_sorted hnodup, get?_sorted hnodup]
  simp only [Except.bind_eq_ok]
  refine ⟨_, hpath, ?_⟩
  simp only [Dict.get?, List.lookup_cons, ofString_beq, String.reduceBEq, BEq.rfl,
    Option.map_some, sorted_str, sorted_int, Except.bind_eq_ok, Except.ensure_eq_ok,
    Except.pure_eq_ok]
  exact ⟨(), ⟨Int.natCast_nonneg _, isSha256_hex_digest bytes⟩, rfl⟩

lemma readFileRecords_of_forall₂ {rows : List (JsonValue φ)} {records : List FileRecord}
    (h : List.Forall₂ (fun row record => readFileRecord row = .ok record) rows records)
    (expected : List FileRecord)
    (hnodup : ((expected ++ records).map (·.path.asPosix)).Nodup) :
    readFileRecords expected rows = .ok (expected ++ records) := by
  induction h generalizing expected with
  | nil => simp [readFileRecords]
  | @cons row record rows records hrow _ ih =>
    have hfresh : record.path.asPosix ∉ expected.map (·.path.asPosix) := fun hmem => by
      rw [List.map_append, List.nodup_append] at hnodup
      exact hnodup.2.2 _ hmem _ (by simp) rfl
    unfold readFileRecords
    simp only [Except.bind_eq_ok, Except.ensure_eq_ok]
    refine ⟨record, hrow, (), hfresh, ?_⟩
    rw [ih (expected ++ [record]) (by simpa using hnodup)]
    simp

/-! ### Labels -/

lemma isAlnum_ne {c : Nat} (h : isAlnum c) : c ≠ 46 ∧ c ≠ slash ∧ c ≠ 0 ∧ c ≠ backslash ∧ c < 0x80 := by
  simp only [isAlnum, Bool.or_eq_true, Bool.and_eq_true, decide_eq_true_eq] at h
  unfold backslash slash
  omega

lemma mem_label {label : Text} (h : isLabel label) {c : Nat} (hc : c ∈ label) :
    c ≠ slash ∧ c ≠ 0 ∧ c ≠ backslash ∧ c < 0x80 := by
  cases label with
  | nil => cases hc
  | cons d label =>
    simp only [isLabel, Bool.and_eq_true, List.all_eq_true] at h
    rcases List.mem_cons.1 hc with rfl | hc
    · exact (isAlnum_ne h.1.1).2
    · have := h.2 c hc
      simp only [Bool.or_eq_true, beq_iff_eq] at this
      rcases this with ((h | rfl) | rfl) | rfl
      · exact (isAlnum_ne h).2
      · decide
      · decide
      · decide

/-- A name that starts like a label and goes on with characters of one. -/
lemma allowedName_of_label {label : Text} (h : isLabel label) (suffix : Text)
    (hsuffix : ∀ c ∈ suffix, c ≠ slash ∧ c ≠ 0 ∧ c ≠ backslash ∧ c < 0x80) :
    AllowedName (label ++ suffix) ∧ backslash ∉ label ++ suffix := by
  have hchar : ∀ c ∈ label ++ suffix, c ≠ slash ∧ c ≠ 0 ∧ c ≠ backslash ∧ c < 0x80 := fun c hc =>
    (List.mem_append.1 hc).elim (mem_label h) (hsuffix c)
  obtain ⟨d, rest, rfl, hd⟩ : ∃ d rest, label = d :: rest ∧ isAlnum d := by
    cases label with
    | nil => cases h
    | cons d rest =>
      simp only [isLabel, Bool.and_eq_true] at h
      exact ⟨d, rest, rfl, h.1.1⟩
  refine ⟨⟨⟨by simp, ?_, ?_, fun hc => (hchar _ hc).1 rfl⟩, fun hc => (hchar _ hc).2.1 rfl, ?_⟩,
    fun hc => (hchar _ hc).2.2.1 rfl⟩
  · intro hdot
    simp only [List.cons_append, List.cons.injEq] at hdot
    exact (isAlnum_ne hd).1 hdot.1
  · intro hdot
    simp only [List.cons_append, List.cons.injEq] at hdot
    exact (isAlnum_ne hd).1 hdot.1
  · intro c hc
    have := (hchar c hc).2.2.2
    refine ⟨by omega, fun hsur => ?_⟩
    simp only [Text.isSurrogate, Bool.and_eq_true, decide_eq_true_eq] at hsur
    omega

lemma allowed_literal : AllowedName payloadName ∧ AllowedName sqliteName ∧
    AllowedName directoriesName ∧ AllowedName manifestName := by
  refine ⟨⟨?_, ?_, ?_⟩, ⟨?_, ?_, ?_⟩, ⟨?_, ?_, ?_⟩, ⟨?_, ?_, ?_⟩⟩ <;> decide

lemma listable_sqlitePath {label : Text} (h : isLabel label) : Listable (sqlitePath label) := by
  obtain ⟨hname, hport⟩ := allowedName_of_label h ".sqlite3" (by decide)
  refine ⟨by simp [sqlitePath], ?_, ?_⟩
  · intro n hn
    simp only [sqlitePath, List.mem_cons, List.not_mem_nil, or_false] at hn
    rcases hn with rfl | rfl | rfl
    · exact allowed_literal.1
    · exact allowed_literal.2.1
    · exact hname
  · intro n hn
    simp only [sqlitePath, List.mem_cons, List.not_mem_nil, or_false] at hn
    rcases hn with rfl | rfl | rfl
    · decide
    · decide
    · exact hport

lemma listable_directoryPath {label : Text} (h : isLabel label) :
    Listable (directoryPath label) := by
  obtain ⟨hname, hport⟩ := allowedName_of_label h [] (by simp)
  rw [List.append_nil] at hname hport
  refine ⟨by simp [directoryPath], ?_, ?_⟩
  · intro n hn
    simp only [directoryPath, List.mem_cons, List.not_mem_nil, or_false] at hn
    rcases hn with rfl | rfl | rfl
    · exact allowed_literal.1
    · exact allowed_literal.2.2.1
    · exact hname
  · intro n hn
    simp only [directoryPath, List.mem_cons, List.not_mem_nil, or_false] at hn
    rcases hn with rfl | rfl | rfl
    · decide
    · decide
    · exact hport

/-! ### Verification -/

/-- A staging tree as a backup leaves it behind. -/
structure StagedBackup (quickCheck : QuickCheck) (staging : FileTree)
    (sqliteSources directorySources : Dict Path) : Prop where
  staged : ∀ e ∈ staging.entries, Staged e
  roots : ∀ n, staging.node? [n] ≠ none ↔ n = manifestName ∨ n = payloadName
  payload : staging.node? [payloadName] = some .dir
  sqliteLabels : sqliteSources.keys.Nodup ∧ ∀ s ∈ sqliteSources, isLabel s.1
  sqlite : ∀ s ∈ sqliteSources, sqliteQuickCheck quickCheck staging (sqlitePath s.1)
  directoryLabels : directorySources.keys.Nodup ∧ ∀ s ∈ directorySources, isLabel s.1
  directories : ∀ s ∈ directorySources, staging.node? (directoryPath s.1) = some .dir

/-- A tree stands under a destination as it was staged. -/
def Mirrors (fs : FileTree) (destination : Path) (staging : FileTree) : Prop :=
  ∀ p, fs.node? (destination ++ p) = staging.node? p

/-- The regular files among some entries. -/
def filesOf (entries : List (Path × Node)) : List (Path × List Nat) :=
  entries.filterMap fun e =>
    match e.2 with
    | .file bytes => some (e.1, bytes)
    | _ => none

lemma mem_filesOf {entries : List (Path × Node)} {p : Path} {bytes : List Nat} :
    (p, bytes) ∈ filesOf entries ↔ (p, Node.file bytes) ∈ entries := by
  rw [filesOf, List.mem_filterMap]
  constructor
  · rintro ⟨⟨q, n⟩, hmem, hfile⟩
    cases n with
    | file b =>
      cases hfile
      exact hmem
    | dir => cases hfile
    | special => cases hfile
  · exact fun hmem => ⟨_, hmem, rfl⟩

lemma filesOf_sublist (entries : List (Path × Node)) :
    ((filesOf entries).map (·.1)).Sublist (entries.map (·.1)) := by
  induction entries with
  | nil => exact .slnil
  | cons e entries ih =>
    obtain ⟨p, n⟩ := e
    cases n with
    | file bytes => exact ih.cons_cons _
    | dir => exact ih.cons _
    | special => exact ih.cons _

/-- The staged files of the payload. -/
def payloadFiles (staging : FileTree) : List (Path × List Nat) :=
  filesOf (sortedEntries (entriesBelow staging [payloadName]))

lemma mem_payloadFiles {staging : FileTree} {p : Path} {bytes : List Nat} :
    (p, bytes) ∈ payloadFiles staging ↔
      staging.node? p = some (.file bytes) ∧ ∃ rest, rest ≠ [] ∧ p = payloadName :: rest := by
  rw [payloadFiles, mem_filesOf, mem_sortedEntries, mem_entriesBelow]
  constructor
  · rintro ⟨⟨rest, hrest⟩, hne, hnode⟩
    refine ⟨hnode, rest, ?_, hrest.symm⟩
    rintro rfl
    exact hne hrest.symm
  · rintro ⟨hnode, rest, hne, rfl⟩
    exact ⟨⟨rest, rfl⟩, by simp [hne], hnode⟩

lemma archiveRows_eq (staging : FileTree) :
    archiveRows (φ := φ) staging = (payloadFiles staging).map fun f => archiveRow f.1 f.2 := by
  rw [archiveRows, payloadFiles, filesOf, List.map_filterMap]
  refine List.filterMap_congr fun e _ => ?_
  obtain ⟨p, n⟩ := e
  cases n <;> rfl

lemma nodup_payloadFiles (staging : FileTree) : ((payloadFiles staging).map (·.1)).Nodup := by
  have hentries : ((sortedEntries (entriesBelow staging [payloadName])).map (·.1)).Nodup :=
    ((List.perm_insertionSort _ _).map _).nodup_iff.2
      (staging.distinct.sublist (List.filter_sublist.map _))
  exact hentries.sublist (filesOf_sublist _)

variable {quickCheck : QuickCheck} {staging fs : FileTree}
  {sqliteSources directorySources : Dict Path} {destination : Path}

lemma StagedBackup.listable (h : StagedBackup quickCheck staging sqliteSources directorySources)
    (hport : PortableTree staging) {p : Path} {n : Node} (hp : staging.node? p = some n)
    (hne : p ≠ []) : Listable p := by
  have hmem := (FileTree.node?_eq_some hne).1 hp
  exact ⟨hne, (h.staged _ hmem).names, hport _ hmem⟩

/-- The rows of the manifest are read back as the records of the staged files. -/
lemma StagedBackup.readFileRecords (h : StagedBackup quickCheck staging sqliteSources directorySources)
    (hport : PortableTree staging) :
    readFileRecords [] ((archiveRows (φ := φ) staging).map (·.sorted)) =
      .ok ((payloadFiles staging).map fun f => recordOf f.1 f.2) := by
  have hlist : ∀ f ∈ payloadFiles staging, Listable f.1 := fun f hf =>
    h.listable hport (mem_payloadFiles.1 hf).1 (by
      obtain ⟨rest, -, hrest⟩ := (mem_payloadFiles.1 hf).2
      simp [hrest])
  have hrows : List.Forall₂ (fun row record => Deploy.readFileRecord row = .ok record)
      ((archiveRows (φ := φ) staging).map (·.sorted))
      ((payloadFiles staging).map fun f => recordOf f.1 f.2) := by
    rw [archiveRows_eq, List.map_map, List.forall₂_map_left_iff, List.forall₂_map_right_iff,
      List.forall₂_same]
    intro f hf
    obtain ⟨-, rest, hne, hrest⟩ := mem_payloadFiles.1 hf
    have := hlist f hf
    rw [hrest] at this
    simpa [hrest] using readFileRecord_archiveRow (φ := φ) f.2 hne this
  refine (readFileRecords_of_forall₂ hrows [] ?_).trans (by simp)
  rw [List.nil_append, List.map_map]
  have hjoin : (payloadFiles staging).map ((·.path.asPosix) ∘ fun f => recordOf f.1 f.2) =
      ((payloadFiles staging).map (·.1)).map joinNames := by
    rw [List.map_map]
    exact List.map_congr_left fun f hf => (hlist f hf).asPosix
  rw [hjoin]
  refine (nodup_payloadFiles staging).map_on ?_
  intro p hp q hq heq
  obtain ⟨f, hf, rfl⟩ := List.mem_map.1 hp
  obtain ⟨g, hg, rfl⟩ := List.mem_map.1 hq
  exact PurePosixPath.joinNames_inj
    (fun n hn => ((hlist f hf).allowed n hn).isName.slash_notMem)
    (fun n hn => ((hlist g hg).allowed n hn).isName.slash_notMem)
    (hlist f hf).ne_nil (hlist g hg).ne_nil heq

/-- The files found in the unpacked payload are the staged ones. -/
lemma StagedBackup.actualPayloadFiles (h : StagedBackup quickCheck staging sqliteSources
    directorySources) (hmirror : Mirrors fs destination staging) :
    ∃ actual, actualPayloadFiles fs (destination ++ [payloadName]) = .ok actual ∧
      ∀ path, path ∈ actual ↔ ∃ f ∈ payloadFiles staging, path = joinNames f.1 := by
  have hbelow : ∀ q n, (q, n) ∈ entriesBelow fs (destination ++ [payloadName]) ↔
      ∃ rest, rest ≠ [] ∧ q = destination ++ payloadName :: rest ∧
        staging.node? (payloadName :: rest) = some n := by
    intro q n
    rw [mem_entriesBelow]
    constructor
    · rintro ⟨⟨rest, rfl⟩, hne, hnode⟩
      refine ⟨rest, ?_, by simp, ?_⟩
      · rintro rfl
        simp at hne
      · rw [← hmirror]
        simpa using hnode
    · rintro ⟨rest, hne, rfl, hnode⟩
      refine ⟨⟨rest, by simp⟩, by simp [hne], ?_⟩
      rw [hmirror]
      exact hnode
  have hspecial : ¬ ∃ e ∈ entriesBelow fs (destination ++ [payloadName]), e.2 = .special := by
    rintro ⟨⟨q, n⟩, hmem, rfl⟩
    obtain ⟨rest, -, -, hnode⟩ := (hbelow q _).1 hmem
    exact (h.staged _ ((FileTree.node?_eq_some (by simp)).1 hnode)).kind rfl
  unfold Deploy.actualPayloadFiles
  dsimp only
  rw [if_neg hspecial]
  refine ⟨_, rfl, fun path => ?_⟩
  rw [List.mem_map, List.dropLast_concat]
  constructor
  · rintro ⟨⟨q, n⟩, hmem, rfl⟩
    obtain ⟨hmem, hkind⟩ := List.mem_filter.1 hmem
    obtain ⟨rest, hne, rfl, hnode⟩ := (hbelow q n).1 hmem
    cases n with
    | dir => simp at hkind
    | special => exact absurd ⟨_, hmem, rfl⟩ hspecial
    | file bytes =>
      exact ⟨(payloadName :: rest, bytes), mem_payloadFiles.2 ⟨hnode, rest, hne, rfl⟩, by simp⟩
  · rintro ⟨⟨p, bytes⟩, hmem, rfl⟩
    obtain ⟨hnode, rest, hne, rfl⟩ := mem_payloadFiles.1 hmem
    refine ⟨(destination ++ payloadName :: rest, .file bytes), List.mem_filter.2 ⟨?_, by simp⟩,
      by simp⟩
    exact (hbelow _ _).2 ⟨rest, hne, rfl, hnode⟩

lemma fileBytes?_mirrors (hmirror : Mirrors fs destination staging) (p : Path) :
    fileBytes? fs (destination ++ p) = fileBytes? staging p := by
  unfold fileBytes?
  rw [hmirror]

lemma withSuffix_append {p : Path} (hp : p ≠ []) (destination : Path) (suffix : Text) :
    withSuffix (destination ++ p) suffix = destination ++ withSuffix p suffix := by
  obtain ⟨init, last, rfl⟩ := (List.eq_nil_or_concat' p).resolve_left hp
  simp [withSuffix, ← List.append_assoc]

lemma sqliteQuickCheck_mirrors (hmirror : Mirrors fs destination staging) {p : Path}
    (hp : p ≠ []) :
    sqliteQuickCheck quickCheck fs (destination ++ p) = sqliteQuickCheck quickCheck staging p := by
  unfold sqliteQuickCheck
  rw [withSuffix_append hp, withSuffix_append hp, fileBytes?_mirrors hmirror,
    fileBytes?_mirrors hmirror, fileBytes?_mirrors hmirror]

/-- The databases are files of the payload that pass the check. -/
lemma StagedBackup.verifySqlite (h : StagedBackup quickCheck staging sqliteSources
    directorySources) (hmirror : Mirrors fs destination staging) {expected : List FileRecord}
    (hexpected : ∀ f ∈ payloadFiles staging, joinNames f.1 ∈ expected.map (·.path.asPosix))
    (sources : Dict Path) (hsub : ∀ s ∈ sources, s ∈ sqliteSources) (hnodup : sources.keys.Nodup)
    (seen : List Text) (hseen : ∀ s ∈ sources, joinNames (sqlitePath s.1) ∉ seen) :
    verifySqlite quickCheck fs destination expected seen
      (sources.map fun s => (.str (joinNames (sqlitePath s.1)) : JsonValue φ)) = .ok () := by
  induction sources generalizing seen with
  | nil => rfl
  | cons s sources ih =>
    have hlabel := h.sqliteLabels.2 s (hsub s (by simp))
    have hlist := listable_sqlitePath hlabel
    have hcheck := h.sqlite s (hsub s (by simp))
    have hwanted : ("payload/sqlite/" : Text) <+: joinNames (sqlitePath s.1) := by
      rw [sqlitePath, joinNames_cons_cons, joinNames_cons_cons]
      exact ⟨joinNames [s.1 ++ (".sqlite3" : Text)], rfl⟩
    have hfile : joinNames (sqlitePath s.1) ∈ expected.map (·.path.asPosix) := by
      cases hbytes : staging.node? (sqlitePath s.1) with
      | none => simp [sqliteQuickCheck, fileBytes?, hbytes] at hcheck
      | some n =>
        cases n with
        | dir => simp [sqliteQuickCheck, fileBytes?, hbytes] at hcheck
        | special => simp [sqliteQuickCheck, fileBytes?, hbytes] at hcheck
        | file bytes =>
          exact hexpected (sqlitePath s.1, bytes)
            (mem_payloadFiles.2 ⟨hbytes, _, by simp, rfl⟩)
    rw [List.map_cons, Deploy.verifySqlite]
    simp only [Except.bind_eq_ok, Except.ensure_eq_ok]
    refine ⟨_, manifestRelativePath_joinNames hlist hwanted, (), ?_, (), ?_, ?_⟩
    · rw [hlist.asPosix]
      exact ⟨hseen s (by simp), hfile⟩
    · rw [hlist.isMemberPath.joinpath_parts, sqliteQuickCheck_mirrors hmirror hlist.ne_nil]
      exact hcheck
    · obtain ⟨hs, hnodup⟩ := List.nodup_cons.1 hnodup
      refine ih (fun t ht => hsub t (by simp [ht])) hnodup _ fun t ht => ?_
      rw [hlist.asPosix, List.mem_cons, not_or]
      refine ⟨fun heq => ?_, hseen t (by simp [ht])⟩
      have hlist' := listable_sqlitePath (h.sqliteLabels.2 t (hsub t (by simp [ht])))
      have hpaths := PurePosixPath.joinNames_inj
        (fun n hn => (hlist'.allowed n hn).isName.slash_notMem)
        (fun n hn => (hlist.allowed n hn).isName.slash_notMem) hlist'.ne_nil hlist.ne_nil heq
      have hkey : t.1 = s.1 := by simpa [sqlitePath] using hpaths
      exact hs (List.mem_map.2 ⟨t, ht, hkey⟩)

/-- The roots are directories of the payload. -/
lemma StagedBackup.verifyRoots (h : StagedBackup quickCheck staging sqliteSources
    directorySources) (hmirror : Mirrors fs destination staging)
    (sources : Dict Path) (hsub : ∀ s ∈ sources, s ∈ directorySources)
    (hnodup : sources.keys.Nodup) (seen : List Text)
    (hseen : ∀ s ∈ sources, joinNames (directoryPath s.1) ∉ seen) :
    verifyRoots fs destination seen
      (sources.map fun s => (.str (joinNames (directoryPath s.1)) : JsonValue φ)) = .ok () := by
  induction sources generalizing seen with
  | nil => rfl
  | cons s sources ih =>
    have hlist := listable_directoryPath (h.directoryLabels.2 s (hsub s (by simp)))
    have hwanted : ("payload/directories/" : Text) <+: joinNames (directoryPath s.1) := by
      rw [directoryPath, joinNames_cons_cons, joinNames_cons_cons]
      exact ⟨joinNames [s.1], rfl⟩
    rw [List.map_cons, Deploy.verifyRoots]
    simp only [Except.bind_eq_ok, Except.ensure_eq_ok]
    refine ⟨_, manifestRelativePath_joinNames hlist hwanted, (), ?_, (), ?_, ?_⟩
    · rw [hlist.asPosix]
      exact hseen s (by simp)
    · rw [hlist.isMemberPath.joinpath_parts, hmirror]
      exact h.directories s (hsub s (by simp))
    · obtain ⟨hs, hnodup⟩ := List.nodup_cons.1 hnodup
      refine ih (fun t ht => hsub t (by simp [ht])) hnodup _ fun t ht => ?_
      rw [hlist.asPosix, List.mem_cons, not_or]
      refine ⟨fun heq => ?_, hseen t (by simp [ht])⟩
      have hlist' := listable_directoryPath (h.directoryLabels.2 t (hsub t (by simp [ht])))
      have hpaths := PurePosixPath.joinNames_inj
        (fun n hn => (hlist'.allowed n hn).isName.slash_notMem)
        (fun n hn => (hlist.allowed n hn).isName.slash_notMem) hlist'.ne_nil hlist.ne_nil heq
      have hkey : t.1 = s.1 := by simpa [directoryPath] using hpaths
      exact hs (List.mem_map.2 ⟨t, ht, hkey⟩)

lemma verifyRecord_mirrors (hmirror : Mirrors fs destination staging) {p : Path}
    {bytes : List Nat} (hlist : Listable p) (hnode : staging.node? p = some (.file bytes)) :
    verifyRecord fs destination (recordOf p bytes) = .ok () := by
  unfold verifyRecord recordOf
  dsimp only
  rw [hlist.isMemberPath.joinpath_parts, hmirror, hnode]
  simp

/-- The manifest's file, where the size limit lets it through. -/
lemma StagedBackup.manifestBytes (h : StagedBackup quickCheck staging sqliteSources
    directorySources) (hmirror : Mirrors fs destination staging) {bytes : List Nat}
    (hmanifest : staging.node? [manifestName] = some (.file bytes)) :
    manifestBytes fs destination =
      if maxManifestBytes < bytes.length then .error .manifestTooLarge else .ok bytes := by
  have hnames : ∀ n, n ∈ childNames fs destination ↔ n = manifestName ∨ n = payloadName := by
    intro n
    rw [mem_childNames, hmirror]
    exact h.roots n
  have hpath : joinpath destination [manifestName] = destination ++ [manifestName] :=
    PurePosixPath.joinpath_of_names destination (by decide)
  unfold Deploy.manifestBytes
  dsimp only
  rw [if_pos ⟨fun n hn => (hnames n).1 hn, (hnames _).2 (.inl rfl), (hnames _).2 (.inr rfl)⟩,
    hpath, payload_path, hmirror, hmirror, hmanifest, h.payload]

/-- The fields of a manifest, as they are written. -/
def manifestFields (rows : List (JsonValue φ)) (sqliteSources directorySources : Dict Path)
    (encrypt : Bool) (createdAt : Text) : Dict (JsonValue φ) :=
  [("format", .str formatName), ("schema_version", .int schemaVersion),
    ("created_at", .str createdAt), ("encryption", .str (if encrypt then "age" else "none")),
    ("files", .arr rows),
    ("sqlite_files", .arr (sqliteSources.sortKeys.map fun s => .str (joinNames (sqlitePath s.1)))),
    ("directory_roots",
      .arr (directorySources.sortKeys.map fun s => .str (joinNames (directoryPath s.1))))]

lemma manifestFields_keys (rows : List (JsonValue φ)) (sqliteSources directorySources : Dict Path)
    (encrypt : Bool) (createdAt : Text) :
    (manifestFields rows sqliteSources directorySources encrypt createdAt).keys.Nodup :=
  show List.Nodup [Text.ofString "format", Text.ofString "schema_version",
    Text.ofString "created_at", Text.ofString "encryption", Text.ofString "files",
    Text.ofString "sqlite_files", Text.ofString "directory_roots"] by decide

/-- The fields of a manifest, as they are read back. -/
def loadedFields (rows : List (JsonValue φ)) (sqliteSources directorySources : Dict Path)
    (encrypt : Bool) (createdAt : Text) : Dict (JsonValue φ) :=
  Dict.sortKeys ((manifestFields rows sqliteSources directorySources encrypt createdAt).map
    fun p => (p.1, p.2.sorted))

lemma loadedFields_get? (rows : List (JsonValue φ)) (sqliteSources directorySources : Dict Path)
    (encrypt : Bool) (createdAt key : Text) :
    (loadedFields rows sqliteSources directorySources encrypt createdAt).get? key =
      ((manifestFields rows sqliteSources directorySources encrypt createdAt).get? key).map
        (·.sorted) :=
  get?_sorted (manifestFields_keys _ _ _ _ _) key

lemma listField_of_get? {manifest : Dict (JsonValue φ)} {field : String}
    {items : List (JsonValue φ)} (h : manifest.get? field = some (.arr items)) :
    listField manifest field = .ok items := by
  rw [listField, h]

/-- Every check of the manifest passes. -/
lemma StagedBackup.verifyManifest (h : StagedBackup quickCheck staging sqliteSources
    directorySources) (hmirror : Mirrors fs destination staging) (hport : PortableTree staging)
    (isOne : φ → Bool) (encrypt : Bool) (createdAt : Text) :
    verifyManifest quickCheck isOne fs destination (loadedFields (archiveRows staging)
      sqliteSources directorySources encrypt createdAt) = .ok () := by
  have hget := loadedFields_get? (archiveRows (φ := φ) staging) sqliteSources directorySources
    encrypt createdAt
  have hlist : ∀ f ∈ payloadFiles staging, Listable f.1 := fun f hf =>
    h.listable hport (mem_payloadFiles.1 hf).1 (by
      obtain ⟨rest, -, hrest⟩ := (mem_payloadFiles.1 hf).2
      simp [hrest])
  obtain ⟨actual, hactual, hmem⟩ := h.actualPayloadFiles hmirror
  have hlisted : ∀ path, path ∈ ((payloadFiles staging).map fun f => recordOf f.1 f.2).map
      (·.path.asPosix) ↔ ∃ f ∈ payloadFiles staging, path = joinNames f.1 := by
    intro path
    rw [List.map_map, List.mem_map]
    constructor
    · rintro ⟨f, hf, rfl⟩
      exact ⟨f, hf, (hlist f hf).asPosix⟩
    · rintro ⟨f, hf, rfl⟩
      exact ⟨f, hf, (hlist f hf).asPosix⟩
  have hfiles : (loadedFields (archiveRows (φ := φ) staging) sqliteSources directorySources encrypt
      createdAt).get? "files" = some (.arr ((archiveRows staging).map (·.sorted))) := by
    rw [hget]
    simp [manifestFields, Dict.get?, List.lookup_cons]
  have hsqlite : (loadedFields (archiveRows (φ := φ) staging) sqliteSources directorySources encrypt
      createdAt).get? "sqlite_files" =
        some (.arr (sqliteSources.sortKeys.map fun s => .str (joinNames (sqlitePath s.1)))) := by
    rw [hget]
    simp [manifestFields, Dict.get?, List.lookup_cons, Function.comp_def]
  have hroots : (loadedFields (archiveRows (φ := φ) staging) sqliteSources directorySources encrypt
      createdAt).get? "directory_roots" =
        some (.arr (directorySources.sortKeys.map fun s => .str (joinNames (directoryPath s.1)))) := by
    rw [hget]
    simp [manifestFields, Dict.get?, List.lookup_cons, Function.comp_def]
  unfold Deploy.verifyManifest
  simp only [Except.bind_eq_ok, Except.ensure_eq_ok, payload_path]
  refine ⟨(), ?_, (), ?_, _, listField_of_get? hfiles, _, h.readFileRecords hport, actual, hactual,
    (), ?_, (), ?_, _, listField_of_get? hsqlite, (), ?_, _, listField_of_get? hroots, ?_⟩
  · rw [hget]
    simp [manifestFields, Dict.get?, isFormat]
  · rw [hget]
    simp [manifestFields, Dict.get?, List.lookup_cons, isSchemaVersion]
  · exact ⟨fun path hpath => (hlisted path).2 ((hmem path).1 hpath),
      fun path hpath => (hmem path).2 ((hlisted path).1 hpath)⟩
  · refine List.forM_eq_ok.2 fun record hrecord => ?_
    obtain ⟨f, hf, rfl⟩ := List.mem_map.1 hrecord
    exact verifyRecord_mirrors hmirror (hlist f hf) (mem_payloadFiles.1 hf).1
  · exact h.verifySqlite hmirror (fun f hf => (hlisted _).2 ⟨f, hf, rfl⟩) _
      (fun s hs => Dict.mem_sortKeys.1 hs) (Dict.keys_sortKeys_nodup.2 h.sqliteLabels.1) _ (by simp)
  · exact h.verifyRoots hmirror _ (fun s hs => Dict.mem_sortKeys.1 hs)
      (Dict.keys_sortKeys_nodup.2 h.directoryLabels.1) _ (by simp)

lemma isReadable_of_lt {t : Text} (h : ∀ c ∈ t, c < 0x80) : t.all JsonValue.isReadable := by
  rw [List.all_eq_true]
  intro c hc
  have := h c hc
  simp only [JsonValue.isReadable, Bool.and_eq_true, decide_eq_true_eq, Bool.not_eq_true',
    Bool.and_eq_false_iff, decide_eq_false_iff_not]
  omega

/-- The names a file system hands out are written and read back as they are. -/
lemma isReadable_joinNames {p : Path} (h : ∀ n ∈ p, AllowedName n) :
    (joinNames p).all JsonValue.isReadable := by
  rw [List.all_eq_true]
  intro c hc
  by_cases hslash : c = slash
  · subst hslash
    decide
  · obtain ⟨n, hn, hc⟩ := (mem_joinNames hslash).1 hc
    have := (h n hn).decoded c hc
    simp only [Text.isSurrogate, Bool.and_eq_true, decide_eq_true_eq] at this
    simp only [JsonValue.isReadable, Bool.and_eq_true, decide_eq_true_eq, Bool.not_eq_true',
      Bool.and_eq_false_iff, decide_eq_false_iff_not]
    omega

lemma isReadable_hex_digest (bytes : List Nat) :
    (Sha256.hex (Sha256.digest bytes)).all JsonValue.isReadable :=
  isReadable_of_lt fun c hc => by
    have := Sha256.hex_range (fun b hb => Sha256.lt_of_mem_digest hb) hc
    omega

/-- A test that passes on the parts of a manifest passes on all of it. -/
lemma StagedBackup.all_manifest (h : StagedBackup quickCheck staging sqliteSources
    directorySources) (encrypt : Bool) {createdAt : Text} (hcreated : ∀ c ∈ createdAt, c < 0x80)
    {test : JsonValue φ → Bool} (hint : ∀ n, test (.int n)) (harr : ∀ items, test (.arr items))
    (hstr : ∀ s : Text, s.all JsonValue.isReadable → test (.str s))
    (hrow : ∀ p bytes, test (archiveRow p bytes))
    (hobj : test (.obj (manifestFields (archiveRows staging) sqliteSources directorySources encrypt
      createdAt))) :
    (JsonValue.obj (manifestFields (archiveRows staging) sqliteSources directorySources encrypt
      createdAt)).all test := by
  have hascii : ∀ s : Text, (∀ c ∈ s, c < 0x80) → test (.str s) := fun s hs =>
    hstr s (isReadable_of_lt hs)
  have hrows : ∀ v ∈ archiveRows (φ := φ) staging, v.all test := by
    intro v hv
    rw [archiveRows_eq] at hv
    obtain ⟨f, hf, rfl⟩ := List.mem_map.1 hv
    obtain ⟨hnode, rest, -, hrest⟩ := mem_payloadFiles.1 hf
    have hmem := (FileTree.node?_eq_some (by simp [hrest])).1 hnode
    have hpath := hstr _ (isReadable_joinNames (h.staged _ hmem).names)
    have hsha := hstr _ (isReadable_hex_digest f.2)
    have := hrow f.1 f.2
    rw [archiveRow] at this ⊢
    rw [JsonValue.all_obj, this]
    simp [JsonValue.all, hint, hpath, hsha]
  have hsqlite : ∀ s ∈ sqliteSources.sortKeys, test (.str (joinNames (sqlitePath s.1))) :=
    fun s hs => hstr _ (isReadable_joinNames
      (listable_sqlitePath (h.sqliteLabels.2 s (Dict.mem_sortKeys.1 hs))).allowed)
  have hdirs : ∀ s ∈ directorySources.sortKeys, test (.str (joinNames (directoryPath s.1))) :=
    fun s hs => hstr _ (isReadable_joinNames
      (listable_directoryPath (h.directoryLabels.2 s (Dict.mem_sortKeys.1 hs))).allowed)
  have hencryption : test (.str (if encrypt then "age" else "none")) := by
    cases encrypt
    · exact hascii _ (by decide)
    · exact hascii _ (by decide)
  have harray : ∀ items : List (JsonValue φ), (∀ v ∈ items, v.all test) →
      (JsonValue.arr items).all test := fun items hitems => by
    rw [JsonValue.all_arr, harr, Bool.true_and, List.all_eq_true]
    exact hitems
  rw [JsonValue.all_obj, hobj]
  simp only [manifestFields, List.all_cons, List.all_nil, Bool.true_and, Bool.and_true,
    Bool.and_eq_true]
  refine ⟨hascii _ (by decide), hint _, hascii _ hcreated, hencryption, harray _ hrows, harray _ ?_,
    harray _ ?_⟩
  · rintro _ hv
    obtain ⟨s, hs, rfl⟩ := List.mem_map.1 hv
    exact hsqlite s hs
  · rintro _ hv
    obtain ⟨s, hs, rfl⟩ := List.mem_map.1 hv
    exact hdirs s hs

variable [FloatFormat φ] [JsonValue.LawfulFloatFormat φ]

/-- The manifest of a backup is one that its file gives back. -/
lemma StagedBackup.parseManifest (h : StagedBackup quickCheck staging sqliteSources
    directorySources) (encrypt : Bool) {createdAt : Text} (hcreated : ∀ c ∈ createdAt, c < 0x80) :
    parseManifest (φ := φ) (manifestFile (manifestOf (archiveRows (φ := φ) staging) sqliteSources
      directorySources encrypt createdAt)) =
      .ok (loadedFields (archiveRows staging) sqliteSources directorySources encrypt createdAt) := by
  refine parseManifest_manifestFile (φ := φ) (manifestFields (archiveRows staging) sqliteSources
    directorySources encrypt createdAt) ?_ ?_ ?_ ?_
  · exact h.all_manifest encrypt hcreated (fun _ => rfl) (fun _ => rfl) (fun _ _ => rfl)
      (fun _ _ => rfl) rfl
  · refine h.all_manifest encrypt hcreated (fun _ => rfl) (fun _ => rfl) (fun _ _ => rfl)
      (fun p bytes => ?_) ?_
    · exact decide_eq_true (show List.Nodup [Text.ofString "path", Text.ofString "size",
        Text.ofString "sha256"] by decide)
    · exact decide_eq_true (manifestFields_keys _ _ _ _ _)
  · exact h.all_manifest encrypt hcreated (fun _ => rfl) (fun _ => rfl) (fun _ _ => rfl)
      (fun _ _ => rfl) rfl
  · refine h.all_manifest encrypt hcreated (fun _ => rfl) (fun _ => rfl) (fun _ hs => hs)
      (fun p bytes => ?_) ?_
    · exact show ([Text.ofString "path", Text.ofString "size", Text.ofString "sha256"] :
        List Text).all (·.all JsonValue.isReadable) by decide
    · exact show ([Text.ofString "format", Text.ofString "schema_version",
        Text.ofString "created_at", Text.ofString "encryption", Text.ofString "files",
        Text.ofString "sqlite_files", Text.ofString "directory_roots"] :
        List Text).all (·.all JsonValue.isReadable) by decide

/-- Opening the unpacked tree ends well if its manifest is within the size limit, and only then. -/
theorem StagedBackup.loadAndVerify (h : StagedBackup quickCheck staging sqliteSources
    directorySources) (hmirror : Mirrors fs destination staging) (hport : PortableTree staging)
    (isOne : φ → Bool) (encrypt : Bool) {createdAt : Text} (hcreated : ∀ c ∈ createdAt, c < 0x80)
    (hmanifest : staging.node? [manifestName] = some (.file (manifestFile (manifestOf
      (archiveRows (φ := φ) staging) sqliteSources directorySources encrypt createdAt)))) :
    (∃ manifest, loadAndVerifyManifest quickCheck isOne fs destination = .ok manifest) ↔
      (manifestFile (manifestOf (archiveRows (φ := φ) staging) sqliteSources directorySources
        encrypt createdAt)).length ≤ maxManifestBytes := by
  have hbytes := h.manifestBytes hmirror hmanifest
  constructor
  · rintro ⟨manifest, hload⟩
    unfold loadAndVerifyManifest at hload
    simp only [Except.bind_eq_ok] at hload
    obtain ⟨bytes, hread, -⟩ := hload
    rw [hbytes] at hread
    split_ifs at hread with hlarge
    exact not_lt.1 hlarge
  · intro hsize
    rw [if_neg (not_lt.2 hsize)] at hbytes
    refine ⟨loadedFields (archiveRows staging) sqliteSources directorySources encrypt createdAt, ?_⟩
    unfold loadAndVerifyManifest
    simp only [Except.bind_eq_ok, Except.pure_eq_ok]
    exact ⟨_, hbytes, _, h.parseManifest encrypt hcreated, (),
      h.verifyManifest hmirror hport isOne encrypt createdAt, rfl⟩

end RentCompass.Deploy
