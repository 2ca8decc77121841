import RentCompass.Deploy.RuntimeBackup
import RentCompass.Json.Indented

/-!
# Creating and restoring a runtime backup

A backup stages copies of its sources, lists them in a manifest and archives the staging
directory. The staging directory is fresh, so it is a tree of its own, with the staging root as its
root. Tar, gzip and age are lossless: what is published is the sequence of members.
-/

namespace RentCompass.Deploy

open PurePosixPath (slash joinNames)
open FileTree (Path Node Host OsError)
open EStateM (ensure fromExcept adaptExcept)

/-! ### Sources -/

inductive SourceKind where
  | sqlite
  | directory
  deriving DecidableEq

/-- What a path text stands for. -/
structure Lookup where
  isSymlink : Text → Bool
  /-- `resolve(strict=True)` -/
  resolve : Text → Option Path

/-- A letter or a digit of ASCII. -/
def isAlnum (c : Nat) : Bool :=
  (48 ≤ c && c ≤ 57) || (65 ≤ c && c ≤ 90) || (97 ≤ c && c ≤ 122)

/-- `_LABEL_RE` -/
def isLabel (label : Text) : Bool :=
  match label with
  | [] => false
  | c :: label => isAlnum c && label.length ≤ 63 &&
      label.all fun c => isAlnum c || c == 46 || c == 95 || c == 45

/-- The node a source of a kind is. -/
def SourceKind.accepts (kind : SourceKind) : Option Node → Bool
  | some (.file _) => kind = .sqlite
  | some .dir => kind = .directory
  | _ => false

/-- One turn of the loop of `_parse_labeled_sources`. -/
def parseLabeledSource (lookup : Lookup) (fs : FileTree) (kind : SourceKind) (result : Dict Path)
    (value : Text) : Except BackupError (Dict Path) := do
  Except.ensure (61 ∈ value) (.noSeparator value)
  let label := value.takeWhile (· != 61)
  let rawPath := (value.dropWhile (· != 61)).drop 1
  Except.ensure (isLabel label) (.invalidLabel label)
  Except.ensure (label ∉ result.keys) (.duplicateLabel label)
  Except.ensure (rawPath ≠ []) (.missingPath label)
  Except.ensure (¬ lookup.isSymlink rawPath) (.symlinkSource label)
  let path ← Except.ofOption (lookup.resolve rawPath) (.inaccessibleSource label)
  Except.ensure (kind.accepts (fs.node? path)) (.wrongKind label)
  return result.insert label path

/-- `_parse_labeled_sources` -/
def parseLabeledSources (lookup : Lookup) (fs : FileTree) (kind : SourceKind)
    (values : List Text) : Except BackupError (Dict Path) :=
  values.foldlM (parseLabeledSource lookup fs kind) []

/-- `excluded_files` -/
def excludedFiles (sqliteSources : Dict Path) : List Path :=
  sqliteSources.flatMap fun source =>
    [source.2, withSuffix source.2 "-wal", withSuffix source.2 "-shm",
      withSuffix source.2 "-journal"]

/-! ### Staging -/

/-- `destination.mkdir(exist_ok=True)` of a staged directory, and so for the other calls. -/
def stagingCall {α : Type} (call : EStateM OsError FileTree α) : EStateM BackupError FileTree α :=
  adaptExcept .staging call

/-- A regular file is copied unless it is excluded; a link or a device stops the backup. -/
def copyEntry (host : Host) (fs : FileTree) (excluded : List Path) (child destination : Path) :
    EStateM BackupError FileTree Unit :=
  match fs.node? child with
  | some (.file bytes) =>
    if child ∈ excluded then pure ()
    else stagingCall (FileTree.writeNew host destination bytes)
  | _ => throw (.unsupportedEntry child)

/-- The names in a directory that are directories themselves. -/
def directoryNames (fs : FileTree) (p : Path) : List Text :=
  ((childNames fs p).insertionSort (· ≤ ·)).filter fun n => fs.node? (p ++ [n]) = some .dir

/-- The other names in a directory. -/
def fileNames (fs : FileTree) (p : Path) : List Text :=
  ((childNames fs p).insertionSort (· ≤ ·)).filter fun n => fs.node? (p ++ [n]) ≠ some .dir

/-- The walk of `_copy_directory_stable`, so many levels deep. -/
def copyDirectory (host : Host) (fs : FileTree) (excluded : List Path) :
    Nat → Path → Path → EStateM BackupError FileTree Unit
  | 0, _, _ => pure ()
  | depth + 1, root, destination => do
    stagingCall (FileTree.mkdir host true destination)
    (directoryNames fs root).forM fun n =>
      stagingCall (FileTree.mkdirHere host true (destination ++ [n]))
    (fileNames fs root).forM fun n =>
      copyEntry host fs excluded (root ++ [n]) (destination ++ [n])
    (directoryNames fs root).forM fun n =>
      copyDirectory host fs excluded depth (root ++ [n]) (destination ++ [n])

/-- The number of levels of a tree. -/
def levels (fs : FileTree) : Nat := (fs.entries.map (·.1.length)).foldr max 0 + 1

/-- `_copy_directory_stable` -/
def copyDirectoryStable (host : Host) (fs : FileTree) (excluded : List Path)
    (source destination : Path) : EStateM BackupError FileTree Unit := do
  stagingCall (FileTree.mkdir host false destination)
  copyDirectory host fs excluded (levels fs) source destination

def sqliteName : Text := "sqlite"

def directoriesName : Text := "directories"

/-- The staged copy of a database. -/
def sqlitePath (label : Text) : Path := [payloadName, sqliteName, label ++ (".sqlite3" : Text)]

/-- The staged copy of a directory. -/
def directoryPath (label : Text) : Path := [payloadName, directoriesName, label]

/-- `_online_sqlite_backup`; `snapshot` is what SQLite copies of a database. -/
def onlineSqliteBackup (host : Host) (snapshot : Path → Option (List Nat))
    (quickCheck : QuickCheck) (source : Text × Path) : EStateM BackupError FileTree Unit := do
  stagingCall (FileTree.mkdir host true (sqlitePath source.1).dropLast)
  let bytes ← fromExcept (Except.ofOption (snapshot source.2) (.onlineBackup source.1))
  stagingCall (FileTree.writeNew host (sqlitePath source.1) bytes)
  let staging ← get
  ensure (sqliteQuickCheck quickCheck staging (sqlitePath source.1)) (.quickCheck source.1)

/-- `sorted(root.rglob("*"))` -/
def sortedEntries (entries : List (Path × Node)) : List (Path × Node) :=
  entries.insertionSort fun e f => e.1 ≤ f.1

variable {φ : Type} [FloatFormat φ]

/-- A row of `files`. -/
def archiveRow (path : Path) (bytes : List Nat) : JsonValue φ :=
  .obj [("path", .str (joinNames path)), ("size", .int bytes.length),
    ("sha256", .str (Sha256.hex (Sha256.digest bytes)))]

/-- `_archive_rows` -/
def archiveRows (staging : FileTree) : List (JsonValue φ) :=
  (sortedEntries (entriesBelow staging [payloadName])).filterMap fun e =>
    match e.2 with
    | .file bytes => some (archiveRow e.1 bytes)
    | _ => none

/-- `manifest`, for these rows of `files`. -/
def manifestOf (rows : List (JsonValue φ)) (sqliteSources directorySources : Dict Path)
    (encrypt : Bool) (createdAt : Text) : JsonValue φ :=
  .obj [("format", .str formatName), ("schema_version", .int schemaVersion),
    ("created_at", .str createdAt), ("encryption", .str (if encrypt then "age" else "none")),
    ("files", .arr rows),
    ("sqlite_files", .arr (sqliteSources.sortKeys.map fun s => .str (joinNames (sqlitePath s.1)))),
    ("directory_roots",
      .arr (directorySources.sortKeys.map fun s => .str (joinNames (directoryPath s.1))))]

/-- What `write_text` writes of the manifest. -/
def manifestFile (manifest : JsonValue φ) : List Nat :=
  Sha256.utf8 (manifest.indented 0 ++ [10])

/-- The staging of `create_backup`. -/
def stageBackup (φ : Type) [FloatFormat φ] (host : Host) (fs : FileTree)
    (snapshot : Path → Option (List Nat)) (quickCheck : QuickCheck)
    (sqliteSources directorySources : Dict Path) (encrypt : Bool) (createdAt : Text) :
    EStateM BackupError FileTree Unit := do
  stagingCall (FileTree.mkdir host false [payloadName, sqliteName])
  stagingCall (FileTree.mkdir host false [payloadName, directoriesName])
  sqliteSources.sortKeys.forM (onlineSqliteBackup host snapshot quickCheck)
  directorySources.sortKeys.forM fun source =>
    copyDirectoryStable host fs (excludedFiles sqliteSources) source.2 (directoryPath source.1)
  let staging ← get
  let manifest : JsonValue φ :=
    manifestOf (archiveRows staging) sqliteSources directorySources encrypt createdAt
  stagingCall (FileTree.writeNew host [manifestName] (manifestFile manifest))

/-- What `archive.add` makes of a staged entry. -/
def memberOf (mode : Path → Nat) (e : Path × Node) : Member :=
  match e.2 with
  | .file bytes => ⟨joinNames e.1, .regular, bytes.length, mode e.1, bytes⟩
  | .dir => ⟨joinNames e.1, .directory, 0, mode e.1, []⟩
  | .special => ⟨joinNames e.1, .other, 0, mode e.1, []⟩

/-- `_write_tar`; `mode` are the modes of the staged entries. -/
def writeTar (mode : Path → Nat) (staging : FileTree) : Archive where
  members := (sortedEntries staging.entries).map (memberOf mode)
  broken := false

/-- The arguments of `create_backup`, and what its calls yield. -/
structure BackupRequest where
  sqliteArguments : List Text
  directoryArguments : List Text
  output : Path
  encrypt : Bool
  createdAt : Text
  /-- `isoformat()` -/
  createdAt_ascii : ∀ c ∈ createdAt, c < 0x80
  mode : Path → Nat

/-- `create_backup`: the published archive. The sources do not change meanwhile; the copies are
checked for that. -/
def createBackup (φ : Type) [FloatFormat φ] (host : Host) (lookup : Lookup) (fs : FileTree)
    (snapshot : Path → Option (List Nat)) (quickCheck : QuickCheck) (request : BackupRequest) :
    Except BackupError Archive := do
  Except.ensure (fs.node? request.output = none) .outputExists
  Except.ensure (fs.node? request.output.dropLast = some .dir) .outputParent
  let sqliteSources ← parseLabeledSources lookup fs .sqlite request.sqliteArguments
  let directorySources ← parseLabeledSources lookup fs .directory request.directoryArguments
  Except.ensure (sqliteSources ≠ [] ∨ directorySources ≠ []) .noSources
  match directorySources.find? fun source => source.2.isPrefixOf request.output with
  | some source => throw (.outputInside source.1)
  | none =>
    match stageBackup φ host fs snapshot quickCheck sqliteSources directorySources request.encrypt
        request.createdAt FileTree.empty with
    | .ok () staging => return writeTar request.mode staging
    | .error e _ => throw e

/-! ### Restoring -/

/-- `_validate_restore_target` -/
def validateRestoreTarget (fs : FileTree) (target : Path) (overwrite : Bool) :
    Except BackupError Unit :=
  match fs.node? target with
  | none => .ok ()
  | some .dir =>
    Except.ensure (childNames fs target = [] ∨ overwrite = true) .targetNotEmpty
  | some _ => .error .targetNotDirectory

def extractedName : Text := "extracted"

/-- The directory `mkdtemp` makes next to the target; `random` is what it picks. -/
def verifyPath (target : Path) (random : Text) : Path :=
  match target.getLast? with
  | some name => target.dropLast ++ [46 :: name ++ (".verify-" : Text) ++ random]
  | none => target

/-- `restore_backup`: the tree that is moved to the target, a copy of the verified payload. -/
def restoreBackup (host : Host) (quickCheck : QuickCheck) (isOne : φ → Bool) (limits : Limits)
    (archive : Archive) (target : Path) (random : Text) (overwrite : Bool) :
    EStateM BackupError FileTree (List (Path × Node)) := do
  ensure (0 < limits.maxExtractBytes ∧ 0 < limits.maxMembers) .invalidLimits
  ensure (target ≠ []) .targetUnnamed
  let fs ← get
  ensure (fs.node? target.dropLast = some .dir) .targetParent
  fromExcept (validateRestoreTarget fs target overwrite)
  adaptExcept (fun e => .extraction (some e))
    (FileTree.mkdirHere host false (verifyPath target random))
  let extracted := verifyPath target random ++ [extractedName]
  let _opened ← openArchive host quickCheck isOne limits archive extracted
  let fs ← get
  fromExcept (validateRestoreTarget fs target overwrite)
  let payload := extracted ++ [payloadName]
  return (entriesBelow fs payload).map fun e => (e.1.drop payload.length, e.2)

end RentCompass.Deploy
