import RentCompass.Fallible
import RentCompass.Json.Dumps
import RentCompass.PosixPath
import RentCompass.Sha256

/-!
# Reading a runtime backup

How a backup archive is unpacked into a fresh directory and checked against its manifest. An
archive is the sequence of members `tarfile` yields, with what it raises behind the last one.
-/

namespace RentCompass.Deploy

open PurePosixPath (slash dot dotDot joinNames joinpath)
open FileTree (Path Node Host OsError)
open EStateM (ensure fromExcept adaptExcept)

inductive BackupError where
  /-- `Unsafe archive member path` -/
  | unsafeMember (name : Text)
  /-- `Archive exceeds the member-count limit` -/
  | tooManyMembers
  /-- `Duplicate archive member` -/
  | duplicateMember (key : Text)
  /-- `Unsupported archive member type` -/
  | unsupportedMember (key : Text)
  /-- `Invalid archive member size` -/
  | invalidSize (key : Text)
  /-- `Archive exceeds the expanded-size limit` -/
  | tooManyBytes
  /-- `Truncated archive member` -/
  | truncatedMember (key : Text)
  /-- `Unable to extract backup archive`: a call or the archive failed. -/
  | extraction (cause : Option OsError)
  /-- `Manifest contains a non-string path` -/
  | nonStringPath
  /-- `Manifest contains an invalid path` -/
  | invalidPath (value : Text)
  /-- `Extracted payload contains a symlink or special entry` -/
  | specialEntry
  /-- `Archive contains missing or unexpected top-level entries` -/
  | unexpectedRoots
  /-- `Archive is missing its manifest or payload` -/
  | missingParts
  /-- `Backup manifest exceeds the size limit` -/
  | manifestTooLarge
  /-- `Backup manifest is invalid` -/
  | invalidManifest
  /-- `Backup manifest must be an object` -/
  | manifestNotObject
  /-- `Backup manifest has an unsupported format` -/
  | unsupportedFormat
  /-- `Backup manifest has an unsupported schema version` -/
  | unsupportedVersion
  /-- `Backup manifest files must be a list`, and so for the other lists -/
  | notAList (field : String)
  /-- `Backup manifest contains an invalid file record` -/
  | invalidRecord
  /-- `Backup manifest metadata is invalid for` -/
  | invalidMetadata (path : Text)
  /-- `Backup manifest repeats file` -/
  | repeatedFile (path : Text)
  /-- `Backup payload file set does not match its manifest` -/
  | filesDiffer
  /-- `Backup payload size mismatch` -/
  | sizeMismatch (path : Text)
  /-- `Backup payload hash mismatch` -/
  | hashMismatch (path : Text)
  /-- `Backup manifest has an invalid SQLite entry` -/
  | invalidSqlite (path : Text)
  /-- `SQLite quick_check failed` or `SQLite validation failed` -/
  | quickCheck (path : Text)
  /-- `Backup manifest repeats directory root` -/
  | repeatedRoot (path : Text)
  /-- `Backup directory root is missing` -/
  | missingRoot (path : Text)
  /-- `source must use LABEL=PATH` -/
  | noSeparator (value : Text)
  /-- `Invalid label` -/
  | invalidLabel (label : Text)
  /-- `Duplicate label` -/
  | duplicateLabel (label : Text)
  /-- `Missing path for label` -/
  | missingPath (label : Text)
  /-- `source must not be a symlink` -/
  | symlinkSource (label : Text)
  /-- `source is not accessible` -/
  | inaccessibleSource (label : Text)
  /-- `source is not a regular file`, or `is not a directory` -/
  | wrongKind (label : Text)
  /-- `At least one --sqlite or --directory source is required` -/
  | noSources
  /-- `Backup output already exists` -/
  | outputExists
  /-- `Backup output parent is not a directory` -/
  | outputParent
  /-- `Backup output cannot be inside directory source` -/
  | outputInside (label : Text)
  /-- `Online SQLite backup failed` -/
  | onlineBackup (label : Text)
  /-- `Symlink found in runtime directory`, or `Special entry found` -/
  | unsupportedEntry (path : Path)
  /-- `Unable to copy runtime file`, and calls of the staging that fail -/
  | staging (cause : OsError)
  /-- `Extraction limits must be positive` -/
  | invalidLimits
  /-- `Restore target must name a directory` -/
  | targetUnnamed
  /-- `Restore target parent must be a directory` -/
  | targetParent
  /-- `Restore target must be an absent or real directory` -/
  | targetNotDirectory
  /-- `Restore target is non-empty; refusing to overwrite it` -/
  | targetNotEmpty
  deriving DecidableEq

def formatName : Text := "rentcompass-runtime-backup"

def schemaVersion : Int := 1

def maxManifestBytes : Nat := 16 * 1024 * 1024

structure Limits where
  maxExtractBytes : Int
  maxMembers : Int

/-- `DEFAULT_MAX_EXTRACT_BYTES` and `DEFAULT_MAX_MEMBERS`. -/
def Limits.default : Limits where
  maxExtractBytes := 20 * 1024 * 1024 * 1024
  maxMembers := 250000

/-! ### Names -/

def backslash : Nat := 92

/-- `_safe_member_name` -/
def safeMemberName (name : Text) : Except BackupError PurePosixPath :=
  let normalized := name.rdropWhile (· == slash)
  if normalized = [] ∨ name.head? = some slash ∨ backslash ∈ name ∨ 0 ∈ name then
    .error (.unsafeMember name)
  else
    let rawParts := normalized.splitOn slash
    if ∃ part ∈ rawParts, part = [] ∨ part = dot ∨ part = dotDot then .error (.unsafeMember name)
    else .ok (PurePosixPath.ofSegments rawParts)

/-! ### Extraction -/

inductive MemberKind where
  | directory
  /-- `isreg()` -/
  | regular
  /-- A link, a device, a queue. -/
  | other
  deriving DecidableEq

/-- A `TarInfo`, and the bytes that can be read of it. -/
structure Member where
  name : Text
  kind : MemberKind
  size : Int
  mode : Nat
  data : List Nat

structure Archive where
  members : List Member
  /-- What reading on raises behind the last member. -/
  broken : Bool

/-- `modes`, `seen` and `total_bytes`. -/
structure Extraction where
  modes : Dict Nat
  seen : List Text
  totalBytes : Int

def chunkSize : Nat := 1024 * 1024

/-- The copy loop: what is written, and what remains. -/
def copyChunks : Nat → List Nat → Nat → List Nat × Nat
  | 0, _, remaining => ([], remaining)
  | fuel + 1, data, remaining =>
    if remaining = 0 then ([], 0)
    else
      let chunk := data.take (min chunkSize remaining)
      if chunk = [] then ([], remaining)
      else
        let rest := copyChunks fuel (data.drop chunk.length) (remaining - chunk.length)
        (chunk ++ rest.1, rest.2)

/-- What the loop creates for a member. -/
def writeMember (host : Host) (target : Path) (key : Text) (member : Member) :
    EStateM BackupError FileTree Unit :=
  if member.kind = .directory then
    adaptExcept (fun e => .extraction (some e)) (FileTree.mkdir host false target)
  else do
    adaptExcept (fun e => .extraction (some e)) (FileTree.mkdir host true target.dropLast)
    let copied := copyChunks member.size.toNat member.data member.size.toNat
    adaptExcept (fun e => .extraction (some e)) (FileTree.writeNew host target copied.1)
    ensure (copied.2 = 0) (.truncatedMember key)

/-- One turn of the loop of `_safe_extract`. -/
def extractMember (host : Host) (limits : Limits) (destination : Path) (index : Nat)
    (member : Member) (state : Extraction) : EStateM BackupError FileTree Extraction := do
  ensure (index ≤ limits.maxMembers) .tooManyMembers
  let relative ← fromExcept (safeMemberName member.name)
  let key := relative.asPosix
  ensure (key ∉ state.seen) (.duplicateMember key)
  ensure (member.kind = .directory ∨ member.kind = .regular) (.unsupportedMember key)
  ensure (0 ≤ member.size) (.invalidSize key)
  let totalBytes := state.totalBytes + member.size
  ensure (totalBytes ≤ limits.maxExtractBytes) .tooManyBytes
  let target := joinpath destination relative.parts
  writeMember host target key member
  adaptExcept (fun e => .extraction (some e)) (FileTree.chmod host target)
  return ⟨state.modes.insert key member.mode, key :: state.seen, totalBytes⟩

/-- The loop of `_safe_extract`, from the member with this index on. -/
def extractMembers (host : Host) (limits : Limits) (destination : Path) (broken : Bool) :
    Nat → List Member → Extraction → EStateM BackupError FileTree Extraction
  | _, [], state => do
    ensure (broken = false) (.extraction none)
    return state
  | index, member :: members, state => do
    let state ← extractMember host limits destination index member state
    extractMembers host limits destination broken (index + 1) members state

/-- `_safe_extract`: the modes of the members. -/
def safeExtract (host : Host) (limits : Limits) (archive : Archive) (destination : Path) :
    EStateM BackupError FileTree (Dict Nat) := do
  adaptExcept (fun e => .extraction (some e)) (FileTree.mkdir host false destination)
  let state ← extractMembers host limits destination archive.broken 1 archive.members ⟨[], [], 0⟩
  return state.modes

/-! ### Manifest -/

variable {φ : Type} [FloatFormat φ]

/-- `read_text(encoding="utf-8")` before the newlines. -/
def decodeUtf8 : List Nat → Option Text
  | [] => some []
  | a :: bytes =>
    if a < 0x80 then (decodeUtf8 bytes).map (a :: ·)
    else
      match bytes with
      | [] => none
      | b :: bytes =>
        if b < 0x80 ∨ 0xC0 ≤ b then none
        else if 0xC2 ≤ a ∧ a < 0xE0 then
          (decodeUtf8 bytes).map fun t => ((a - 0xC0) * 64 + (b - 0x80)) :: t
        else
          match bytes with
          | [] => none
          | c :: bytes =>
            if c < 0x80 ∨ 0xC0 ≤ c then none
            else if 0xE0 ≤ a ∧ a < 0xF0 then
              let char := (a - 0xE0) * 4096 + (b - 0x80) * 64 + (c - 0x80)
              if char < 0x800 ∨ Text.isSurrogate char then none
              else (decodeUtf8 bytes).map (char :: ·)
            else
              match bytes with
              | [] => none
              | d :: bytes =>
                let char := (a - 0xF0) * 262144 + (b - 0x80) * 4096 + (c - 0x80) * 64 + (d - 0x80)
                if d < 0x80 ∨ 0xC0 ≤ d ∨ a < 0xF0 ∨ char < 0x10000 ∨ 0x110000 ≤ char then none
                else (decodeUtf8 bytes).map (char :: ·)

/-- The newlines of a text opened without `newline`. -/
def universalNewlines : Text → Text
  | [] => []
  | 13 :: 10 :: t => 10 :: universalNewlines t
  | 13 :: t => 10 :: universalNewlines t
  | c :: t => c :: universalNewlines t

/-- `_manifest_relative_path` -/
def manifestRelativePath (value : Option (JsonValue φ)) (wanted : Text) :
    Except BackupError PurePosixPath :=
  match value with
  | some (.str value) => do
    let relative ← safeMemberName value
    let normalized := relative.asPosix
    Except.ensure (normalized = value ∧ wanted <+: normalized) (.invalidPath value)
    return relative
  | _ => .error .nonStringPath

structure FileRecord where
  path : PurePosixPath
  size : Nat
  sha256 : Text
  deriving DecidableEq

/-- `_SHA256_RE` -/
def isSha256 (digest : Text) : Bool :=
  digest.length = 64 && digest.all fun c => (48 ≤ c && c ≤ 57) || (97 ≤ c && c ≤ 102)

/-- One row of `files`. -/
def readFileRecord (row : JsonValue φ) : Except BackupError FileRecord :=
  match row with
  | .obj row => do
    let path ← manifestRelativePath (Dict.get? row "path") "payload/"
    match Dict.get? row "size", Dict.get? row "sha256" with
    | some (.int size), some (.str digest) =>
      Except.ensure (0 ≤ size ∧ isSha256 digest) (.invalidMetadata path.asPosix)
      return ⟨path, size.toNat, digest⟩
    | _, _ => throw (.invalidMetadata path.asPosix)
  | _ => .error .invalidRecord

/-- The rows of `files`, with what the rows before them expect. -/
def readFileRecords (expected : List FileRecord) :
    List (JsonValue φ) → Except BackupError (List FileRecord)
  | [] => .ok expected
  | row :: rows => do
    let record ← readFileRecord row
    Except.ensure (record.path.asPosix ∉ expected.map (·.path.asPosix))
      (.repeatedFile record.path.asPosix)
    readFileRecords (expected ++ [record]) rows

/-- The entries below a directory. -/
def entriesBelow (fs : FileTree) (p : Path) : List (Path × Node) :=
  fs.entries.filter fun e => p <+: e.1 ∧ e.1 ≠ p

/-- `_actual_payload_files` -/
def actualPayloadFiles (fs : FileTree) (payload : Path) : Except BackupError (List Text) :=
  let found := entriesBelow fs payload
  if ∃ e ∈ found, e.2 = .special then .error .specialEntry
  else .ok ((found.filter fun e => e.2 ≠ .dir).map fun e =>
    joinNames (e.1.drop payload.dropLast.length))

/-- The size and the hash of one file. -/
def verifyRecord (fs : FileTree) (extracted : Path) (record : FileRecord) :
    Except BackupError Unit :=
  match fs.node? (joinpath extracted record.path.parts) with
  | some (.file bytes) =>
    if bytes.length ≠ record.size then .error (.sizeMismatch record.path.asPosix)
    else if Sha256.hex (Sha256.digest bytes) ≠ record.sha256 then
      .error (.hashMismatch record.path.asPosix)
    else .ok ()
  | _ => .error (.sizeMismatch record.path.asPosix)

/-- What SQLite finds in a database: the contents of the file, of its `-wal` and of its
`-journal`. -/
abbrev QuickCheck := List Nat → Option (List Nat) → Option (List Nat) → Bool

/-- The contents of a regular file. -/
def fileBytes? (fs : FileTree) (p : Path) : Option (List Nat) :=
  match fs.node? p with
  | some (.file bytes) => some bytes
  | _ => none

/-- A path with something behind its last name. -/
def withSuffix (p : Path) (suffix : Text) : Path :=
  match p.getLast? with
  | some name => p.dropLast ++ [name ++ suffix]
  | none => p

/-- `_sqlite_quick_check` -/
def sqliteQuickCheck (quickCheck : QuickCheck) (fs : FileTree) (p : Path) : Bool :=
  match fileBytes? fs p with
  | some bytes => quickCheck bytes (fileBytes? fs (withSuffix p "-wal"))
      (fileBytes? fs (withSuffix p "-journal"))
  | none => false

/-- The entries of `sqlite_files`, those seen before them given. -/
def verifySqlite (quickCheck : QuickCheck) (fs : FileTree) (extracted : Path)
    (expected : List FileRecord) : List Text → List (JsonValue φ) → Except BackupError Unit
  | _, [] => .ok ()
  | seen, value :: values => do
    let relative ← manifestRelativePath (some value) "payload/sqlite/"
    let key := relative.asPosix
    Except.ensure (key ∉ seen ∧ key ∈ expected.map (·.path.asPosix)) (.invalidSqlite key)
    Except.ensure (sqliteQuickCheck quickCheck fs (joinpath extracted relative.parts))
      (.quickCheck key)
    verifySqlite quickCheck fs extracted expected (key :: seen) values

/-- The entries of `directory_roots`, those seen before them given. -/
def verifyRoots (fs : FileTree) (extracted : Path) :
    List Text → List (JsonValue φ) → Except BackupError Unit
  | _, [] => .ok ()
  | seen, value :: values => do
    let relative ← manifestRelativePath (some value) "payload/directories/"
    let key := relative.asPosix
    Except.ensure (key ∉ seen) (.repeatedRoot key)
    Except.ensure (fs.node? (joinpath extracted relative.parts) = some .dir) (.missingRoot key)
    verifyRoots fs extracted (key :: seen) values

/-- `manifest.get(field)` of a list. -/
def listField (manifest : Dict (JsonValue φ)) (field : String) :
    Except BackupError (List (JsonValue φ)) :=
  match manifest.get? field with
  | some (.arr items) => .ok items
  | _ => .error (.notAList field)

/-- `value == FORMAT_NAME` -/
def isFormat : Option (JsonValue φ) → Bool
  | some (.str s) => s = formatName
  | _ => false

/-- `value == SCHEMA_VERSION`; `isOne` compares a float. -/
def isSchemaVersion (isOne : φ → Bool) : Option (JsonValue φ) → Bool
  | some (.int n) => n = schemaVersion
  | some (.bool b) => b
  | some (.float x) => isOne x
  | _ => false

/-- `json.loads(manifest_path.read_text(encoding="utf-8"))`, an object. -/
def parseManifest (bytes : List Nat) : Except BackupError (Dict (JsonValue φ)) :=
  match (decodeUtf8 bytes).bind fun t => JsonValue.loads (universalNewlines t) with
  | none => .error .invalidManifest
  | some (.obj manifest) => .ok manifest
  | some _ => .error .manifestNotObject

def manifestName : Text := "manifest.json"

def payloadName : Text := "payload"

/-- The names in a directory. -/
def childNames (fs : FileTree) (p : Path) : List Text :=
  (fs.entries.filter fun e => e.1.dropLast = p).filterMap (·.1.getLast?)

/-- The bytes of the manifest, where the archive has its two parts. -/
def manifestBytes (fs : FileTree) (extracted : Path) : Except BackupError (List Nat) :=
  let names := childNames fs extracted
  if (∀ n ∈ names, n = manifestName ∨ n = payloadName) ∧ manifestName ∈ names ∧
      payloadName ∈ names then
    match fs.node? (joinpath extracted [manifestName]), fs.node? (joinpath extracted [payloadName])
    with
    | some (.file bytes), some .dir =>
      if maxManifestBytes < bytes.length then .error .manifestTooLarge else .ok bytes
    | _, _ => .error .missingParts
  else .error .unexpectedRoots

/-- What `_load_and_verify_manifest` checks of a manifest it could read. -/
def verifyManifest (quickCheck : QuickCheck) (isOne : φ → Bool) (fs : FileTree)
    (extracted : Path) (manifest : Dict (JsonValue φ)) : Except BackupError Unit := do
  Except.ensure (isFormat (manifest.get? "format")) .unsupportedFormat
  Except.ensure (isSchemaVersion isOne (manifest.get? "schema_version")) .unsupportedVersion
  let rows ← listField manifest "files"
  let expected ← readFileRecords [] rows
  let actual ← actualPayloadFiles fs (joinpath extracted [payloadName])
  let listed := expected.map (·.path.asPosix)
  Except.ensure ((∀ path ∈ actual, path ∈ listed) ∧ ∀ path ∈ listed, path ∈ actual) .filesDiffer
  expected.forM (verifyRecord fs extracted)
  let sqliteFiles ← listField manifest "sqlite_files"
  verifySqlite quickCheck fs extracted expected [] sqliteFiles
  let directoryRoots ← listField manifest "directory_roots"
  verifyRoots fs extracted [] directoryRoots

/-- `_load_and_verify_manifest` -/
def loadAndVerifyManifest (quickCheck : QuickCheck) (isOne : φ → Bool) (fs : FileTree)
    (extracted : Path) : Except BackupError (Dict (JsonValue φ)) := do
  let bytes ← manifestBytes fs extracted
  let manifest ← parseManifest bytes
  verifyManifest quickCheck isOne fs extracted manifest
  return manifest

/-- `_safe_extract` followed by `_load_and_verify_manifest`. -/
def openArchive (host : Host) (quickCheck : QuickCheck) (isOne : φ → Bool) (limits : Limits)
    (archive : Archive) (destination : Path) :
    EStateM BackupError FileTree (Dict Nat × Dict (JsonValue φ)) := do
  let modes ← safeExtract host limits archive destination
  let fs ← get
  let manifest ← fromExcept (loadAndVerifyManifest quickCheck isOne fs destination)
  return (modes, manifest)

end RentCompass.Deploy
