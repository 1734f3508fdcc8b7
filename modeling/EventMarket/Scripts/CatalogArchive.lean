import EventMarket.Foundations.OrderedDict
import EventMarket.Foundations.Run
import EventMarket.Scripts.PythonValues
import EventMarket.Scripts.PublicPool

/-!
# The archive of the catalog

An archive is a directory with the responses of public requests and a manifest that lists them. Old
archives hold the responses as they came. When an archive is resumed, each of them is compressed:
the compressed file is written, the manifest that refers to it is saved, and the old file is
removed. Compression and hashes come from the standard library, which is a parameter. The text of a
manifest reads back as the same value, so that a file may hold the value.

## Main definitions

* `ArchiveSource`, `ArchivedRequest`, `Manifest`: what the manifest lists.
* `Disk`, `FileOperation`: the directory and its durable operations.
* `readArchivedResponse`: a response of the archive, after all checks.
* `CatalogClient.migrate`, `resume`: the migration.
-/

namespace EventMarket.Scripts

open Foundations Gateway

/-! ### The manifest -/

/-- What the manifest knows of a file. A field that is missing is none. -/
structure ArchiveSource where
  url : Option String
  sha256 : Option String
  httpStatus : Option ℤ
  responseBytes : Option ℕ
  encoding : Option String := none
  storedBytes : Option ℕ := none
  storedSha256 : Option String := none
  others : Record := []

/-- A request with the file of its response. -/
structure ArchivedRequest where
  url : Option String
  sha256 : Option String
  httpStatus : Option ℤ
  file : Option String
  others : Record := []

structure RequestPolicy where
  maximumArchiveBytes : Option ℤ
  maximumDecodedBytes : Option ℤ
  others : Record := []

structure Manifest where
  schemaVersion : ℕ
  requestPolicy : RequestPolicy
  requests : List ArchivedRequest
  sources : OrderedDict String ArchiveSource
  rawBytes : Option ℤ := none
  decodedBytes : Option ℤ := none
  storedBytes : Option ℤ := none
  others : Record := []

/-! ### The directory -/

/-- What a name of the directory stands for. Links and directories are no files. -/
inductive DiskEntry where
  | file (bytes : List UInt8)
  | document (manifest : Manifest)
  | other

/-- The directory of an archive. -/
abbrev Disk : Type := String → Option DiskEntry

/-- The operations that change the directory. -/
inductive FileOperation where
  | write (name : String) (entry : DiskEntry)
  | rename (old new : String)
  | unlink (name : String)

def FileOperation.apply (disk : Disk) : FileOperation → Disk
  | .write name entry => Function.update disk name (some entry)
  | .rename old new => Function.update (Function.update disk new (disk old)) old none
  | .unlink name => Function.update disk name none

def manifestName : String := "catalog-manifest.json"

/-- A manifest is written under this name and then renamed. -/
def temporaryName : String := "catalog-manifest.json.tmp"

/-- The size of a file. -/
def fileSize (disk : Disk) (name : String) : ℕ :=
  match disk name with
  | some (.file bytes) => bytes.length
  | _ => 0

/-! ### Reading a response -/

/-- The hash and the compression of the standard library. Reading a compressed file may stop after
a number of bytes, and fails when the file is no such file. -/
structure ArchiveLibrary where
  sha256 : List UInt8 → String
  compress : List UInt8 → List UInt8
  readGzip : List UInt8 → ℕ → Option (List UInt8)

/-- The name ends like a compressed file. -/
def isGzipName (name : String) : Bool := ".gz".toList.isSuffixOf name.toList

/-- A character of a stem. -/
def stemCharacter (character : Char) : Bool :=
  character.isAlphanum || character == '_' || character == '-'

/-- The name without the ending of a compressed file. -/
def plainName (name : String) : List Char :=
  if isGzipName name then name.toList.take (name.toList.length - 3) else name.toList

/-- The names that responses may have: a stem, `.json`, and `.gz` or not. -/
def archivedName (name : String) : Bool :=
  let stem := (plainName name).take ((plainName name).length - 5)
  ".json".toList.isSuffixOf (plainName name) && !stem.isEmpty && stem.all stemCharacter

/-- A source that does not say how it is encoded is plain. -/
def ArchiveSource.isPlain (source : ArchiveSource) : Bool :=
  source.encoding.getD "identity" == "identity"

/-- The original of a stored file. -/
def decodeStored (library : ArchiveLibrary) (name : String) (source : ArchiveSource) (size : ℕ)
    (stored : List UInt8) : Except String (List UInt8) :=
  if source.encoding = some "gzip" then
    if isGzipName name = false ∨ source.storedBytes ≠ some stored.length ∨
        source.storedSha256 ≠ some (library.sha256 stored) then
      .error "archived_stored_hash_mismatch"
    else
      match library.readGzip stored (size + 1) with
      | none => .error "invalid_archived_gzip"
      | some decoded => .ok decoded
  else if source.isPlain ∧ isGzipName name = false then .ok stored
  else .error "invalid_archive_encoding"

/-- A response of an archive, with its stored and its original hash and length checked. -/
def readArchivedResponse (library : ArchiveLibrary) (disk : Disk) (name : String)
    (source : ArchiveSource) : Except String (List UInt8) :=
  if archivedName name = false then .error "invalid_archived_filename"
  else
    match disk name with
    | none => .error "missing_or_unsafe_archived_file"
    | some .other => .error "missing_or_unsafe_archived_file"
    | some (.document _) => .error "archived_original_hash_mismatch"
    | some (.file stored) =>
      match source.responseBytes with
      | none => .error "invalid_archived_response_size"
      | some size =>
        if maxResponseBytes < size then .error "invalid_archived_response_size"
        else if maxResponseBytes + 65536 < stored.length then .error "archived_file_too_large"
        else do
          let decoded ← decodeStored library name source size stored
          if decoded.length ≠ size ∨ source.sha256 ≠ some (library.sha256 decoded) then
            .error "archived_original_hash_mismatch"
          else .ok decoded

/-! ### Resuming -/

/-- The budgets of a client, and whether its caller writes the files. -/
structure CatalogLimits where
  maxArchiveBytes : ℤ
  maxDecodedBytes : ℤ
  customWriter : Bool

/-- A client while it resumes an archive: the directory, the durable operations so far, and its own
variables. -/
structure CatalogClient where
  disk : Disk
  operations : List FileOperation := []
  manifest : Manifest
  rawBytes : ℤ
  storedBytes : ℤ

/-- An error, with the durable operations before it. -/
structure ResumeFailure where
  error : String
  operations : List FileOperation

abbrev Resumed : Type := Except ResumeFailure CatalogClient

/-- The durable operations of an attempt to resume. -/
def operationsOf : Resumed → List FileOperation
  | .ok client => client.operations
  | .error failure => failure.operations

/-- The manifest of the directory. -/
def loadManifest (disk : Disk) : Except String Manifest :=
  match disk manifestName with
  | none => .error "missing_or_unsafe_archive_manifest"
  | some .other => .error "missing_or_unsafe_archive_manifest"
  | some (.file _) => .error "invalid_public_json"
  | some (.document manifest) =>
    if manifest.schemaVersion ≠ 1 ∧ manifest.schemaVersion ≠ 2 then
      .error "invalid_archive_manifest"
    else .ok manifest

/-- Every response is read before anything is changed. The result are the sizes of the originals
and of the files. -/
def verifySources (library : ArchiveLibrary) (disk : Disk) :
    List (String × ArchiveSource) → Except String (ℤ × ℤ)
  | [] => .ok (0, 0)
  | (name, source) :: rest => do
    let _ ← readArchivedResponse library disk name source
    let (raw, stored) ← verifySources library disk rest
    .ok (source.responseBytes.getD 0 + raw, fileSize disk name + stored)

/-- A request with a file agrees with the source of the file. -/
def verifyRequest (sources : OrderedDict String ArchiveSource) (request : ArchivedRequest) :
    Except String Unit :=
  match request.file with
  | none => .ok ()
  | some file =>
    if file = "" then .ok ()
    else
      match sources.get? file with
      | none => .error "archived_request_source_mismatch"
      | some source =>
        if source.url ≠ request.url ∨ source.sha256 ≠ request.sha256 ∨
            source.httpStatus ≠ request.httpStatus then
          .error "archived_request_source_mismatch"
        else .ok ()

/-- The source of a response after it was compressed. -/
def ArchiveSource.zipped (library : ArchiveLibrary) (source : ArchiveSource)
    (stored : List UInt8) : ArchiveSource :=
  { source with
    encoding := some "gzip"
    storedBytes := some stored.length
    storedSha256 := some (library.sha256 stored) }

/-- A request follows its file to a new name. -/
def ArchivedRequest.follow (old new : String) (request : ArchivedRequest) : ArchivedRequest :=
  if request.file = some old then { request with file := some new } else request

namespace CatalogClient

def perform (client : CatalogClient) (operation : FileOperation) : CatalogClient :=
  { client with
    disk := operation.apply client.disk
    operations := client.operations ++ [operation] }

def updateSizes (client : CatalogClient) : CatalogClient :=
  { client with manifest := { client.manifest with
    rawBytes := some client.rawBytes
    decodedBytes := some client.rawBytes
    storedBytes := some client.storedBytes } }

/-- Save the manifest: through a temporary file, unless the caller writes the files. -/
def save (limits : CatalogLimits) (client : CatalogClient) : CatalogClient :=
  if limits.customWriter then client.perform (.write manifestName (.document client.manifest))
  else
    (client.perform (.write temporaryName (.document client.manifest))).perform
      (.rename temporaryName manifestName)

/-- An error leaves what was done. -/
def attempt {α : Type} (client : CatalogClient) (result : Except String α) :
    Except ResumeFailure α :=
  result.mapError fun error => ⟨error, client.operations⟩

/-- The compressed file is written, unless it is there already. -/
def writeStored (client : CatalogClient) (name : String) (stored : List UInt8) : Resumed :=
  match client.disk name with
  | none => .ok (client.perform (.write name (.file stored)))
  | some (.file bytes) =>
    if bytes ≠ stored then client.attempt (.error "archive_migration_file_conflict")
    else .ok client
  | some _ => client.attempt (.error "archive_migration_file_conflict")

/-- The manifest refers to the compressed file, and then the old file is removed. -/
def commit (limits : CatalogLimits) (client : CatalogClient) (name newName : String)
    (updated : ArchiveSource) (change : ℤ) : CatalogClient :=
  let manifest := { client.manifest with
    sources := (client.manifest.sources.set newName updated).erase name
    requests := client.manifest.requests.map (.follow name newName) }
  (({ client with manifest, storedBytes := client.storedBytes + change }.updateSizes).save
    limits).perform (.unlink name)

/-- The migration of one source. -/
def migrate (library : ArchiveLibrary) (limits : CatalogLimits) (client : CatalogClient)
    (entry : String × ArchiveSource) : Resumed :=
  let (name, source) := entry
  if source.isPlain = false then .ok client
  else do
    let body ← client.attempt (readArchivedResponse library client.disk name source)
    let stored := library.compress body
    let newName := name ++ ".gz"
    let client ← client.writeStored newName stored
    let updated := source.zipped library stored
    let _ ← client.attempt (readArchivedResponse library client.disk newName updated)
    .ok (client.commit limits name newName updated (stored.length - body.length))

end CatalogClient

/-- An error before anything was done. -/
def refused {α : Type} (result : Except String α) : Except ResumeFailure α :=
  result.mapError fun error => ⟨error, []⟩

/-- Resume an archive: everything is checked, then every plain response is migrated, and the
manifest is saved. -/
def resume (library : ArchiveLibrary) (limits : CatalogLimits) (disk : Disk) : Resumed := do
  let manifest ← refused (loadManifest disk)
  let (rawBytes, storedBytes) ← refused (verifySources library disk manifest.sources.entries)
  if limits.maxDecodedBytes < rawBytes then refused (.error "archive_decoded_budget_exceeded")
  else do
    let _ ← refused (manifest.requests.mapM (verifyRequest manifest.sources))
    let start : CatalogClient := {
      disk, rawBytes, storedBytes
      manifest := { manifest with
        schemaVersion := 2
        requestPolicy := { manifest.requestPolicy with
          maximumArchiveBytes := some limits.maxArchiveBytes
          maximumDecodedBytes := some limits.maxDecodedBytes } } }
    let client ← manifest.sources.entries.foldlM (CatalogClient.migrate library limits) start
    if limits.maxArchiveBytes < client.storedBytes then
      client.attempt (.error "archive_byte_budget_exceeded")
    else .ok (client.updateSizes.save limits)

end EventMarket.Scripts
