import EventMarket.Gateway.MetadataSnapshot
import EventMarket.Journal.RawJournal
import EventMarket.Session.CaptureSession

/-!
# The files of a capture session

A session is a directory with the metadata, the journal and, once it is complete, the manifest
with the fingerprints of both. The directory is a map from names to bytes, and SHA-256 is a
parameter.

## Main definitions

* `Directory`, `readBounded`, `fingerprintFile`, `writeNewFile`: the files.
* `parseManifest`, `serializeManifest`: the text of a manifest.
* `validateJournal`: the journal holds so many records of a metadata version.
-/

namespace EventMarket.Session

open Core Foundations Gateway Journal

/-! ### Names and limits -/

def manifestFilename : String := "manifest.json"

def metadataFilename : String := "metadata.json"

def journalFilename : String := "market.journal"

def pendingManifestFilename : String := "manifest.pending"

def maximumManifestBytes : ℕ := 4096

/-- The regular files of a directory. -/
abbrev Directory : Type := String → Option (List UInt8)

/-! ### Files -/

/-- The bytes of a file that is not too long. -/
def readBounded (files : Directory) (name : String) (maximum : ℕ) :
    Except SessionError (List UInt8) :=
  match files name with
  | none => .error ⟨.invalidArtifact, name, 0⟩
  | some bytes =>
    if maximum < bytes.length then .error ⟨.inputTooLarge, name, 0⟩ else .ok bytes

def fingerprintBytes (sha256 : List UInt8 → String) (bytes : List UInt8) : ArtifactFingerprint where
  bytes := bytes.length
  sha256 := sha256 bytes

def fingerprintFile (sha256 : List UInt8 → String) (files : Directory) (name : String) :
    Except SessionError ArtifactFingerprint :=
  match files name with
  | none => .error ⟨.invalidArtifact, name, 0⟩
  | some bytes =>
    if uint64Max < bytes.length then .error ⟨.inputTooLarge, name, 0⟩
    else .ok (fingerprintBytes sha256 bytes)

/-- A file is written where none is. -/
def writeNewFile (files : Directory) (name : String) (bytes : List UInt8) :
    Except SessionError Directory :=
  if (files name).isSome then .error ⟨.invalidArtifact, name, 0⟩
  else .ok (Function.update files name (some bytes))

/-! ### The manifest -/

def rejectManifest {α : Type} (field : String) : Except SessionError α :=
  .error ⟨.invalidManifest, field, 0⟩

/-- The value is an object with exactly these fields; the error names the first that is missing. -/
def manifestShape (value : Json) (fields : List String) : Except SessionError Unit :=
  match value with
  | .object entries =>
    if entries.length ≠ fields.length then rejectManifest "shape"
    else
      match fields.find? fun name => !value.contains name with
      | some name => rejectManifest name
      | none => .ok ()
  | _ => rejectManifest "shape"

def manifestInteger (value : Json) (key : String) : Except SessionError ℕ :=
  match value.field key with
  | .unsigned number => .ok number
  | _ => rejectManifest key

/-- A lower case hexadecimal digit. -/
def isHexDigit (character : Char) : Bool :=
  ('0' ≤ character && character ≤ '9') || ('a' ≤ character && character ≤ 'f')

/-- A digest in 64 lower case hexadecimal digits. -/
def ValidHash (hash : String) : Prop :=
  hash.utf8ByteSize = 64 ∧ hash.toList.all isHexDigit = true

instance (hash : String) : Decidable (ValidHash hash) := inferInstanceAs (Decidable (_ ∧ _))

def readArtifact (value : Json) : Except SessionError ArtifactFingerprint := do
  manifestShape value ["bytes", "sha256"]
  match value.field "sha256" with
  | .string hash =>
    if ValidHash hash then do
      let bytes ← manifestInteger value "bytes"
      .ok { bytes, sha256 := hash }
    else rejectManifest "sha256"
  | _ => rejectManifest "sha256"

/-- Whether a field has exactly this text. -/
def Json.isText (value : Json) (text : String) : Bool :=
  match value with
  | .string other => other == text
  | _ => false

/-- The journal has a header of 12 bytes and at least 61 bytes for each record. -/
def ManifestBounds (manifest : SessionManifest) : Prop :=
  manifest.metadataVersion ≠ 0 ∧ manifest.metadata.bytes ≠ 0 ∧
    manifest.metadata.bytes ≤ maximumMetadataBytes ∧ 12 ≤ manifest.journal.bytes ∧
    manifest.records ≤ (manifest.journal.bytes - 12) / 61

instance (manifest : SessionManifest) : Decidable (ManifestBounds manifest) :=
  inferInstanceAs (Decidable (_ ∧ _ ∧ _ ∧ _ ∧ _))

def readManifest (root : Json) : Except SessionError SessionManifest := do
  manifestShape root ["schema_version", "state", "venue", "journal_schema_version",
    "metadata_version", "metadata", "journal", "records"]
  let schema ← manifestInteger root "schema_version"
  let journalSchema ←
    if schema = 1 then manifestInteger root "journal_schema_version" else .ok 0
  if schema ≠ 1 ∨ journalSchema ≠ currentSchemaVersion.toNat then
    .error ⟨.unsupportedVersion, "schema_version", 0⟩
  else if !Json.isText (root.field "state") "complete" ∨
      !Json.isText (root.field "venue") "kalshi" then rejectManifest "state/venue"
  else do
    let metadataVersion ← manifestInteger root "metadata_version"
    let metadata ← readArtifact (root.field "metadata")
    let journal ← readArtifact (root.field "journal")
    let records ← manifestInteger root "records"
    let manifest : SessionManifest := { metadataVersion, metadata, journal, records }
    if ManifestBounds manifest then .ok manifest else rejectManifest "bounds"

def parseManifest (library : JsonLibrary) (bytes : List UInt8) :
    Except SessionError SessionManifest :=
  if maximumManifestBytes < bytes.length then .error ⟨.inputTooLarge, "manifest.json", 0⟩
  else do
    let root ← parseChecked library 3 ⟨.invalidManifest, "depth", 0⟩
      ⟨.invalidManifest, "duplicate_field", 0⟩ ⟨.invalidManifest, "json", 0⟩ bytes
    readManifest root

def artifactJson (artifact : ArtifactFingerprint) : Json :=
  .object [("bytes", .unsigned artifact.bytes), ("sha256", .string artifact.sha256)]

def manifestJson (manifest : SessionManifest) : Json :=
  .object [("journal", artifactJson manifest.journal),
    ("journal_schema_version", .unsigned currentSchemaVersion.toNat),
    ("metadata", artifactJson manifest.metadata),
    ("metadata_version", .unsigned manifest.metadataVersion),
    ("records", .unsigned manifest.records), ("schema_version", .unsigned 1),
    ("state", .string "complete"), ("venue", .string "kalshi")]

/-- The compact text of the manifest and a line break. -/
def serializeManifest (library : JsonLibrary) (manifest : SessionManifest) : List UInt8 :=
  library.dump (manifestJson manifest) ++ [10]

/-! ### The journal -/

/-- The records in their order: each has the metadata version, and there are as many as expected.
Reading is lazy in the source; a reader has no effect, so that all is read first here. -/
def checkRecords (version expectedRecords : ℕ) :
    ℕ → List RawMarketRecord → Stop → Option SessionError
  | recordsRead, [], .endOfJournal =>
    if recordsRead ≠ expectedRecords then some ⟨.recordCountMismatch, "records", recordsRead⟩
    else none
  | _, [], .error error => some ⟨.invalidJournal, error.code.text, error.recordIndex⟩
  | recordsRead, record :: records, stop =>
    if record.metadataVersion.toNat ≠ version then
      some ⟨.metadataVersionMismatch, "record.metadata_version", recordsRead⟩
    else if expectedRecords < recordsRead + 1 then
      some ⟨.recordCountMismatch, "records", expectedRecords⟩
    else checkRecords version expectedRecords (recordsRead + 1) records stop

def validateJournal (files : Directory) (version expectedRecords : ℕ) : Option SessionError :=
  match files journalFilename with
  | none => some ⟨.invalidArtifact, journalFilename, 0⟩
  | some bytes =>
    match openRawJournalReader .all (some bytes) with
    | .error error => some ⟨.invalidJournal, error.code.text, error.recordIndex⟩
    | .ok stream =>
      let (records, stop) := journalReader.readAll 0 stream
      checkRecords version expectedRecords 0 records stop

end EventMarket.Session
