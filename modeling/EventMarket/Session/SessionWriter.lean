import EventMarket.Session.SessionFiles

/-!
# Writing and verifying a capture session

A session is created in a new directory, records are appended to its journal, and it is finalized
once: the artifacts are checked and the manifest is published. A directory is verified by reading
the manifest and checking the artifacts against it.

## Main definitions

* `SessionWriter`, `createSession`, `SessionWriter.append`, `SessionWriter.finalize`: writing.
* `verifySession`: verifying a directory.
-/

namespace EventMarket.Session

open Core Foundations Gateway Journal

/-- A session that is being written: the files apart from the journal, which the stream of the
writer holds until it is closed. -/
structure SessionWriter where
  files : Directory
  manifest : SessionManifest
  writer : RawJournalWriter
  closed : Bool

/-- A session in a new directory. The device takes as many bytes of the journal as it has room. -/
def createSession (sha256 : List UInt8 → String) (existing : Option Directory) (room : Option ℕ)
    (metadata : MetadataSnapshot) : Except SessionError SessionWriter :=
  match existing with
  | some _ => .error ⟨.directoryExists, "directory", 0⟩
  | none =>
    if maximumMetadataBytes < metadata.canonicalJson.length then
      .error ⟨.inputTooLarge, "metadata.json", 0⟩
    else do
      let files ← writeNewFile (fun _ => none) metadataFilename metadata.canonicalJson
      match openRawJournalWriter .all room (files journalFilename) with
      | .error error => .error ⟨.invalidJournal, error.code.text, error.recordIndex⟩
      | .ok writer =>
        .ok {
          files
          manifest := {
            metadataVersion := metadata.markets.metadataVersion
            metadata := fingerprintBytes sha256 metadata.canonicalJson
            journal := ⟨0, ""⟩
            records := 0 }
          writer
          closed := false }

def SessionWriter.append (session : SessionWriter) (record : RawMarketRecord) :
    SessionWriter × Option SessionError :=
  if session.closed then (session, some ⟨.writerClosed, "append", session.manifest.records⟩)
  else if record.metadataVersion.toNat ≠ session.manifest.metadataVersion then
    (session, some ⟨.metadataVersionMismatch, "record.metadata_version", session.manifest.records⟩)
  else
    let (writer, failure) := session.writer.append record
    match failure with
    | some error =>
      -- A failed write closes the session; a rejected record does not.
      ({ session with writer, closed := decide (error.code = .ioError) },
        some ⟨.invalidJournal, error.code.text, error.recordIndex⟩)
    | none =>
      ({ session with
          writer
          manifest := { session.manifest with records := writer.recordsWritten } }, none)

/-- The manifest of artifacts that pass the checks. -/
def checkArtifacts (sha256 : List UInt8 → String) (files : Directory) (manifest : SessionManifest) :
    Except SessionError SessionManifest := do
  let metadata ← readBounded files metadataFilename maximumMetadataBytes
  if fingerprintBytes sha256 metadata ≠ manifest.metadata then
    .error ⟨.fingerprintMismatch, "metadata.json", 0⟩
  else
    match validateJournal files manifest.metadataVersion manifest.records with
    | some error => .error error
    | none => do
      let journal ← fingerprintFile sha256 files journalFilename
      .ok { manifest with journal }

/-- The manifest is written under another name and renamed. -/
def publish (library : JsonLibrary) (files : Directory) (manifest : SessionManifest) :
    Directory × FinalizeSessionResult :=
  match writeNewFile files pendingManifestFilename (serializeManifest library manifest) with
  | .error error => (files, .error error)
  | .ok files =>
    if (files manifestFilename).isSome then
      (files, .error ⟨.invalidArtifact, "manifest.json", 0⟩)
    else
      (Function.update (Function.update files manifestFilename (files pendingManifestFilename))
        pendingManifestFilename none, .manifest manifest)

/-- One attempt: the journal is closed, the artifacts are checked and the manifest is published. -/
def SessionWriter.finalize (library : JsonLibrary) (sha256 : List UInt8 → String)
    (session : SessionWriter) : SessionWriter × FinalizeSessionResult :=
  if session.closed then (session, .error ⟨.writerClosed, "finalize", session.manifest.records⟩)
  else
    let session := { session with closed := true }
    if !session.writer.stream.good then
      (session, .error ⟨.ioError, "market.journal", session.writer.recordsWritten⟩)
    else
      let files := Function.update session.files journalFilename (some session.writer.stream.bytes)
      match checkArtifacts sha256 files session.manifest with
      | .error error => ({ session with files }, .error error)
      | .ok manifest =>
        let (files, result) := publish library files manifest
        ({ session with files, manifest }, result)

structure VerifiedSession where
  manifest : SessionManifest
  metadata : MetadataSnapshot

def verifySession (library : JsonLibrary) (sha256 : List UInt8 → String)
    (directory : Option Directory) : Except SessionError VerifiedSession :=
  match directory with
  | none => .error ⟨.invalidArtifact, "directory", 0⟩
  | some files =>
    if (files manifestFilename).isNone then .error ⟨.incompleteSession, "manifest.json", 0⟩
    else do
      let bytes ← readBounded files manifestFilename maximumManifestBytes
      let manifest ← parseManifest library bytes
      let metadata ← readBounded files metadataFilename maximumMetadataBytes
      if fingerprintBytes sha256 metadata ≠ manifest.metadata then
        .error ⟨.fingerprintMismatch, "metadata.json", 0⟩
      else
        match parseMetadataSnapshot library metadata with
        | .error error => .error ⟨.invalidMetadata, error.code.text, 0⟩
        | .ok snapshot =>
          if snapshot.markets.metadataVersion ≠ manifest.metadataVersion then
            .error ⟨.metadataVersionMismatch, "metadata.json", 0⟩
          else do
            let journal ← fingerprintFile sha256 files journalFilename
            if journal ≠ manifest.journal then .error ⟨.fingerprintMismatch, "market.journal", 0⟩
            else
              match validateJournal files manifest.metadataVersion manifest.records with
              | some error => .error error
              | none => .ok ⟨manifest, snapshot⟩

/-- The session after a list of records, accepted or not. -/
def SessionWriter.appendAll (session : SessionWriter) (records : List RawMarketRecord) :
    SessionWriter :=
  run (fun session record => (session.append record).1) session records

end EventMarket.Session
