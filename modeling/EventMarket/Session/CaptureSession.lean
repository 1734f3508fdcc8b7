import Mathlib.Data.Nat.Notation

/-!
# Capture sessions

A finished capture session is published by its manifest; what goes wrong is a session error.

## Main definitions

* `SessionManifest`: the fingerprints and the record count of a session.
* `SessionError`: an error with the field and the record it belongs to.
-/

namespace EventMarket.Session

structure ArtifactFingerprint where
  bytes : ℕ
  sha256 : String
  deriving DecidableEq, Repr

structure SessionManifest where
  metadataVersion : ℕ
  metadata : ArtifactFingerprint
  journal : ArtifactFingerprint
  records : ℕ
  deriving DecidableEq, Repr

inductive SessionErrorCode where
  | directoryExists
  | incompleteSession
  | invalidArtifact
  | ioError
  | inputTooLarge
  | invalidManifest
  | unsupportedVersion
  | fingerprintMismatch
  | invalidMetadata
  | metadataVersionMismatch
  | invalidJournal
  | recordCountMismatch
  | writerClosed
  deriving DecidableEq, Repr

structure SessionError where
  code : SessionErrorCode
  field : String
  recordIndex : ℕ
  deriving DecidableEq, Repr

/-- What finalizing a session returns. -/
inductive FinalizeSessionResult where
  | manifest (manifest : SessionManifest)
  | error (error : SessionError)
  deriving DecidableEq, Repr

end EventMarket.Session
