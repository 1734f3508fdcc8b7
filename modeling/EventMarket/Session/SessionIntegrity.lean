import EventMarket.Gateway.MetadataCanonical
import EventMarket.Session.SessionWriter

/-!
# A finalized session is verified

The manifest that finalizing returns is read back from its text, the unchanged files are verified
with this manifest, and a directory whose journal has another number of records or whose artifacts
have another digest is refused.

## Main definitions

* `Producible`: the manifests that the writer can produce.
* `SessionWriter.Holds`: what a session that is being written holds.

## Main results

* `parseManifest_serializeManifest`: a manifest is read back.
* `finalize_verify`: finalizing and verifying a session.
-/

namespace EventMarket.Session

open Core Foundations Gateway Journal

/-! ### The text of a manifest -/

/-- What the writer can produce: the numbers fit 64 bits, the digests have 64 digits, and the
artifacts have the sizes that the parser asks for. -/
structure Producible (manifest : SessionManifest) : Prop where
  version_le : manifest.metadataVersion ≤ uint64Max
  journal_le : manifest.journal.bytes ≤ uint64Max
  metadata_hash : ValidHash manifest.metadata.sha256
  journal_hash : ValidHash manifest.journal.sha256
  bounds : ManifestBounds manifest

section Manifest

variable {library : JsonLibrary} {manifest : SessionManifest}

theorem Producible.records_le (h : Producible manifest) : manifest.records ≤ uint64Max := by
  have hrecords := h.bounds.2.2.2.2
  have hjournal := h.journal_le
  omega

theorem Producible.metadata_le (h : Producible manifest) : manifest.metadata.bytes ≤ uint64Max :=
  h.bounds.2.2.1.trans (by decide)

theorem artifactJson_plain {artifact : ArtifactFingerprint} (h : artifact.bytes ≤ uint64Max) :
    (artifactJson artifact).Plain 1 := by
  refine .object (by decide : ["bytes", "sha256"].Pairwise (· < ·)) fun field hfield => ?_
  simp only [List.mem_cons, List.not_mem_nil, or_false] at hfield
  rcases hfield with rfl | rfl
  · exact .unsigned h
  · exact .string _

theorem Producible.plain (h : Producible manifest) : (manifestJson manifest).Plain 2 := by
  refine .object (by decide : ["journal", "journal_schema_version", "metadata", "metadata_version",
    "records", "schema_version", "state", "venue"].Pairwise (· < ·)) fun field hfield => ?_
  simp only [List.mem_cons, List.not_mem_nil, or_false] at hfield
  rcases hfield with rfl | rfl | rfl | rfl | rfl | rfl | rfl | rfl
  · exact artifactJson_plain h.journal_le
  · exact .unsigned (by decide)
  · exact artifactJson_plain h.metadata_le
  · exact .unsigned h.version_le
  · exact .unsigned h.records_le
  · exact .unsigned (by decide)
  · exact .string _
  · exact .string _

theorem length_decimalText_le {value : ℕ} (h : value ≤ uint64Max) :
    (decimalText value).length ≤ 20 := by
  unfold decimalText
  split_ifs
  · decide
  · rw [List.length_map, List.length_reverse]
    exact (Nat.digits_length_le_iff (by decide) value).mpr
      (lt_of_le_of_lt h (by decide))

theorem length_stringText_le (text : String) :
    (stringText text).length ≤ 2 + 6 * text.utf8ByteSize := by
  have hbyte (byte : UInt8) : (escapeByte byte).length ≤ 6 := by
    unfold escapeByte
    cases shortEscapes.lookup byte with
    | some => simp
    | none => dsimp only; split_ifs <;> simp
  have hescaped (bytes : List UInt8) : (bytes.flatMap escapeByte).length ≤ 6 * bytes.length := by
    induction bytes with
    | nil => simp
    | cons byte bytes ih =>
      have := hbyte byte
      rw [List.flatMap_cons, List.length_append, List.length_cons]
      omega
  have htext := hescaped text.toByteArray.data.toList
  have hsize : text.toByteArray.data.toList.length = text.utf8ByteSize := by simp
  rw [stringText, List.length_cons, List.length_append, List.length_singleton]
  omega

theorem length_artifactJson_le {artifact : ArtifactFingerprint}
    (hbytes : artifact.bytes ≤ uint64Max)
    (hhash : ValidHash artifact.sha256) : (artifactJson artifact).text.length ≤ 450 := by
  have hnumber := length_decimalText_le hbytes
  have htext := length_stringText_le artifact.sha256
  have hdigits := hhash.1
  have hbytesName : (stringText "bytes").length = 7 := by decide
  have hhashName : (stringText "sha256").length = 8 := by decide
  rw [artifactJson, Json.length_text_object, if_neg (by simp)]
  simp only [List.map_cons, List.map_nil, List.sum_cons, List.sum_nil, Json.text, hbytesName,
    hhashName]
  omega

/-- The manifest is short enough to be read. -/
theorem Producible.length_le (h : Producible manifest) :
    (manifestJson manifest).text.length ≤ 2000 := by
  have hjournal := length_artifactJson_le h.journal_le h.journal_hash
  have hmetadata := length_artifactJson_le h.metadata_le h.metadata_hash
  have hversion := length_decimalText_le h.version_le
  have hrecords := length_decimalText_le h.records_le
  have hnames : (stringText "journal").length + (stringText "journal_schema_version").length +
      (stringText "metadata").length + (stringText "metadata_version").length +
      (stringText "records").length + (stringText "schema_version").length +
      (stringText "state").length + (stringText "venue").length +
      (stringText "complete").length + (stringText "kalshi").length ≤ 200 := by decide
  have hnumbers : (decimalText currentSchemaVersion.toNat).length + (decimalText 1).length ≤ 2 := by
    decide
  rw [manifestJson, Json.length_text_object, if_neg (by simp)]
  simp only [List.map_cons, List.map_nil, List.sum_cons, List.sum_nil]
  simp only [Json.text]
  omega

theorem readArtifact_artifactJson {artifact : ArtifactFingerprint}
    (hhash : ValidHash artifact.sha256) : readArtifact (artifactJson artifact) = .ok artifact := by
  have hshape : manifestShape (artifactJson artifact) ["bytes", "sha256"] = .ok () := rfl
  unfold readArtifact
  rw [hshape, bind_ok_eq, show (artifactJson artifact).field "sha256" = .string artifact.sha256
    from rfl]
  dsimp only
  rw [if_pos hhash]
  rfl

/-- **A manifest is read back**, at the numeric bounds too. -/
theorem parseManifest_serializeManifest (hlawful : library.Lawful)
    (hprints : library.PrintsCompact) (h : Producible manifest) :
    parseManifest library (serializeManifest library manifest) = .ok manifest := by
  have hlength := h.length_le
  have hshort : (serializeManifest library manifest).length ≤ maximumManifestBytes := by
    rw [serializeManifest, hprints 2 _ h.plain, List.length_append, List.length_singleton,
      maximumManifestBytes]
    omega
  have hshape : manifestShape (manifestJson manifest) ["schema_version", "state", "venue",
      "journal_schema_version", "metadata_version", "metadata", "journal", "records"] =
        .ok () := rfl
  have hinteger (key : String) (number : ℕ)
      (hfield : (manifestJson manifest).field key = .unsigned number) :
      manifestInteger (manifestJson manifest) key = .ok number := by
    rw [manifestInteger, hfield]
  have hkind : ¬((!Json.isText ((manifestJson manifest).field "state") "complete") = true ∨
      (!Json.isText ((manifestJson manifest).field "venue") "kalshi") = true) := by
    rw [show (manifestJson manifest).field "state" = .string "complete" from rfl,
      show (manifestJson manifest).field "venue" = .string "kalshi" from rfl]
    decide
  unfold parseManifest
  rw [if_neg (not_lt.mpr hshort), serializeManifest, hlawful.parseChecked_line h.plain (by decide),
    bind_ok_eq]
  unfold readManifest
  rw [hshape, bind_ok_eq, hinteger "schema_version" 1 rfl, bind_ok_eq, if_pos rfl,
    hinteger "journal_schema_version" currentSchemaVersion.toNat rfl, bind_ok_eq]
  dsimp only
  rw [if_neg (by simp), if_neg hkind, hinteger "metadata_version" manifest.metadataVersion rfl,
    bind_ok_eq,
    show (manifestJson manifest).field "metadata" = artifactJson manifest.metadata from rfl,
    readArtifact_artifactJson h.metadata_hash, bind_ok_eq,
    show (manifestJson manifest).field "journal" = artifactJson manifest.journal from rfl,
    readArtifact_artifactJson h.journal_hash, bind_ok_eq,
    hinteger "records" manifest.records rfl, bind_ok_eq]
  exact if_pos h.bounds

end Manifest

/-! ### The journal of a session -/

theorem checkRecords_eq_none {version expectedRecords : ℕ} {recordsRead : ℕ}
    {records : List RawMarketRecord} {stop : Stop} :
    checkRecords version expectedRecords recordsRead records stop = none ↔
      stop = .endOfJournal ∧ recordsRead + records.length = expectedRecords ∧
        ∀ record ∈ records, record.metadataVersion.toNat = version := by
  induction records generalizing recordsRead with
  | nil =>
    cases stop with
    | endOfJournal =>
      unfold checkRecords
      by_cases hcount : recordsRead = expectedRecords <;> simp [hcount]
    | error error => simp [checkRecords]
  | cons record records ih =>
    unfold checkRecords
    by_cases hversion : record.metadataVersion.toNat = version
    · rw [if_neg (not_not.mpr hversion)]
      by_cases hmany : expectedRecords < recordsRead + 1
      · rw [if_pos hmany]
        refine iff_of_false (by simp) fun h => ?_
        have := h.2.1
        rw [List.length_cons] at this
        omega
      · rw [if_neg hmany, ih, List.forall_mem_cons, List.length_cons]
        simp only [hversion, true_and, Nat.add_assoc, Nat.add_comm 1]
    · rw [if_pos hversion]
      refine iff_of_false (by simp) fun h => ?_
      exact hversion (h.2.2 record List.mem_cons_self)

/-- The stream behind a valid header. -/
theorem length_of_validateHeader {bytes stream : List UInt8}
    (h : validateHeader bytes = .ok stream) : bytes.length = 12 + stream.length := by
  unfold validateHeader at h
  split at h
  · cases h
  rename_i magic afterMagic hmagic
  split_ifs at h
  split at h
  · cases h
  rename_i version afterVersion hversion
  split_ifs at h
  obtain rfl := Except.ok.inj h
  have := length_of_takeBytes hmagic
  have := length_of_takeUnsigned hversion
  have : fileMagic.length = 8 := rfl
  omega

/-- A journal with so many records has the size for them. -/
theorem size_of_validateJournal {files : Directory} {version records : ℕ}
    (h : validateJournal files version records = none) :
    ∃ bytes, files journalFilename = some bytes ∧ 12 ≤ bytes.length ∧
      records ≤ (bytes.length - 12) / 61 := by
  unfold validateJournal at h
  cases hfile : files journalFilename with
  | none =>
    rw [hfile] at h
    cases h
  | some bytes =>
    rw [hfile] at h
    dsimp only [openRawJournalReader, Access.all] at h
    rw [if_pos rfl] at h
    cases hheader : validateHeader bytes with
    | error error =>
      rw [hheader] at h
      cases h
    | ok stream =>
      rw [hheader] at h
      dsimp only at h
      have hlength := length_of_validateHeader hheader
      have hrecords := length_readAll 0 stream
      obtain ⟨-, hcount, -⟩ := checkRecords_eq_none.mp h
      exact ⟨bytes, rfl, by omega, by omega⟩

/-- The journal of valid records of the version is valid, and of no other number of records. -/
theorem validateJournal_journalFile {files : Directory} {records : List RawMarketRecord}
    {version expectedRecords : ℕ} (hvalid : ∀ record ∈ records, record.Valid)
    (hfile : files journalFilename = some (journalFile records)) :
    validateJournal files version expectedRecords = none ↔ records.length = expectedRecords ∧
      ∀ record ∈ records, record.metadataVersion.toNat = version := by
  unfold validateJournal
  rw [hfile]
  dsimp only [openRawJournalReader, Access.all]
  rw [if_pos rfl, journalFile, validateHeader_append]
  dsimp only
  rw [framing.readAll_frames hvalid, checkRecords_eq_none]
  simp

/-! ### A session that is being written -/

/-- The records that a session accepts. -/
def accepted (version : ℕ) (records : List RawMarketRecord) : List RawMarketRecord :=
  records.filter fun record => valid record && record.metadataVersion.toNat == version

/-- **What a session holds.** The canonical metadata is in its file with its fingerprint, and while
the session is open the journal holds the accepted records. -/
structure SessionWriter.Holds (sha256 : List UInt8 → String) (metadata : MetadataSnapshot)
    (records : List RawMarketRecord) (session : SessionWriter) : Prop where
  files : session.files =
    Function.update (fun _ => none) metadataFilename (some metadata.canonicalJson)
  version : session.manifest.metadataVersion = metadata.markets.metadataVersion
  fingerprint : session.manifest.metadata = fingerprintBytes sha256 metadata.canonicalJson
  good : session.closed = false → session.writer.stream.good = true
  bytes : session.closed = false → session.writer.stream.bytes =
    journalFile (accepted metadata.markets.metadataVersion records)
  written : session.closed = false → session.writer.recordsWritten =
    (accepted metadata.markets.metadataVersion records).length
  count : session.closed = false → session.manifest.records =
    (accepted metadata.markets.metadataVersion records).length

theorem accepted_append (version : ℕ) (records : List RawMarketRecord) (record : RawMarketRecord) :
    accepted version (records ++ [record]) = accepted version records ++
      if valid record && record.metadataVersion.toNat == version then [record] else [] := by
  rw [accepted, List.filter_append, ← accepted, List.filter_singleton, Bool.cond_eq_ite]

theorem accepted_valid {version : ℕ} {records : List RawMarketRecord} :
    ∀ record ∈ accepted version records, record.Valid ∧ record.metadataVersion.toNat = version := by
  intro record hmem
  have h := (List.mem_filter.mp hmem).2
  rw [Bool.and_eq_true, beq_iff_eq] at h
  exact ⟨valid_iff.mp h.1, h.2⟩

section Holds

variable {sha256 : List UInt8 → String} {metadata : MetadataSnapshot}
  {records : List RawMarketRecord} {session : SessionWriter}

/-- A new journal that could be opened has its header. -/
theorem openRawJournalWriter_room {room : Option ℕ} {writer : RawJournalWriter}
    (h : openRawJournalWriter .all room none = .ok writer) :
    writer.stream.good = true ∧ writer.stream.bytes = fileHeader ∧ writer.recordsWritten = 0 := by
  unfold openRawJournalWriter openStream at h
  simp only [Access.all, if_true] at h
  split_ifs at h with hgood
  obtain rfl := Except.ok.inj h
  obtain ⟨hmagic, hversion⟩ := Stream.write_of_good hgood
  obtain ⟨-, hbytes⟩ := Stream.write_of_good hmagic
  exact ⟨hgood, by rw [hversion, hbytes]; rfl, rfl⟩

theorem createSession_holds {existing : Option Directory} {room : Option ℕ}
    (h : createSession sha256 existing room metadata = .ok session) :
    session.Holds sha256 metadata [] ∧ metadata.canonicalJson.length ≤ maximumMetadataBytes := by
  unfold createSession at h
  cases existing with
  | some files => cases h
  | none =>
    dsimp only at h
    split_ifs at h with hlong
    obtain ⟨files, hfiles, h1⟩ := bind_eq_ok h
    obtain rfl := Except.ok.inj hfiles
    cases hopen : openRawJournalWriter .all room (Function.update (fun _ => none) metadataFilename
        (some metadata.canonicalJson) journalFilename) with
    | error error =>
      simp only [hopen] at h1
      cases h1
    | ok writer =>
      simp only [hopen] at h1
      obtain rfl := Except.ok.inj h1
      obtain ⟨hgood, hbytes, hwritten⟩ := openRawJournalWriter_room hopen
      refine ⟨⟨rfl, rfl, rfl, fun _ => hgood, fun _ => ?_, fun _ => hwritten, fun _ => rfl⟩,
        not_lt.mp hlong⟩
      rw [hbytes]
      rfl

/-- **One record.** A session holds the accepted records after every append. -/
theorem SessionWriter.Holds.append (h : session.Holds sha256 metadata records)
    (record : RawMarketRecord) :
    (session.append record).1.Holds sha256 metadata (records ++ [record]) := by
  unfold SessionWriter.append
  by_cases hclosed : session.closed = true
  · rw [if_pos hclosed]
    have hopen {P : Prop} (hfalse : session.closed = false) : P := by
      rw [hclosed] at hfalse
      cases hfalse
    exact { h with good := hopen, bytes := hopen, written := hopen, count := hopen }
  rw [if_neg hclosed]
  have hopen : session.closed = false := by simpa using hclosed
  by_cases hversion : record.metadataVersion.toNat = session.manifest.metadataVersion
  · rw [if_neg (not_not.mpr hversion)]
    rw [h.version] at hversion
    cases hresult : (session.writer.append record).2 with
    | some error =>
      simp only [hresult]
      rcases append_eq_some hresult with hio | ⟨hinvalid, hsame⟩
      · have hnot {P : Prop} (hfalse : decide (error.code = .ioError) = false) : P :=
          absurd hio (of_decide_eq_false hfalse)
        exact { h with good := hnot, bytes := hnot, written := hnot, count := hnot }
      · have hskipped : accepted metadata.markets.metadataVersion (records ++ [record]) =
            accepted metadata.markets.metadataVersion records := by
          have hfalse : valid record = false := by
            simpa using fun htrue => hinvalid (valid_iff.mp htrue)
          rw [accepted_append, hfalse]
          simp
        rw [hsame]
        exact { h with
          good := fun _ => h.good hopen
          bytes := fun _ => hskipped ▸ h.bytes hopen
          written := fun _ => hskipped ▸ h.written hopen
          count := fun _ => hskipped ▸ h.count hopen }
    | none =>
      simp only [hresult]
      obtain ⟨hvalid, hgood, hbytes, hwritten⟩ := append_eq_none hresult
      have hadded : accepted metadata.markets.metadataVersion (records ++ [record]) =
          accepted metadata.markets.metadataVersion records ++ [record] := by
        rw [accepted_append, if_pos (by simp [valid_iff.mpr hvalid, hversion])]
      refine ⟨h.files, h.version, h.fingerprint, fun _ => hgood, fun _ => ?_, fun _ => ?_,
        fun _ => ?_⟩
      · rw [hbytes, h.bytes hopen, hadded, journalFile, journalFile, frames_append,
          List.append_assoc, frames_cons, frames_nil, List.append_nil]
      · rw [hwritten, h.written hopen, hadded, List.length_append, List.length_singleton]
      · show (session.writer.append record).1.recordsWritten = _
        rw [hwritten, h.written hopen, hadded, List.length_append, List.length_singleton]
  · rw [if_pos hversion]
    rw [h.version] at hversion
    have hskipped : accepted metadata.markets.metadataVersion (records ++ [record]) =
        accepted metadata.markets.metadataVersion records := by
      rw [accepted_append, if_neg (by simp [hversion]), List.append_nil]
    exact { h with
      bytes := hskipped ▸ h.bytes
      written := hskipped ▸ h.written
      count := hskipped ▸ h.count }

/-- **All records.** -/
theorem SessionWriter.Holds.appendAll (h : session.Holds sha256 metadata [])
    (records : List RawMarketRecord) :
    (session.appendAll records).Holds sha256 metadata records := by
  induction records using List.reverseRecOn with
  | nil => exact h
  | append_singleton records record ih =>
    rw [SessionWriter.appendAll, run_append]
    exact ih.append record

end Holds

/-! ### Verifying a directory -/

section Verify

variable {library : JsonLibrary} {sha256 : List UInt8 → String} {files : Directory}

theorem readBounded_eq_ok_iff {name : String} {maximum : ℕ} {bytes : List UInt8} :
    readBounded files name maximum = .ok bytes ↔
      files name = some bytes ∧ bytes.length ≤ maximum := by
  unfold readBounded
  cases files name with
  | none => simp
  | some other =>
    dsimp only
    by_cases hlong : maximum < other.length
    · rw [if_pos hlong]
      refine iff_of_false (by simp) ?_
      rintro ⟨heq, hle⟩
      obtain rfl := Option.some.inj heq
      omega
    · rw [if_neg hlong, Except.ok.injEq, Option.some.injEq]
      constructor
      · rintro rfl
        exact ⟨rfl, not_lt.mp hlong⟩
      · exact fun h => h.1

theorem fingerprintFile_eq_ok_iff {name : String} {artifact : ArtifactFingerprint} :
    fingerprintFile sha256 files name = .ok artifact ↔ ∃ bytes, files name = some bytes ∧
      bytes.length ≤ uint64Max ∧ artifact = fingerprintBytes sha256 bytes := by
  unfold fingerprintFile
  cases files name with
  | none => simp
  | some other =>
    dsimp only
    by_cases hlong : uint64Max < other.length
    · rw [if_pos hlong]
      refine iff_of_false (by simp) ?_
      rintro ⟨bytes, heq, hle, -⟩
      obtain rfl := Option.some.inj heq
      omega
    · rw [if_neg hlong, Except.ok.injEq]
      constructor
      · rintro rfl
        exact ⟨other, rfl, not_lt.mp hlong, rfl⟩
      · rintro ⟨bytes, heq, -, rfl⟩
        rw [Option.some.inj heq]

/-- **What a verified directory holds.** -/
structure Verifies (library : JsonLibrary) (sha256 : List UInt8 → String) (files : Directory)
    (verified : VerifiedSession) (text metadata journal : List UInt8) : Prop where
  manifest_file : files manifestFilename = some text
  manifest_short : text.length ≤ maximumManifestBytes
  manifest : parseManifest library text = .ok verified.manifest
  metadata_file : files metadataFilename = some metadata
  metadata_short : metadata.length ≤ maximumMetadataBytes
  metadata_fingerprint : fingerprintBytes sha256 metadata = verified.manifest.metadata
  metadata : parseMetadataSnapshot library metadata = .ok verified.metadata
  version : verified.metadata.markets.metadataVersion = verified.manifest.metadataVersion
  journal_file : files journalFilename = some journal
  journal_short : journal.length ≤ uint64Max
  journal_fingerprint : fingerprintBytes sha256 journal = verified.manifest.journal
  journal : validateJournal files verified.manifest.metadataVersion verified.manifest.records = none

theorem verifySession_eq_ok_iff {verified : VerifiedSession} :
    verifySession library sha256 (some files) = .ok verified ↔
      ∃ text metadata journal, Verifies library sha256 files verified text metadata journal := by
  constructor
  · intro h
    unfold verifySession at h
    dsimp only at h
    split_ifs at h with hnone
    obtain ⟨text, htext, h1⟩ := bind_eq_ok h
    obtain ⟨manifest, hmanifest, h2⟩ := bind_eq_ok h1
    obtain ⟨metadata, hmetadata, h3⟩ := bind_eq_ok h2
    clear h h1 h2
    split_ifs at h3 with hfingerprint
    cases hparse : parseMetadataSnapshot library metadata with
    | error error =>
      rw [hparse] at h3
      cases h3
    | ok snapshot =>
      rw [hparse] at h3
      dsimp only at h3
      split_ifs at h3 with hversion
      obtain ⟨artifact, hartifact, h4⟩ := bind_eq_ok h3
      clear h3
      split_ifs at h4 with hjournal
      cases hvalidate : validateJournal files manifest.metadataVersion manifest.records with
      | some error =>
        rw [hvalidate] at h4
        cases h4
      | none =>
        rw [hvalidate] at h4
        obtain rfl := Except.ok.inj h4
        obtain ⟨htextFile, htextShort⟩ := readBounded_eq_ok_iff.mp htext
        obtain ⟨hmetadataFile, hmetadataShort⟩ := readBounded_eq_ok_iff.mp hmetadata
        obtain ⟨journal, hjournalFile, hjournalShort, rfl⟩ := fingerprintFile_eq_ok_iff.mp hartifact
        exact ⟨text, metadata, journal, htextFile, htextShort, hmanifest, hmetadataFile,
          hmetadataShort, not_not.mp hfingerprint, hparse, not_not.mp hversion, hjournalFile,
          hjournalShort, not_not.mp hjournal, hvalidate⟩
  · rintro ⟨text, metadata, journal, h⟩
    unfold verifySession
    dsimp only
    rw [if_neg (by rw [h.manifest_file]; exact Bool.false_ne_true),
      readBounded_eq_ok_iff.mpr ⟨h.manifest_file, h.manifest_short⟩, bind_ok_eq, h.manifest,
      bind_ok_eq, readBounded_eq_ok_iff.mpr ⟨h.metadata_file, h.metadata_short⟩, bind_ok_eq,
      if_neg (not_not.mpr h.metadata_fingerprint), h.metadata]
    dsimp only
    rw [if_neg (not_not.mpr h.version),
      fingerprintFile_eq_ok_iff.mpr ⟨journal, h.journal_file, h.journal_short, rfl⟩, bind_ok_eq,
      if_neg (not_not.mpr h.journal_fingerprint), h.journal]

end Verify

/-! ### Finalizing -/

section Finalize

variable {library : JsonLibrary} {sha256 : List UInt8 → String} {files : Directory}
  {manifest : SessionManifest}

/-- Only the file of the journal is read. -/
theorem validateJournal_congr {other : Directory} {version records : ℕ}
    (h : files journalFilename = other journalFilename) :
    validateJournal files version records = validateJournal other version records := by
  unfold validateJournal
  rw [h]

theorem checkArtifacts_eq_ok_iff {result : SessionManifest} :
    checkArtifacts sha256 files manifest = .ok result ↔ ∃ metadata journal,
      (files metadataFilename = some metadata ∧ metadata.length ≤ maximumMetadataBytes) ∧
      fingerprintBytes sha256 metadata = manifest.metadata ∧
      validateJournal files manifest.metadataVersion manifest.records = none ∧
      (files journalFilename = some journal ∧ journal.length ≤ uint64Max) ∧
      result = { manifest with journal := fingerprintBytes sha256 journal } := by
  constructor
  · intro h
    unfold checkArtifacts at h
    obtain ⟨metadata, hmetadata, h1⟩ := bind_eq_ok h
    split_ifs at h1 with hfingerprint
    cases hvalidate : validateJournal files manifest.metadataVersion manifest.records with
    | some error =>
      rw [hvalidate] at h1
      cases h1
    | none =>
      rw [hvalidate] at h1
      obtain ⟨artifact, hartifact, h2⟩ := bind_eq_ok h1
      obtain ⟨journal, hfile, hshort, rfl⟩ := fingerprintFile_eq_ok_iff.mp hartifact
      exact ⟨metadata, journal, readBounded_eq_ok_iff.mp hmetadata, not_not.mp hfingerprint, rfl,
        ⟨hfile, hshort⟩, (Except.ok.inj h2).symm⟩
  · rintro ⟨metadata, journal, hmetadata, hfingerprint, hvalidate, ⟨hfile, hshort⟩, rfl⟩
    unfold checkArtifacts
    rw [readBounded_eq_ok_iff.mpr hmetadata, bind_ok_eq, if_neg (not_not.mpr hfingerprint),
      hvalidate]
    dsimp only
    rw [fingerprintFile_eq_ok_iff.mpr ⟨journal, hfile, hshort, rfl⟩, bind_ok_eq]

/-- Publishing adds the manifest to the files. -/
theorem publish_eq_manifest {final : Directory} {result : SessionManifest}
    (h : publish library files manifest = (final, .manifest result)) :
    result = manifest ∧ final manifestFilename = some (serializeManifest library manifest) ∧
      final metadataFilename = files metadataFilename ∧
      final journalFilename = files journalFilename := by
  unfold publish writeNewFile at h
  by_cases hpending : (files pendingManifestFilename).isSome = true
  · rw [if_pos hpending] at h
    cases h
  rw [if_neg hpending] at h
  dsimp only at h
  split_ifs at h with hfinal
  · cases h
  obtain ⟨rfl, hresult⟩ := Prod.mk.inj h
  exact ⟨(FinalizeSessionResult.manifest.inj hresult).symm, rfl, rfl, rfl⟩

/-- **What was finalized.** -/
theorem finalize_eq_manifest {session final : SessionWriter}
    (h : session.finalize library sha256 = (final, .manifest manifest)) :
    session.closed = false ∧ ∃ metadata,
      (session.files metadataFilename = some metadata ∧ metadata.length ≤ maximumMetadataBytes) ∧
      fingerprintBytes sha256 metadata = session.manifest.metadata ∧
      validateJournal final.files session.manifest.metadataVersion session.manifest.records = none ∧
      session.writer.stream.bytes.length ≤ uint64Max ∧
      manifest = { session.manifest with
        journal := fingerprintBytes sha256 session.writer.stream.bytes } ∧
      final.files manifestFilename = some (serializeManifest library manifest) ∧
      final.files metadataFilename = some metadata ∧
      final.files journalFilename = some session.writer.stream.bytes := by
  unfold SessionWriter.finalize at h
  by_cases hclosed : session.closed = true
  · rw [if_pos hclosed] at h
    cases h
  rw [if_neg hclosed] at h
  dsimp only at h
  by_cases hgood : (!session.writer.stream.good) = true
  · rw [if_pos hgood] at h
    cases h
  rw [if_neg hgood] at h
  generalize hfiles : Function.update session.files journalFilename
    (some session.writer.stream.bytes) = files at h
  have hjournal : files journalFilename = some session.writer.stream.bytes := by
    rw [← hfiles]
    exact Function.update_self ..
  have hsame : files metadataFilename = session.files metadataFilename := by
    rw [← hfiles]
    exact Function.update_of_ne (by decide) ..
  cases hcheck : checkArtifacts sha256 files session.manifest with
  | error error =>
    rw [hcheck] at h
    cases h
  | ok result =>
    rw [hcheck] at h
    obtain ⟨rfl, hpublish⟩ := Prod.mk.inj h
    obtain ⟨metadata, journal, hmetadata, hfingerprint, hvalidate, ⟨hfile, hshort⟩, rfl⟩ :=
      checkArtifacts_eq_ok_iff.mp hcheck
    obtain rfl := Option.some.inj (hfile.symm.trans hjournal)
    obtain ⟨rfl, hmanifest, hmetadataFile, hjournalFile⟩ :=
      publish_eq_manifest (Prod.ext rfl hpublish)
    exact ⟨by simpa using hclosed, metadata, hsame ▸ hmetadata, hfingerprint,
      (validateJournal_congr hjournalFile).trans hvalidate, hshort, rfl, hmanifest,
      hmetadataFile.trans hmetadata.1, hjournalFile.trans hjournal⟩

end Finalize

/-! ### Finalizing and verifying -/

section FinalizeVerify

variable {library : JsonLibrary} {sha256 : List UInt8 → String}

/-- A manifest that was published is one that the writer can produce. -/
theorem producible_of_finalize (hlawful : library.Lawful) (hprints : library.PrintsCompact)
    (hsha256 : ∀ bytes, ValidHash (sha256 bytes)) {input : List UInt8}
    {metadata : MetadataSnapshot} {records : List RawMarketRecord} {session final : SessionWriter}
    {manifest : SessionManifest} (hparse : parseMetadataSnapshot library input = .ok metadata)
    (hholds : session.Holds sha256 metadata records)
    (hfinalize : session.finalize library sha256 = (final, .manifest manifest)) :
    Producible manifest := by
  obtain ⟨-, bytes, hmetadata, hfingerprint, hvalidate, hjournalShort, rfl, -, -, hjournalFile⟩ :=
    finalize_eq_manifest hfinalize
  obtain ⟨document, -, hadmissible, rfl, -⟩ := parseMetadataSnapshot_eq_ok hlawful hparse
  obtain rfl : bytes = library.dump document.sorted.json := by
    have hfile := hmetadata.1
    rw [hholds.files, Function.update_self] at hfile
    exact (Option.some.inj hfile).symm
  have hsorted := hadmissible.of_permuted document.sorted_permuted
  obtain ⟨journal, hjournal, hheader, hrecords⟩ := size_of_validateJournal hvalidate
  obtain rfl := Option.some.inj (hjournal.symm.trans hjournalFile)
  have hversion : session.manifest.metadataVersion = document.metadataVersion := hholds.version
  have hpos : (library.dump document.sorted.json).length ≠ 0 := by
    rw [hprints 4 _ hsorted.plain, MetadataDocument.json, Json.length_text_object,
      if_neg (by simp)]
    omega
  refine ⟨hversion ▸ hadmissible.version_le, hjournalShort, ?_, hsha256 _,
    hversion ▸ hadmissible.version_pos.ne', ?_, ?_, hheader, hrecords⟩
  · exact hfingerprint ▸ hsha256 _
  · exact hfingerprint ▸ hpos
  · exact hfingerprint ▸ hmetadata.2

/-- **Finalizing, then verifying.** For every metadata and every list of records: when finalizing
returns a manifest, the unchanged files are verified with this manifest and the same metadata, and
the manifest counts the accepted records. With this manifest in place, a journal of another number
of records, and metadata or a journal with another digest, are refused. Every manifest that the
writer can produce is read back from its text. -/
theorem finalize_verify (hlawful : library.Lawful) (hprints : library.PrintsCompact)
    (hsha256 : ∀ bytes, ValidHash (sha256 bytes)) :
    (∀ input metadata existing room session, parseMetadataSnapshot library input = .ok metadata →
      createSession sha256 existing room metadata = .ok session →
      ∀ records final manifest,
        (session.appendAll records).finalize library sha256 = (final, .manifest manifest) →
        Producible manifest ∧
        final.files journalFilename =
          some (journalFile (accepted metadata.markets.metadataVersion records)) ∧
        manifest.records = (accepted metadata.markets.metadataVersion records).length ∧
        (∃ verified, verifySession library sha256 (some final.files) = .ok verified ∧
          verified.manifest = manifest ∧ verified.metadata.SameContent metadata) ∧
        ∀ changed : Directory, changed manifestFilename = final.files manifestFilename →
          ((∃ others, changed journalFilename = some (journalFile others) ∧
              (∀ record ∈ others, record.Valid) ∧
              others.length ≠ (accepted metadata.markets.metadataVersion records).length) ∨
            (∃ name, (name = metadataFilename ∨ name = journalFilename) ∧
              ∃ old new, final.files name = some old ∧ changed name = some new ∧
                sha256 new ≠ sha256 old)) →
          ∃ error, verifySession library sha256 (some changed) = .error error) ∧
    ∀ manifest, Producible manifest →
      parseManifest library (serializeManifest library manifest) = .ok manifest := by
  refine ⟨?_, fun manifest hmanifest => parseManifest_serializeManifest hlawful hprints hmanifest⟩
  intro input metadata existing room session hparse hcreate records final manifest hfinalize
  obtain ⟨hstart, -⟩ := createSession_holds hcreate
  have hholds := hstart.appendAll records
  have hproducible := producible_of_finalize hlawful hprints hsha256 hparse hholds hfinalize
  obtain ⟨hopen, bytes, hmetadata, hfingerprint, hvalidate, hjournalShort, hmanifest, htextFile,
    hmetadataFile, hjournalFile⟩ := finalize_eq_manifest hfinalize
  obtain rfl : bytes = metadata.canonicalJson := by
    have hfile := hmetadata.1
    rw [hholds.files, Function.update_self] at hfile
    exact (Option.some.inj hfile).symm
  have hreadBack := parseManifest_serializeManifest hlawful hprints hproducible
  have hcount : manifest.records = (accepted metadata.markets.metadataVersion records).length := by
    rw [hmanifest]
    exact hholds.count hopen
  refine ⟨hproducible, hjournalFile.trans (congrArg some (hholds.bytes hopen)), hcount, ?_, ?_⟩
  · obtain ⟨reloaded, hreloaded, hsame⟩ := parseMetadataSnapshot_reload hlawful hparse
    have hlength := hproducible.length_le
    refine ⟨⟨manifest, reloaded⟩, verifySession_eq_ok_iff.mpr ⟨serializeManifest library manifest,
      metadata.canonicalJson, (session.appendAll records).writer.stream.bytes, htextFile, ?_,
      hreadBack, hmetadataFile, hmetadata.2, ?_, hreloaded, ?_, hjournalFile, hjournalShort, ?_,
      ?_⟩, rfl, hsame⟩
    · rw [serializeManifest, hprints 2 _ hproducible.plain, List.length_append,
        List.length_singleton, maximumManifestBytes]
      omega
    · rw [hmanifest]
      exact hfingerprint
    · rw [hmanifest]
      exact hsame.markets.metadataVersion.trans hholds.version.symm
    · rw [hmanifest]
    · rw [hmanifest]
      exact hvalidate
  · intro changed hunchanged hchanged
    cases hverify : verifySession library sha256 (some changed) with
    | error error => exact ⟨error, rfl⟩
    | ok verified =>
      exfalso
      obtain ⟨text, newMetadata, journal, h⟩ := verifySession_eq_ok_iff.mp hverify
      have htext : serializeManifest library manifest = text :=
        Option.some.inj (htextFile.symm.trans (hunchanged.symm.trans h.manifest_file))
      have hverified : verified.manifest = manifest :=
        Except.ok.inj (h.manifest.symm.trans (htext ▸ hreadBack))
      rcases hchanged with ⟨others, hothers, hvalid, hne⟩ | ⟨name, rfl | rfl, old, new,
        hold, hnew, hne⟩
      · have hjournal := h.journal
        rw [validateJournal_journalFile hvalid hothers, hverified, hcount] at hjournal
        exact hne hjournal.1
      · obtain rfl := Option.some.inj (hnew.symm.trans h.metadata_file)
        obtain rfl := Option.some.inj (hold.symm.trans hmetadataFile)
        have hsame := h.metadata_fingerprint
        rw [hverified, hmanifest] at hsame
        exact hne (congrArg ArtifactFingerprint.sha256 (hsame.trans hfingerprint.symm))
      · obtain rfl := Option.some.inj (hnew.symm.trans h.journal_file)
        obtain rfl := Option.some.inj (hold.symm.trans hjournalFile)
        have hsame := h.journal_fingerprint
        rw [hverified, hmanifest] at hsame
        exact hne (congrArg ArtifactFingerprint.sha256 hsame)

/-- No append closes a session whose journal can be written. -/
theorem append_stays_open {session : SessionWriter} (hopen : session.closed = false)
    (hstream : session.writer.stream.Succeeds) (record : RawMarketRecord) :
    (session.append record).1.closed = false ∧
      (session.append record).1.writer.stream.Succeeds := by
  unfold SessionWriter.append
  rw [if_neg (by rw [hopen]; exact Bool.false_ne_true)]
  split_ifs with hversion
  · exact ⟨hopen, hstream⟩
  by_cases hvalid : record.Valid
  · rw [append_of_valid hstream hvalid]
    exact ⟨hopen, hstream⟩
  · rw [append_of_not_valid hvalid]
    exact ⟨rfl, hstream⟩

/-- **A session on a device with room is finalized.** -/
theorem finalize_succeeds {metadata : MetadataSnapshot} {session : SessionWriter}
    (hcreate : createSession sha256 none none metadata = .ok session)
    (records : List RawMarketRecord)
    (hshort : (journalFile (accepted metadata.markets.metadataVersion records)).length ≤
      uint64Max) :
    ∃ final manifest,
      (session.appendAll records).finalize library sha256 = (final, .manifest manifest) := by
  obtain ⟨hstart, hmetadataShort⟩ := createSession_holds hcreate
  have hholds := hstart.appendAll records
  have hopen : (session.appendAll records).closed = false ∧
      (session.appendAll records).writer.stream.Succeeds := by
    refine run_invariant (P := fun session : SessionWriter =>
      session.closed = false ∧ session.writer.stream.Succeeds)
      (fun session record _ h => append_stays_open h.1 h.2 record) ?_
    unfold createSession at hcreate
    dsimp only at hcreate
    rw [if_neg (not_lt.mpr hmetadataShort)] at hcreate
    obtain rfl := Except.ok.inj hcreate
    exact ⟨rfl, rfl, rfl⟩
  generalize session.appendAll records = session at hholds hopen
  have hbytes := hholds.bytes hopen.1
  let files := Function.update session.files journalFilename (some session.writer.stream.bytes)
  have hjournal : files journalFilename = some session.writer.stream.bytes :=
    Function.update_self ..
  have hmetadata : files metadataFilename = some metadata.canonicalJson := by
    rw [show files metadataFilename = session.files metadataFilename from
      Function.update_of_ne (by decide) .., hholds.files, Function.update_self]
  have hnothing (name : String) (hname : name ≠ metadataFilename)
    (hother : name ≠ journalFilename) :
      files name = none := by
    rw [show files name = session.files name from Function.update_of_ne hother .., hholds.files,
      Function.update_of_ne hname]
  have hvalidate : validateJournal files session.manifest.metadataVersion
      session.manifest.records = none := by
    rw [validateJournal_journalFile (fun record hmem => (accepted_valid record hmem).1)
      (hjournal.trans (congrArg some hbytes)), hholds.count hopen.1, hholds.version]
    exact ⟨rfl, fun record hmem => (accepted_valid record hmem).2⟩
  have hcheck : checkArtifacts sha256 files session.manifest = .ok { session.manifest with
      journal := fingerprintBytes sha256 session.writer.stream.bytes } :=
    checkArtifacts_eq_ok_iff.mpr ⟨metadata.canonicalJson, _, ⟨hmetadata, hmetadataShort⟩,
      hholds.fingerprint.symm, hvalidate, ⟨hjournal, hbytes ▸ hshort⟩, rfl⟩
  unfold SessionWriter.finalize
  rw [if_neg (by rw [hopen.1]; exact Bool.false_ne_true)]
  dsimp only
  rw [if_neg (by rw [hopen.2.1]; decide), show Function.update session.files journalFilename
    (some session.writer.stream.bytes) = files from rfl, hcheck]
  have hpending : ¬(files pendingManifestFilename).isSome = true := by
    rw [hnothing pendingManifestFilename (by decide) (by decide)]
    decide
  have hfinal (bytes : Option (List UInt8)) :
      ¬(Function.update files pendingManifestFilename bytes manifestFilename).isSome = true := by
    rw [Function.update_of_ne (by decide), hnothing manifestFilename (by decide) (by decide)]
    decide
  unfold publish writeNewFile
  simp only [if_neg hpending, if_neg (hfinal _)]
  exact ⟨_, _, rfl⟩

end FinalizeVerify

/-- The SHA-256 digests of the two artifacts of the sample. -/
def sampleSha256 (bytes : List UInt8) : String :=
  if bytes = compactLibrary.dump sampleMetadata.sorted.json then
    "f32cd3fdb9052dab5e7b8b8b4ab8902b2387ab6bb30a9a671f88f1ee64f8f020"
  else "15a8a79103481980b579863b971d1c3a34fc758504f9b46235fe020bfe7324f1"

theorem validHash_sampleSha256 (bytes : List UInt8) : ValidHash (sampleSha256 bytes) := by
  unfold sampleSha256
  split_ifs <;> decide

/-- One record is accepted and one is rejected; the session is finalized and verified. -/
theorem finalize_verify_sample : ∃ session final manifest verified,
    createSession sampleSha256 none none (sampleMetadata.snapshot compactLibrary) = .ok session ∧
    (session.appendAll [sampleRecord, { sampleRecord with channel := [] }]).finalize
      compactLibrary sampleSha256 = (final, .manifest manifest) ∧
    verifySession compactLibrary sampleSha256 (some final.files) = .ok verified ∧
    verified.manifest = manifest ∧ manifest.records = 1 := by
  have hparse := parseMetadataSnapshot_dump compactLibrary_lawful sampleMetadata_admissible
    (by decide +kernel)
  have hshort : (sampleMetadata.snapshot compactLibrary).canonicalJson.length ≤
      maximumMetadataBytes := by
    rw [show (sampleMetadata.snapshot compactLibrary).canonicalJson =
      sampleMetadata.sorted.json.text from rfl, sampleMetadata.reordered_sorted.length_text]
    decide +kernel
  obtain ⟨session, hcreate⟩ : ∃ session, createSession sampleSha256 none none
      (sampleMetadata.snapshot compactLibrary) = .ok session := by
    unfold createSession
    dsimp only
    rw [if_neg (not_lt.mpr hshort)]
    exact ⟨_, rfl⟩
  obtain ⟨final, manifest, hfinalize⟩ := @finalize_succeeds compactLibrary _ _ _ hcreate
    [sampleRecord, { sampleRecord with channel := [] }] (by decide +kernel)
  obtain ⟨-, -, hrecords, ⟨verified, hverified, hmanifest, -⟩, -⟩ :=
    (finalize_verify compactLibrary_lawful compactLibrary_printsCompact
      validHash_sampleSha256).1 _ _
      none none session hparse hcreate _ final manifest hfinalize
  exact ⟨session, final, manifest, verified, hcreate, hfinalize, hverified, hmanifest,
    hrecords.trans (by decide +kernel)⟩

end EventMarket.Session
