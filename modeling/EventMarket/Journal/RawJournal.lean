import EventMarket.Foundations.FramedLog
import EventMarket.Journal.Codec

/-!
# The journal file

The journal is a file with a header and one frame for each record: the size of the body, the body
and its checksum. A writer appends frames and a reader takes them from the front. An existing file
is read to its end before a writer extends it.

## Main definitions

* `validateHeader`, `readNext`, `journalReader`: the reader.
* `Stream`, `RawJournalWriter.append`: the writer on a stream that may fail.
* `openRawJournalReader`, `openRawJournalWriter`: opening a file.
* `appendAll`, `writeSessions`: sessions of appending, each between opening and closing a writer.

## Main results

* `framing`: the reader and the frames of valid records obey the laws of a framed log.
* `append_of_valid`, `append_of_not_valid`: what an append does.
* `journal_round_trip`: what is read from a file that was written in sessions, and from a cut of it.
-/

namespace EventMarket.Journal

open EventMarket.Foundations

/-! ### Reading -/

/-- Why the reader stops. -/
inductive Stop where
  | endOfJournal
  | error (error : JournalError)
  deriving DecidableEq, Repr

/-- The next record. Nothing is read at the end of the file. -/
def readNext (recordsRead : ℕ) (stream : List UInt8) : ReadOutcome RawMarketRecord UInt8 Stop :=
  if stream = [] then .stop .endOfJournal
  else
    match takeUnsigned 4 stream with
    | none => .stop (.error ⟨.truncatedRecord, recordsRead⟩)
    | some (recordSize, stream) =>
      if recordSize < minimumRecordBytes then .stop (.error ⟨.invalidRecord, recordsRead⟩)
      else if maximumRecordBytes < recordSize then
        .stop (.error ⟨.recordTooLarge, recordsRead⟩)
      else
        match takeBytes recordSize stream with
        | none => .stop (.error ⟨.truncatedRecord, recordsRead⟩)
        | some (bytes, stream) =>
          match takeUInt32 stream with
          | none => .stop (.error ⟨.truncatedRecord, recordsRead⟩)
          | some (recordedChecksum, stream) =>
            if recordedChecksum ≠ checksum bytes then
              .stop (.error ⟨.checksumMismatch, recordsRead⟩)
            else
              match decode bytes recordsRead with
              | .error error => .stop (.error error)
              | .ok record => .item record stream

theorem length_of_takeUInt32 {value : UInt32} {bytes rest : List UInt8}
    (h : takeUInt32 bytes = some (value, rest)) : bytes.length = 4 + rest.length := by
  obtain ⟨⟨number, left⟩, htaken, heq⟩ := Option.map_eq_some_iff.1 h
  obtain ⟨-, rfl⟩ := Prod.mk.inj heq
  exact length_of_takeUnsigned htaken

/-- A record takes at least 61 bytes from the stream. -/
theorem readNext_length {recordsRead : ℕ} {stream rest : List UInt8} {record : RawMarketRecord}
    (h : readNext recordsRead stream = .item record rest) : rest.length + 61 ≤ stream.length := by
  unfold readNext at h
  split at h
  · cases h
  split at h
  · cases h
  rename_i recordSize afterSize hsize
  split at h
  · cases h
  rename_i hsmall
  rw [minimumRecordBytes] at hsmall
  split at h
  · cases h
  split at h
  · cases h
  rename_i bytes afterBody hbody
  split at h
  · cases h
  rename_i recordedChecksum afterChecksum hchecksum
  split at h
  · cases h
  split at h
  · cases h
  obtain ⟨-, rfl⟩ := ReadOutcome.item.inj h
  have := length_of_takeUnsigned hsize
  have := length_of_takeBytes hbody
  have := length_of_takeUInt32 hchecksum
  omega

theorem readNext_progress {recordsRead : ℕ} {stream rest : List UInt8} {record : RawMarketRecord}
    (h : readNext recordsRead stream = .item record rest) : rest.length < stream.length := by
  have := readNext_length h
  omega

/-- The reader of the records behind the header. -/
def journalReader : Reader RawMarketRecord UInt8 Stop := ⟨readNext, readNext_progress⟩

/-- The records of a stream take at least 61 bytes each. -/
theorem length_readAll (recordsRead : ℕ) (stream : List UInt8) :
    61 * (journalReader.readAll recordsRead stream).1.length ≤ stream.length := by
  induction hlength : stream.length
    using Nat.strong_induction_on generalizing recordsRead stream with
  | _ length ih =>
    cases hread : readNext recordsRead stream with
    | stop reason =>
      rw [Reader.readAll_of_stop
        (show journalReader.read recordsRead stream = .stop reason from hread)]
      simp
    | item record rest =>
      have htaken := readNext_length hread
      have hrest := ih rest.length (by omega) (recordsRead + 1) rest rfl
      rw [Reader.readAll_of_item
        (show journalReader.read recordsRead stream = .item record rest from hread)]
      rw [List.length_cons]
      omega

/-- The stream behind the header. -/
def validateHeader (stream : List UInt8) : Except JournalError (List UInt8) :=
  match takeBytes fileMagic.length stream with
  | none => .error ⟨.invalidHeader, 0⟩
  | some (magic, stream) =>
    if magic ≠ fileMagic then .error ⟨.invalidHeader, 0⟩
    else
      match takeUnsigned 4 stream with
      | none => .error ⟨.invalidHeader, 0⟩
      | some (version, stream) =>
        if version = fileFormatVersion then .ok stream else .error ⟨.unsupportedVersion, 0⟩

/-! ### Writing -/

/-- An output stream: the bytes that are in the file, how many more the device takes when that is
limited, and whether every write succeeded. -/
structure Stream where
  bytes : List UInt8
  room : Option ℕ
  good : Bool

/-- A write to a stream that failed does nothing; a write without room leaves a part and fails. -/
def Stream.write (stream : Stream) (chunk : List UInt8) : Stream :=
  if stream.good then
    match stream.room with
    | none => { stream with bytes := stream.bytes ++ chunk }
    | some room =>
      { bytes := stream.bytes ++ chunk.take room
        room := some (room - chunk.length)
        good := decide (chunk.length ≤ room) }
  else stream

structure RawJournalWriter where
  stream : Stream
  recordsWritten : ℕ

/-- The frame of a record is written after the record passed the encoder and the limits. -/
def RawJournalWriter.append (writer : RawJournalWriter) (record : RawMarketRecord) :
    RawJournalWriter × Option JournalError :=
  match encodeInto record with
  | .error code => (writer, some ⟨code, writer.recordsWritten⟩)
  | .ok encoded =>
    if maximumRecordBytes < encoded.length ∨ 2 ^ 32 - 1 < encoded.length then
      (writer, some ⟨.recordTooLarge, writer.recordsWritten⟩)
    else
      let stream := ((writer.stream.write (littleEndian 4 encoded.length)).write encoded).write
        (littleEndian 4 (checksum encoded).toNat)
      if stream.good then ({ stream, recordsWritten := writer.recordsWritten + 1 }, none)
      else ({ writer with stream }, some ⟨.ioError, writer.recordsWritten⟩)

/-! ### Opening a file -/

/-- Which calls to the file system succeed for the path of a journal. -/
structure Access where
  status : Bool
  size : Bool
  read : Bool
  write : Bool

/-- Every call succeeds. -/
def Access.all : Access := ⟨true, true, true, true⟩

/-- The stream behind the header of an existing file. -/
def openRawJournalReader (access : Access) (file : Option (List UInt8)) :
    Except JournalError (List UInt8) :=
  match file with
  | none => .error ⟨.openFailed, 0⟩
  | some bytes => if access.read then validateHeader bytes else .error ⟨.openFailed, 0⟩

/-- The records of an existing file up to the end of the journal, counted. -/
def recordsOf (access : Access) (file : Option (List UInt8)) : Except JournalError ℕ :=
  match openRawJournalReader access file with
  | .error error => .error error
  | .ok stream =>
    match journalReader.readAll 0 stream with
    | (_, .error error) => .error error
    | (records, .endOfJournal) => .ok records.length

/-- The header of the file. -/
def fileHeader : List UInt8 := fileMagic ++ littleEndian 4 fileFormatVersion

/-- The writer behind what the file holds. The header is written to a new file. -/
def openStream (access : Access) (room : Option ℕ) (bytes : List UInt8) (writeHeader : Bool)
    (recordsWritten : ℕ) : Except JournalError RawJournalWriter :=
  if access.write then
    let stream : Stream := ⟨bytes, room, true⟩
    if writeHeader then
      let stream := (stream.write fileMagic).write (littleEndian 4 fileFormatVersion)
      if stream.good then .ok ⟨stream, recordsWritten⟩ else .error ⟨.ioError, 0⟩
    else .ok ⟨stream, recordsWritten⟩
  else .error ⟨.openFailed, 0⟩

/-- A file that is not empty is read to its end before it is extended. -/
def openRawJournalWriter (access : Access) (room : Option ℕ) (file : Option (List UInt8)) :
    Except JournalError RawJournalWriter :=
  if access.status then
    match file with
    | none => openStream access room [] true 0
    | some bytes =>
      if access.size then
        if bytes.length = 0 then openStream access room bytes true 0
        else
          match recordsOf access file with
          | .error error => .error error
          | .ok recordsWritten => openStream access room bytes false recordsWritten
      else .error ⟨.openFailed, 0⟩
  else .error ⟨.openFailed, 0⟩

/-! ### Sessions -/

/-- The writer after the appends of a session; a rejected record does not end the session. -/
def appendAll (writer : RawJournalWriter) (records : List RawMarketRecord) : RawJournalWriter :=
  records.foldl (fun writer record => (writer.append record).1) writer

/-- One session: the writer is opened, the records are appended and the writer is closed. -/
def writeSession (file : Option (List UInt8)) (records : List RawMarketRecord) :
    Except JournalError (Option (List UInt8)) :=
  (openRawJournalWriter .all none file).map fun writer =>
    some (appendAll writer records).stream.bytes

/-- The file after sessions that follow each other. -/
def writeSessions (file : Option (List UInt8)) (sessions : List (List RawMarketRecord)) :
    Except JournalError (Option (List UInt8)) :=
  sessions.foldlM writeSession file

/-- Everything that is read from a file, and why the reader stops. -/
def readJournal (file : Option (List UInt8)) : Except JournalError (List RawMarketRecord × Stop) :=
  (openRawJournalReader .all file).map (journalReader.readAll 0)

/-! ### The frames of valid records -/

/-- What the writer emits for a record. -/
def frame (record : RawMarketRecord) : List UInt8 :=
  littleEndian 4 (body record).length ++
    (body record ++ littleEndian 4 (checksum (body record)).toNat)

theorem length_frame (record : RawMarketRecord) :
    (frame record).length = 4 + (body record).length + 4 := by
  simp only [frame, List.length_append, length_littleEndian]
  omega

theorem length_body_lt {record : RawMarketRecord} (h : record.Valid) :
    (body record).length < 256 ^ 4 := by
  have hmaximum := (length_body_bounds h).2
  rw [maximumRecordBytes] at hmaximum
  omega

/-- A read that finds the size of the body of a valid record. -/
theorem readNext_of_size {record : RawMarketRecord} (h : record.Valid) (recordsRead : ℕ)
    (stream : List UInt8) :
    readNext recordsRead (littleEndian 4 (body record).length ++ stream) =
      match takeBytes (body record).length stream with
      | none => .stop (.error ⟨.truncatedRecord, recordsRead⟩)
      | some (bytes, stream) =>
        match takeUInt32 stream with
        | none => .stop (.error ⟨.truncatedRecord, recordsRead⟩)
        | some (recordedChecksum, stream) =>
          if recordedChecksum ≠ checksum bytes then
            .stop (.error ⟨.checksumMismatch, recordsRead⟩)
          else
            match decode bytes recordsRead with
            | .error error => .stop (.error error)
            | .ok record => .item record stream := by
  have hbounds := length_body_bounds h
  have hne : littleEndian 4 (body record).length ++ stream ≠ [] := by
    intro heq
    have := congrArg List.length heq
    simp at this
  rw [readNext, if_neg hne, takeUnsigned_append (length_body_lt h)]
  simp only [if_neg (Nat.not_lt.2 hbounds.1), if_neg (Nat.not_lt.2 hbounds.2)]

/-- A whole frame is read back. -/
theorem readNext_frame {record : RawMarketRecord} (h : record.Valid) (recordsRead : ℕ)
    (rest : List UInt8) : readNext recordsRead (frame record ++ rest) = .item record rest := by
  rw [frame, List.append_assoc, List.append_assoc, readNext_of_size h]
  simp only [takeBytes_append, takeUInt32_append, ne_eq, not_true_eq_false, if_false,
    decode_body h]

/-- A cut inside a frame is recognised, wherever it falls. -/
theorem readNext_cut {record : RawMarketRecord} (h : record.Valid) (recordsRead : ℕ) {n : ℕ}
    (hpos : 0 < n) (hlt : n < (frame record).length) :
    readNext recordsRead ((frame record).take n) =
      .stop (.error ⟨.truncatedRecord, recordsRead⟩) := by
  rw [length_frame] at hlt
  have hlength : ((frame record).take n).length = n := by
    rw [List.length_take, length_frame]
    omega
  rcases Nat.lt_or_ge n 4 with hsize | hsize
  · -- The cut is in the size.
    have hne : (frame record).take n ≠ [] := by
      rw [← List.length_pos_iff, hlength]
      exact hpos
    have hnone : takeUnsigned 4 ((frame record).take n) = none := by
      rw [takeUnsigned_eq_none_iff, hlength]
      exact hsize
    rw [readNext, if_neg hne, hnone]
  have htake : (frame record).take n = littleEndian 4 (body record).length ++
      (body record ++ littleEndian 4 (checksum (body record)).toNat).take (n - 4) := by
    rw [frame, List.take_append, length_littleEndian,
      List.take_of_length_le (by rwa [length_littleEndian])]
  rw [htake, readNext_of_size h]
  rcases Nat.lt_or_ge (n - 4) (body record).length with hbody | hbody
  · -- The cut is in the body.
    have hnone : takeBytes (body record).length
        ((body record ++ littleEndian 4 (checksum (body record)).toNat).take (n - 4)) = none := by
      rw [takeBytes_eq_none_iff, List.length_take]
      omega
    rw [hnone]
  · -- The cut is in the checksum.
    have hnone : takeUInt32 ((littleEndian 4 (checksum (body record)).toNat).take
        (n - 4 - (body record).length)) = none := by
      rw [takeUInt32, Option.map_eq_none_iff, takeUnsigned_eq_none_iff, List.length_take]
      omega
    rw [List.take_append, List.take_of_length_le hbody]
    simp only [takeBytes_append, hnone]

/-- The reader and the frames of valid records obey the laws of a framed log. -/
theorem framing : Framing journalReader frame RawMarketRecord.Valid .endOfJournal
    fun recordsRead => .error ⟨.truncatedRecord, recordsRead⟩ where
  read_frame recordsRead _ rest h := readNext_frame h recordsRead rest
  read_nil _ := rfl
  read_cut recordsRead _ _ h hpos hlt := readNext_cut h recordsRead hpos hlt

/-! ### What an append does -/

/-- Every write to the stream succeeds. -/
def Stream.Succeeds (stream : Stream) : Prop := stream.good = true ∧ stream.room = none

theorem Stream.Succeeds.write_eq {stream : Stream} (h : stream.Succeeds) (chunk : List UInt8) :
    stream.write chunk = { stream with bytes := stream.bytes ++ chunk } := by
  rw [Stream.write, if_pos h.1, h.2]

theorem Stream.Succeeds.write {stream : Stream} (h : stream.Succeeds) (chunk : List UInt8) :
    (stream.write chunk).Succeeds := by
  rw [h.write_eq]
  exact h

/-- A record that is not valid is rejected before anything is written. -/
theorem append_of_not_valid {writer : RawJournalWriter} {record : RawMarketRecord}
    (h : ¬record.Valid) :
    writer.append record = (writer, some ⟨.invalidRecord, writer.recordsWritten⟩) := by
  simp only [RawJournalWriter.append, encodeInto_of_not_valid h]

/-- A write that succeeded has appended the whole chunk. -/
theorem Stream.write_of_good {stream : Stream} {chunk : List UInt8}
    (h : (stream.write chunk).good = true) :
    stream.good = true ∧ (stream.write chunk).bytes = stream.bytes ++ chunk := by
  unfold Stream.write at h ⊢
  by_cases hgood : stream.good = true
  · refine ⟨hgood, ?_⟩
    rw [if_pos hgood] at h ⊢
    cases hroom : stream.room with
    | none => rfl
    | some room =>
      simp only [hroom, decide_eq_true_eq] at h
      simp only [List.take_of_length_le h]
  · rw [if_neg hgood] at h
    exact absurd h hgood

/-- **A record that was appended** is valid, and its frame is in the file. -/
theorem append_eq_none {writer : RawJournalWriter} {record : RawMarketRecord}
    (h : (writer.append record).2 = none) :
    record.Valid ∧ (writer.append record).1.stream.good = true ∧
      (writer.append record).1.stream.bytes = writer.stream.bytes ++ frame record ∧
      (writer.append record).1.recordsWritten = writer.recordsWritten + 1 := by
  by_cases hvalid : record.Valid
  · unfold RawJournalWriter.append at h ⊢
    rw [encodeInto_of_valid hvalid] at h ⊢
    dsimp only at h ⊢
    split_ifs at h ⊢ with hlarge hgood
    obtain ⟨hbody, hchecksum⟩ := Stream.write_of_good hgood
    obtain ⟨hsize, hbodyBytes⟩ := Stream.write_of_good hbody
    obtain ⟨-, hsizeBytes⟩ := Stream.write_of_good hsize
    refine ⟨hvalid, hgood, ?_, rfl⟩
    rw [hchecksum, hbodyBytes, hsizeBytes, frame, List.append_assoc, List.append_assoc]
  · rw [append_of_not_valid hvalid] at h
    cases h

/-- **A record that was not appended**: a write failed, or it is not valid and nothing changed. -/
theorem append_eq_some {writer : RawJournalWriter} {record : RawMarketRecord} {error : JournalError}
    (h : (writer.append record).2 = some error) :
    error.code = .ioError ∨ (¬record.Valid ∧ (writer.append record).1 = writer) := by
  by_cases hvalid : record.Valid
  · have hmaximum := (length_body_bounds hvalid).2
    have hwithin : ¬(maximumRecordBytes < (body record).length ∨
        2 ^ 32 - 1 < (body record).length) := by
      rw [maximumRecordBytes] at *
      omega
    unfold RawJournalWriter.append at h
    rw [encodeInto_of_valid hvalid] at h
    dsimp only at h
    rw [if_neg hwithin] at h
    split_ifs at h
    obtain rfl := Option.some.inj h
    exact Or.inl rfl
  · exact Or.inr ⟨hvalid, by rw [append_of_not_valid hvalid]⟩

/-- A valid record is appended as one frame. -/
theorem append_of_valid {writer : RawJournalWriter} {record : RawMarketRecord}
    (hstream : writer.stream.Succeeds) (h : record.Valid) :
    writer.append record =
      ({ stream := { writer.stream with bytes := writer.stream.bytes ++ frame record }
         recordsWritten := writer.recordsWritten + 1 }, none) := by
  have hmaximum := (length_body_bounds h).2
  have hwithin : ¬(maximumRecordBytes < (body record).length ∨
      2 ^ 32 - 1 < (body record).length) := by
    rw [maximumRecordBytes] at *
    omega
  have hsize := hstream.write (littleEndian 4 (body record).length)
  have hbody := hsize.write (body record)
  have hchecksum := hbody.write (littleEndian 4 (checksum (body record)).toNat)
  simp only [RawJournalWriter.append, encodeInto_of_valid h, if_neg hwithin, if_pos hchecksum.1]
  rw [hbody.write_eq, hsize.write_eq, hstream.write_eq]
  simp only [frame, List.append_assoc]

/-- A session extends the file by the frames of its valid records. -/
theorem appendAll_eq {writer : RawJournalWriter} (hstream : writer.stream.Succeeds)
    (records : List RawMarketRecord) :
    appendAll writer records =
      { stream := { writer.stream with
          bytes := writer.stream.bytes ++ frames frame (records.filter valid) }
        recordsWritten := writer.recordsWritten + (records.filter valid).length } := by
  induction records generalizing writer with
  | nil => simp [appendAll]
  | cons record records ih =>
    rw [appendAll, List.foldl_cons, ← appendAll]
    by_cases h : record.Valid
    · have hnext : (writer.append record).1.stream.Succeeds := by
        rw [append_of_valid hstream h]
        exact hstream
      rw [ih hnext, append_of_valid hstream h, List.filter_cons_of_pos (valid_iff.2 h)]
      simp only [frames_cons, List.append_assoc, List.length_cons, Nat.add_assoc,
        Nat.add_comm 1]
    · rw [append_of_not_valid h, ih hstream,
        List.filter_cons_of_neg (fun hvalid => h (valid_iff.1 hvalid))]

/-! ### Files that were written in sessions -/

/-- The file that holds the records. -/
def journalFile (records : List RawMarketRecord) : List UInt8 := fileHeader ++ frames frame records

theorem length_fileHeader : fileHeader.length = 12 := rfl

@[simp] theorem validateHeader_append (stream : List UInt8) :
    validateHeader (fileHeader ++ stream) = .ok stream := by
  have hmagic := takeBytes_append fileMagic (littleEndian 4 fileFormatVersion ++ stream)
  have hversion := takeUnsigned_append (show fileFormatVersion < 256 ^ 4 by decide) stream
  simp only [validateHeader, fileHeader, List.append_assoc, hmagic, hversion, ne_eq,
    not_true_eq_false, if_false, if_true]

theorem readJournal_append (stream : List UInt8) :
    readJournal (some (fileHeader ++ stream)) = .ok (journalReader.readAll 0 stream) := by
  simp [readJournal, openRawJournalReader, Access.all, Except.map]

/-- A whole file is read. -/
theorem readJournal_journalFile {records : List RawMarketRecord}
    (h : ∀ record ∈ records, record.Valid) :
    readJournal (some (journalFile records)) = .ok (records, .endOfJournal) := by
  rw [journalFile, readJournal_append, framing.readAll_frames h]

/-- A writer of a new or an empty file starts behind the header. -/
theorem openRawJournalWriter_new :
    openRawJournalWriter .all none none = .ok ⟨⟨fileHeader, none, true⟩, 0⟩ := rfl

/-- A writer of an existing file starts behind its last record. -/
theorem openRawJournalWriter_journalFile {records : List RawMarketRecord}
    (h : ∀ record ∈ records, record.Valid) :
    openRawJournalWriter .all none (some (journalFile records)) =
      .ok ⟨⟨journalFile records, none, true⟩, records.length⟩ := by
  have hne : (journalFile records).length ≠ 0 := by
    rw [journalFile, List.length_append, length_fileHeader]
    omega
  have hcount : recordsOf .all (some (journalFile records)) = .ok records.length := by
    simp only [recordsOf, openRawJournalReader, Access.all, if_true, journalFile,
      validateHeader_append, framing.readAll_frames h]
  simp only [openRawJournalWriter, show Access.all.status = true from rfl,
    show Access.all.size = true from rfl, if_true, if_neg hne, hcount]
  rfl

/-- A session extends the file by its valid records. -/
theorem writeSession_journalFile {records : List RawMarketRecord}
    (h : ∀ record ∈ records, record.Valid) (session : List RawMarketRecord) :
    writeSession (some (journalFile records)) session =
      .ok (some (journalFile (records ++ session.filter valid))) := by
  rw [writeSession, openRawJournalWriter_journalFile h, Except.map,
    appendAll_eq ⟨rfl, rfl⟩ session]
  simp only [journalFile, frames_append, List.append_assoc]

theorem writeSession_new (session : List RawMarketRecord) :
    writeSession none session = .ok (some (journalFile (session.filter valid))) := by
  rw [writeSession, openRawJournalWriter_new, Except.map, appendAll_eq ⟨rfl, rfl⟩ session]
  rfl

theorem writeSessions_journalFile {records : List RawMarketRecord}
    (h : ∀ record ∈ records, record.Valid) (sessions : List (List RawMarketRecord)) :
    writeSessions (some (journalFile records)) sessions =
      .ok (some (journalFile (records ++ sessions.flatten.filter valid))) := by
  induction sessions generalizing records with
  | nil => simp [writeSessions, pure, Except.pure]
  | cons session sessions ih =>
    have hall : ∀ record ∈ records ++ session.filter valid, record.Valid := by
      intro record hmem
      rcases List.mem_append.1 hmem with hmem | hmem
      · exact h record hmem
      · exact valid_iff.1 (List.mem_filter.1 hmem).2
    have hrest := ih hall
    rw [writeSessions] at hrest ⊢
    rw [List.foldlM_cons, writeSession_journalFile h]
    simp only [bind, Except.bind, hrest, List.flatten_cons, List.filter_append, List.append_assoc]

/-- **What sessions write.** The file holds the valid records in their order, however they are
split into sessions. -/
theorem writeSessions_eq {sessions : List (List RawMarketRecord)} (hne : sessions ≠ []) :
    writeSessions none sessions =
      .ok (some (journalFile (sessions.flatten.filter valid))) := by
  obtain ⟨session, rest, rfl⟩ := List.exists_cons_of_ne_nil hne
  have hvalid : ∀ record ∈ session.filter valid, record.Valid :=
    fun record hmem => valid_iff.1 (List.mem_filter.1 hmem).2
  have hrest := writeSessions_journalFile hvalid rest
  rw [writeSessions] at hrest ⊢
  rw [List.foldlM_cons, writeSession_new]
  simp only [bind, Except.bind, hrest, List.flatten_cons, List.filter_append]

/-- The position is the end of the header or of a frame. -/
def AtFrameBoundary (records : List RawMarketRecord) (n : ℕ) : Prop :=
  ∃ count, n = fileHeader.length + boundary frame records count

/-- **A cut file.** It reads back the records whose frames are complete. -/
theorem readJournal_take {records : List RawMarketRecord} (h : ∀ record ∈ records, record.Valid)
    {n : ℕ} (hheader : fileHeader.length ≤ n) (hn : n < (journalFile records).length) :
    ∃ count < records.length,
      fileHeader.length + boundary frame records count ≤ n ∧
      n < fileHeader.length + boundary frame records (count + 1) ∧
      (AtFrameBoundary records n →
        readJournal (some ((journalFile records).take n)) =
          .ok (records.take count, .endOfJournal)) ∧
      (¬AtFrameBoundary records n →
        readJournal (some ((journalFile records).take n)) =
          .ok (records.take count, .error ⟨.truncatedRecord, count⟩)) := by
  rw [journalFile, List.length_append] at hn
  have hcut : (journalFile records).take n =
      fileHeader ++ (frames frame records).take (n - fileHeader.length) := by
    rw [journalFile, List.take_append, List.take_of_length_le hheader]
  obtain ⟨count, hcount, hle, hlt, hend, htruncated⟩ := framing.readAll_take h 0
    (show n - fileHeader.length < (frames frame records).length by omega)
  refine ⟨count, hcount, by omega, by omega, ?_, ?_⟩
  · rintro ⟨other, hother⟩
    have heq := eq_boundary_of_between hle hlt (show _ = boundary frame records other by omega)
    rw [hcut, readJournal_append, hend heq]
  · intro hnot
    have hneq : n - fileHeader.length ≠ boundary frame records count :=
      fun heq => hnot ⟨count, by omega⟩
    rw [hcut, readJournal_append, htruncated hneq, Nat.zero_add]

/-- **Round trip and crash prefixes.** Valid records that are appended in any sessions are read
back, and of a cut file those whose frames are complete: the journal ends at the end of a frame,
and a cut inside a frame is an error with the index of the record. A writer whose stream does not
fail either rejects a record and stays as it is, or emits a frame from which the record is read
back. -/
theorem journal_round_trip :
    (∀ sessions : List (List RawMarketRecord), sessions ≠ [] →
      (∀ session ∈ sessions, ∀ record ∈ session, record.Valid) →
      ∃ file, writeSessions none sessions = .ok (some file) ∧
        readJournal (some file) = .ok (sessions.flatten, .endOfJournal) ∧
        ∀ n, fileHeader.length ≤ n → n < file.length →
          ∃ count < sessions.flatten.length,
            fileHeader.length + boundary frame sessions.flatten count ≤ n ∧
            n < fileHeader.length + boundary frame sessions.flatten (count + 1) ∧
            (AtFrameBoundary sessions.flatten n →
              readJournal (some (file.take n)) =
                .ok (sessions.flatten.take count, .endOfJournal)) ∧
            (¬AtFrameBoundary sessions.flatten n →
              readJournal (some (file.take n)) =
                .ok (sessions.flatten.take count, .error ⟨.truncatedRecord, count⟩))) ∧
    ∀ (writer : RawJournalWriter) (record : RawMarketRecord), writer.stream.Succeeds →
      ((writer.append record).2.isSome → (writer.append record).1 = writer) ∧
      ((writer.append record).2 = none →
        (writer.append record).1.stream.bytes = writer.stream.bytes ++ frame record ∧
        (writer.append record).1.recordsWritten = writer.recordsWritten + 1 ∧
        ∀ recordsRead rest,
          readNext recordsRead (frame record ++ rest) = .item record rest) := by
  refine ⟨fun sessions hne hsessions => ?_, fun writer record hstream => ?_⟩
  · have hvalid : ∀ record ∈ sessions.flatten, record.Valid := by
      intro record hmem
      obtain ⟨session, hsession, hrecord⟩ := List.mem_flatten.1 hmem
      exact hsessions session hsession record hrecord
    have hfilter : sessions.flatten.filter valid = sessions.flatten :=
      List.filter_eq_self.2 fun record hmem => valid_iff.2 (hvalid record hmem)
    refine ⟨journalFile sessions.flatten, ?_, readJournal_journalFile hvalid,
      fun n hheader hn => ?_⟩
    · rw [writeSessions_eq hne, hfilter]
    · exact readJournal_take hvalid hheader hn
  · by_cases h : record.Valid
    · rw [append_of_valid hstream h]
      exact ⟨nofun, fun _ => ⟨rfl, rfl, readNext_frame h⟩⟩
    · rw [append_of_not_valid h]
      exact ⟨fun _ => rfl, nofun⟩

/-- A record with a one-byte channel and a one-byte payload. -/
def sampleRecord : RawMarketRecord where
  schemaVersion := 2
  metadataVersion := 1
  connectionGeneration := 1
  receivedAt := 0
  observedAt := 0
  sequence := 7
  exchangeTimeNs := some 5
  channel := [0x62]
  payload := [0x7b]

/-- Two sessions of one record each are read back. -/
theorem journal_round_trip_sample :
    (∃ file, writeSessions none [[sampleRecord], [sampleRecord]] = .ok (some file) ∧
      readJournal (some file) = .ok ([sampleRecord, sampleRecord], .endOfJournal)) ∧
    ((⟨⟨fileHeader, none, true⟩, 0⟩ : RawJournalWriter).append
      { sampleRecord with channel := [] }).1 = ⟨⟨fileHeader, none, true⟩, 0⟩ := by
  have hvalid : sampleRecord.Valid := by decide
  obtain ⟨file, hfile, hread, -⟩ :=
    journal_round_trip.1 [[sampleRecord], [sampleRecord]] (by simp) (by simp [hvalid])
  have hrejected := (journal_round_trip.2 ⟨⟨fileHeader, none, true⟩, 0⟩
    { sampleRecord with channel := [] } ⟨rfl, rfl⟩).1 (by decide)
  exact ⟨⟨file, hfile, hread⟩, hrejected⟩

end EventMarket.Journal
