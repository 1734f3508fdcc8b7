import EventMarket.Foundations.LittleEndian
import Mathlib.Algebra.Order.Group.Nat

/-!
# The record codec of the journal

A record of the capture is written as the body of a frame: numbers in little-endian byte order,
then the exact bytes of the channel and of the payload. The decoder reads a body back and refuses
what the encoder would not have written.

## Main definitions

* `RawMarketRecord`, `RawMarketRecord.Valid`: a record, and when it can be written.
* `encodeInto`, `decode`: the body of a record, and the record of a body.
* `checksum`: the CRC-32 of a body.

## Main results

* `encodeInto_eq_ok_iff`: exactly the valid records are encoded.
* `decode_body`: an encoded record is decoded.
* `length_body_bounds`: a body is never too small or too large for a frame.
-/

namespace EventMarket.Journal

open EventMarket.Foundations

def currentSchemaVersion : UInt32 := 2

structure RawMarketRecord where
  schemaVersion : UInt32
  metadataVersion : UInt64
  connectionGeneration : UInt64
  receivedAt : Int64
  observedAt : Int64
  sequence : UInt64
  exchangeTimeNs : Option Int64
  channel : List UInt8
  payload : List UInt8
  deriving DecidableEq

inductive JournalErrorCode where
  | openFailed
  | invalidHeader
  | unsupportedVersion
  | ioError
  | invalidRecord
  | truncatedRecord
  | recordTooLarge
  | checksumMismatch
  deriving DecidableEq, Repr

/-- The text of a code. -/
def JournalErrorCode.text : JournalErrorCode → String
  | .openFailed => "OPEN_FAILED"
  | .invalidHeader => "INVALID_HEADER"
  | .unsupportedVersion => "UNSUPPORTED_VERSION"
  | .ioError => "IO_ERROR"
  | .invalidRecord => "INVALID_RECORD"
  | .truncatedRecord => "TRUNCATED_RECORD"
  | .recordTooLarge => "RECORD_TOO_LARGE"
  | .checksumMismatch => "CHECKSUM_MISMATCH"

structure JournalError where
  code : JournalErrorCode
  recordIndex : ℕ
  deriving DecidableEq, Repr

/-! ### Limits -/

/-- The bytes `EMEJNL02`. -/
def fileMagic : List UInt8 := [0x45, 0x4d, 0x45, 0x4a, 0x4e, 0x4c, 0x30, 0x32]

def fileFormatVersion : ℕ := 2

def maximumChannelBytes : ℕ := 256

def maximumPayloadBytes : ℕ := 16 * 1024 * 1024

def maximumRecordBytes : ℕ := 16 * 1024 * 1024 + 256 + 80

def minimumRecordBytes : ℕ := 53

/-- When a record can be written. -/
structure RawMarketRecord.Valid (record : RawMarketRecord) : Prop where
  schemaVersion : record.schemaVersion = currentSchemaVersion
  metadataVersion : record.metadataVersion ≠ 0
  connectionGeneration : record.connectionGeneration ≠ 0
  channel_pos : 0 < record.channel.length
  channel_le : record.channel.length ≤ maximumChannelBytes
  payload_pos : 0 < record.payload.length
  payload_le : record.payload.length ≤ maximumPayloadBytes

/-- The validity test of the encoder. -/
def valid (record : RawMarketRecord) : Bool :=
  record.schemaVersion == currentSchemaVersion && record.metadataVersion != 0 &&
    record.connectionGeneration != 0 && !record.channel.isEmpty &&
    decide (record.channel.length ≤ maximumChannelBytes) && !record.payload.isEmpty &&
    decide (record.payload.length ≤ maximumPayloadBytes)

theorem valid_iff {record : RawMarketRecord} : valid record = true ↔ record.Valid := by
  simp only [valid, Bool.and_eq_true, beq_iff_eq, bne_iff_ne, Bool.not_eq_true',
    List.isEmpty_eq_false_iff, decide_eq_true_eq, ne_eq]
  constructor
  · rintro ⟨⟨⟨⟨⟨⟨hschema, hmetadata⟩, hgeneration⟩, hchannel⟩, hchannelLe⟩, hpayload⟩, hpayloadLe⟩
    exact ⟨hschema, hmetadata, hgeneration, List.length_pos_iff.2 hchannel, hchannelLe,
      List.length_pos_iff.2 hpayload, hpayloadLe⟩
  · intro h
    exact ⟨⟨⟨⟨⟨⟨h.schemaVersion, h.metadataVersion⟩, h.connectionGeneration⟩,
      List.ne_nil_of_length_pos h.channel_pos⟩, h.channel_le⟩,
      List.ne_nil_of_length_pos h.payload_pos⟩, h.payload_le⟩

instance (record : RawMarketRecord) : Decidable record.Valid :=
  decidable_of_iff _ valid_iff

/-! ### Checksum -/

/-- One step of the table: the reflected polynomial is added when the lowest bit is set. -/
def crcBit (value : UInt32) : UInt32 :=
  if value &&& 1 ≠ 0 then (value >>> 1) ^^^ 0xedb88320 else value >>> 1

/-- The table entry of a byte. -/
def crcTable (index : UInt32) : UInt32 := crcBit^[8] index

def crcStep (crc : UInt32) (byte : UInt8) : UInt32 :=
  (crc >>> 8) ^^^ crcTable ((crc ^^^ byte.toUInt32) &&& 0xff)

/-- The CRC-32 of the bytes. -/
def checksum (bytes : List UInt8) : UInt32 := ~~~ bytes.foldl crcStep 0xffffffff

/-! ### Encoding -/

/-- The flag and the optional time. -/
def exchangeTimeBytes : Option Int64 → List UInt8
  | none => littleEndian 1 0
  | some time => littleEndian 1 1 ++ littleEndian 8 time.toUInt64.toNat

/-- The fields of a body in their order. -/
def body (record : RawMarketRecord) : List UInt8 :=
  littleEndian 4 record.schemaVersion.toNat ++
  (littleEndian 8 record.metadataVersion.toNat ++
  (littleEndian 8 record.connectionGeneration.toNat ++
  (littleEndian 8 record.receivedAt.toUInt64.toNat ++
  (littleEndian 8 record.observedAt.toUInt64.toNat ++
  (littleEndian 8 record.sequence.toNat ++
  (exchangeTimeBytes record.exchangeTimeNs ++
  (littleEndian 4 (record.channel.length % 2 ^ 32) ++
  (littleEndian 4 (record.payload.length % 2 ^ 32) ++
  (record.channel ++ record.payload)))))))))

/-- The body of a valid record. -/
def encodeInto (record : RawMarketRecord) : Except JournalErrorCode (List UInt8) :=
  if valid record then .ok (body record) else .error .invalidRecord

/-! ### Decoding -/

/-- The fields before the optional time. -/
structure Head where
  schemaVersion : UInt32
  metadataVersion : UInt64
  generation : UInt64
  receivedBits : UInt64
  observedBits : UInt64
  sequence : UInt64
  flags : ℕ

/-- A field of 32 bits. -/
def takeUInt32 (bytes : List UInt8) : Option (UInt32 × List UInt8) :=
  (takeUnsigned 4 bytes).map fun (value, rest) => (UInt32.ofNat value, rest)

/-- A field of 64 bits. -/
def takeUInt64 (bytes : List UInt8) : Option (UInt64 × List UInt8) :=
  (takeUnsigned 8 bytes).map fun (value, rest) => (UInt64.ofNat value, rest)

def takeHead (bytes : List UInt8) : Option (Head × List UInt8) := do
  let (schemaVersion, bytes) ← takeUInt32 bytes
  let (metadataVersion, bytes) ← takeUInt64 bytes
  let (generation, bytes) ← takeUInt64 bytes
  let (receivedBits, bytes) ← takeUInt64 bytes
  let (observedBits, bytes) ← takeUInt64 bytes
  let (sequence, bytes) ← takeUInt64 bytes
  let (flags, bytes) ← takeUnsigned 1 bytes
  some (⟨schemaVersion, metadataVersion, generation, receivedBits, observedBits, sequence, flags⟩,
    bytes)

def takeExchangeTime (flags : ℕ) (bytes : List UInt8) : Option (Option Int64 × List UInt8) :=
  if flags = 1 then
    (takeUInt64 bytes).map fun (bits, rest) => (some bits.toInt64, rest)
  else some (none, bytes)

def takeSizes (bytes : List UInt8) : Option (ℕ × ℕ × List UInt8) := do
  let (channelSize, bytes) ← takeUnsigned 4 bytes
  let (payloadSize, bytes) ← takeUnsigned 4 bytes
  some (channelSize, payloadSize, bytes)

/-- The channel and the payload, when the sizes are those of the remaining bytes. -/
def takeText (channelSize payloadSize : ℕ) (bytes : List UInt8) :
    Option (List UInt8 × List UInt8) :=
  if channelSize = 0 ∨ maximumChannelBytes < channelSize ∨ payloadSize = 0 ∨
      maximumPayloadBytes < payloadSize ∨ bytes.length ≠ channelSize + payloadSize then none
  else do
    let (channel, bytes) ← takeBytes channelSize bytes
    let (payload, bytes) ← takeBytes payloadSize bytes
    if bytes.length ≠ 0 then none else some (channel, payload)

/-- The record of a body. The checks come in the order of the fields; only the two versions that
must not be zero are checked last. -/
def decode (bytes : List UInt8) (recordIndex : ℕ) : Except JournalError RawMarketRecord :=
  match takeHead bytes with
  | none => .error ⟨.truncatedRecord, recordIndex⟩
  | some (head, bytes) =>
    if head.schemaVersion ≠ currentSchemaVersion then .error ⟨.unsupportedVersion, recordIndex⟩
    else if 1 < head.flags then .error ⟨.invalidRecord, recordIndex⟩
    else
      match takeExchangeTime head.flags bytes with
      | none => .error ⟨.truncatedRecord, recordIndex⟩
      | some (exchangeTimeNs, bytes) =>
        match takeSizes bytes with
        | none => .error ⟨.truncatedRecord, recordIndex⟩
        | some (channelSize, payloadSize, bytes) =>
          match takeText channelSize payloadSize bytes with
          | none => .error ⟨.invalidRecord, recordIndex⟩
          | some (channel, payload) =>
            if head.metadataVersion = 0 ∨ head.generation = 0 then
              .error ⟨.invalidRecord, recordIndex⟩
            else
              .ok {
                schemaVersion := head.schemaVersion
                metadataVersion := head.metadataVersion
                connectionGeneration := head.generation
                receivedAt := head.receivedBits.toInt64
                observedAt := head.observedBits.toInt64
                sequence := head.sequence
                exchangeTimeNs := exchangeTimeNs
                channel := channel
                payload := payload }

/-! ### The encoder accepts valid records -/

theorem encodeInto_of_valid {record : RawMarketRecord} (h : record.Valid) :
    encodeInto record = .ok (body record) := by
  rw [encodeInto, if_pos (valid_iff.2 h)]

theorem encodeInto_of_not_valid {record : RawMarketRecord} (h : ¬record.Valid) :
    encodeInto record = .error .invalidRecord := by
  rw [encodeInto, if_neg (fun hvalid => h (valid_iff.1 hvalid))]

/-- Exactly the valid records are encoded. -/
theorem encodeInto_eq_ok_iff {record : RawMarketRecord} {bytes : List UInt8} :
    encodeInto record = .ok bytes ↔ record.Valid ∧ body record = bytes := by
  by_cases h : record.Valid
  · rw [encodeInto_of_valid h, Except.ok.injEq]
    exact (and_iff_right h).symm
  · rw [encodeInto_of_not_valid h]
    exact ⟨nofun, fun hvalid => absurd hvalid.1 h⟩

theorem length_exchangeTimeBytes_le (time : Option Int64) :
    1 ≤ (exchangeTimeBytes time).length ∧ (exchangeTimeBytes time).length ≤ 9 := by
  cases time <;> simp [exchangeTimeBytes]

theorem length_body (record : RawMarketRecord) :
    (body record).length = 52 + (exchangeTimeBytes record.exchangeTimeNs).length +
      record.channel.length + record.payload.length := by
  simp only [body, List.length_append, length_littleEndian]
  omega

/-- A body is never too small or too large for a frame. -/
theorem length_body_bounds {record : RawMarketRecord} (h : record.Valid) :
    minimumRecordBytes ≤ (body record).length ∧ (body record).length ≤ maximumRecordBytes := by
  have htime := length_exchangeTimeBytes_le record.exchangeTimeNs
  have hchannel := h.channel_le
  have hpayload := h.payload_le
  simp only [maximumChannelBytes, maximumPayloadBytes] at hchannel hpayload
  rw [length_body, minimumRecordBytes, maximumRecordBytes]
  exact ⟨by omega, by omega⟩

/-! ### An encoded record is decoded -/

@[simp] theorem takeUInt32_append (value : UInt32) (rest : List UInt8) :
    takeUInt32 (littleEndian 4 value.toNat ++ rest) = some (value, rest) := by
  have hlt : value.toNat < 256 ^ 4 := value.toNat_lt
  simp only [takeUInt32, takeUnsigned_append hlt, Option.map_some, UInt32.ofNat_toNat]

@[simp] theorem takeUInt64_append (value : UInt64) (rest : List UInt8) :
    takeUInt64 (littleEndian 8 value.toNat ++ rest) = some (value, rest) := by
  have hlt : value.toNat < 256 ^ 8 := value.toNat_lt
  simp only [takeUInt64, takeUnsigned_append hlt, Option.map_some, UInt64.ofNat_toNat]

/-- The flag that stands before the optional time. -/
def flagOf (time : Option Int64) : ℕ := if time.isSome then 1 else 0

/-- The bytes of the optional time without its flag. -/
def timeBytes : Option Int64 → List UInt8
  | none => []
  | some time => littleEndian 8 time.toUInt64.toNat

theorem exchangeTimeBytes_eq (time : Option Int64) :
    exchangeTimeBytes time = littleEndian 1 (flagOf time) ++ timeBytes time := by
  cases time <;> simp [exchangeTimeBytes, flagOf, timeBytes]

theorem flagOf_le (time : Option Int64) : flagOf time ≤ 1 := by
  cases time <;> simp [flagOf]

theorem takeExchangeTime_append (time : Option Int64) (rest : List UInt8) :
    takeExchangeTime (flagOf time) (timeBytes time ++ rest) = some (time, rest) := by
  cases time with
  | none => simp [takeExchangeTime, flagOf, timeBytes]
  | some time => simp [takeExchangeTime, flagOf, timeBytes]

theorem takeSizes_append {channelSize payloadSize : ℕ} (hchannel : channelSize < 2 ^ 32)
    (hpayload : payloadSize < 2 ^ 32) (rest : List UInt8) :
    takeSizes (littleEndian 4 channelSize ++ (littleEndian 4 payloadSize ++ rest)) =
      some (channelSize, payloadSize, rest) := by
  simp [takeSizes, takeUnsigned_append (show channelSize < 256 ^ 4 from hchannel),
    takeUnsigned_append (show payloadSize < 256 ^ 4 from hpayload)]

theorem takeText_append {channel payload : List UInt8} (hchannel : 0 < channel.length)
    (hchannelLe : channel.length ≤ maximumChannelBytes) (hpayload : 0 < payload.length)
    (hpayloadLe : payload.length ≤ maximumPayloadBytes) :
    takeText channel.length payload.length (channel ++ payload) = some (channel, payload) := by
  have hwithin : ¬(channel.length = 0 ∨ maximumChannelBytes < channel.length ∨
      payload.length = 0 ∨ maximumPayloadBytes < payload.length ∨
      (channel ++ payload).length ≠ channel.length + payload.length) := by
    rw [List.length_append]
    omega
  have hrest := takeBytes_append payload []
  rw [List.append_nil] at hrest
  rw [takeText, if_neg hwithin]
  simp [hrest]

/-- **An encoded record is decoded.** -/
theorem decode_body {record : RawMarketRecord} (h : record.Valid) (recordIndex : ℕ) :
    decode (body record) recordIndex = .ok record := by
  have hchannel := h.channel_le
  have hpayload := h.payload_le
  simp only [maximumChannelBytes, maximumPayloadBytes] at hchannel hpayload
  have hchannelMod : record.channel.length % 2 ^ 32 = record.channel.length :=
    Nat.mod_eq_of_lt (by omega)
  have hpayloadMod : record.payload.length % 2 ^ 32 = record.payload.length :=
    Nat.mod_eq_of_lt (by omega)
  have hflag : flagOf record.exchangeTimeNs < 256 ^ 1 := by
    have := flagOf_le record.exchangeTimeNs
    omega
  have hhead : takeHead (body record) = some (
      ⟨record.schemaVersion, record.metadataVersion, record.connectionGeneration,
        record.receivedAt.toUInt64, record.observedAt.toUInt64, record.sequence,
        flagOf record.exchangeTimeNs⟩,
      timeBytes record.exchangeTimeNs ++ (littleEndian 4 record.channel.length ++
        (littleEndian 4 record.payload.length ++ (record.channel ++ record.payload)))) := by
    rw [body, hchannelMod, hpayloadMod, exchangeTimeBytes_eq]
    simp [takeHead, takeUnsigned_append hflag, List.append_assoc]
  have hsizes := takeSizes_append (show record.channel.length < 2 ^ 32 by omega)
    (show record.payload.length < 2 ^ 32 by omega) (record.channel ++ record.payload)
  have htext := takeText_append h.channel_pos h.channel_le h.payload_pos h.payload_le
  simp only [decode, hhead, takeExchangeTime_append, hsizes, htext, h.schemaVersion, ne_eq,
    not_true_eq_false, if_false, h.metadataVersion, h.connectionGeneration, or_self,
    if_neg (Nat.not_lt.2 (flagOf_le record.exchangeTimeNs)), Int64.toInt64_toUInt64]
  rw [← h.schemaVersion]

end EventMarket.Journal
