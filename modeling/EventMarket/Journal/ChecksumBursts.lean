import EventMarket.Foundations.CyclicCode
import EventMarket.Journal.RawJournal

/-!
# The checksum and what it detects

The checksum of the journal runs byte by byte over a table. It is the CRC-32 with the reflected
polynomial, bit by bit, and it tells two bodies apart that differ within four consecutive bytes.

## Main definitions

* `crcPolynomial`, `serialChecksum`: the checksum bit by bit.
* `Burst`: a corruption within four consecutive bytes.

## Main results

* `checksum_eq_serial`: the table computes the checksum bit by bit.
* `checksum_ne_of_burst`: a burst changes the checksum.
* `readAll_burst`: the reader stops at a body with a burst.
-/

namespace EventMarket.Journal

open EventMarket.Foundations

/-! ### The checksum bit by bit -/

/-- The reflected polynomial of the CRC-32. -/
def crcPolynomial : BitVec 32 := 0xedb88320#32

/-- The bits of the bytes, the lowest of each byte first. -/
def bitStream (bytes : List UInt8) : List Bool :=
  bytes.flatMap fun byte => bitsOf 8 byte.toNat

/-- The CRC-32 bit by bit: the register starts with ones and is inverted in the end. -/
def serialChecksum (bytes : List UInt8) : BitVec 32 :=
  ~~~ feedAll crcPolynomial (bitStream bytes) (BitVec.allOnes 32)

@[simp] theorem bitStream_nil : bitStream [] = [] := rfl

@[simp] theorem bitStream_cons (byte : UInt8) (bytes : List UInt8) :
    bitStream (byte :: bytes) = bitsOf 8 byte.toNat ++ bitStream bytes := rfl

@[simp] theorem bitStream_append (bytes more : List UInt8) :
    bitStream (bytes ++ more) = bitStream bytes ++ bitStream more :=
  List.flatMap_append

@[simp] theorem length_bitStream (bytes : List UInt8) :
    (bitStream bytes).length = 8 * bytes.length := by
  induction bytes with
  | nil => rfl
  | cons byte bytes ih =>
    rw [bitStream_cons, List.length_append, length_bitsOf, ih, List.length_cons]
    ring

theorem ofBits_byte (byte : UInt8) : ofBits (bitsOf 8 byte.toNat) = byte.toNat :=
  ofBits_bitsOf byte.toNat_lt

/-- Different bytes have different bits. -/
theorem bitStream_injective {bytes more : List UInt8} (hlength : bytes.length = more.length)
    (h : bitStream bytes = bitStream more) : bytes = more := by
  induction bytes generalizing more with
  | nil => exact (List.eq_nil_of_length_eq_zero hlength.symm).symm
  | cons byte bytes ih =>
    cases more with
    | nil => cases hlength
    | cons other more =>
      obtain ⟨hbyte, hrest⟩ := List.append_inj h (by simp)
      have hvalue := congrArg ofBits hbyte
      rw [ofBits_byte, ofBits_byte] at hvalue
      rw [UInt8.toNat_inj.mp hvalue, ih (Nat.succ.inj hlength) hrest]

/-! ### The table -/

theorem crcBit_toBitVec (value : UInt32) :
    (crcBit value).toBitVec = shift crcPolynomial value.toBitVec := by
  have hlow : (value &&& 1).toBitVec =
      BitVec.setWidth 32 (BitVec.ofBool (value.toBitVec.getLsbD 0)) := by
    rw [UInt32.toBitVec_and]
    exact BitVec.and_one_eq_setWidth_ofBool_getLsbD
  unfold crcBit shift
  cases hbit : value.toBitVec.getLsbD 0 with
  | false =>
    have hzero : value &&& 1 = 0 := UInt32.toBitVec_inj.mp (by rw [hlow, hbit]; rfl)
    rw [if_neg (not_not.mpr hzero), if_neg Bool.false_ne_true, UInt32.toBitVec_shiftRight]
    rfl
  | true =>
    have hone : value &&& 1 ≠ 0 := fun hzero => by
      rw [hzero, hbit] at hlow
      exact absurd hlow (by decide)
    rw [if_pos hone, if_pos rfl, UInt32.toBitVec_xor, UInt32.toBitVec_shiftRight]
    rfl

theorem crcTable_toBitVec (index : UInt32) :
    (crcTable index).toBitVec = (shift crcPolynomial)^[8] index.toBitVec := by
  unfold crcTable
  exact Function.Semiconj.iterate_right crcBit_toBitVec 8 index

/-- A byte from the table is eight bits. -/
theorem crcStep_toBitVec (crc : UInt32) (byte : UInt8) :
    (crcStep crc byte).toBitVec =
      feedAll crcPolynomial (bitsOf 8 byte.toNat) crc.toBitVec := by
  have hbyte : byte.toUInt32.toBitVec = BitVec.ofNat 32 byte.toNat := by
    have hlt := byte.toNat_lt
    apply BitVec.eq_of_toNat_eq
    rw [BitVec.toNat_ofNat, Nat.mod_eq_of_lt (by omega)]
    simp
  have hshift : (crc ^^^ byte.toUInt32).toBitVec >>> 8 = crc.toBitVec >>> 8 := by
    have hgone : byte.toUInt32.toBitVec >>> 8 = 0#32 := by
      have hlt := byte.toNat_lt
      apply BitVec.eq_of_toNat_eq
      rw [hbyte, BitVec.toNat_ushiftRight, BitVec.toNat_ofNat, Nat.mod_eq_of_lt (by omega),
        Nat.shiftRight_eq_div_pow]
      simp
      omega
    rw [UInt32.toBitVec_xor, BitVec.ushiftRight_xor_distrib, hgone, BitVec.xor_zero]
  have hmask : ((crc ^^^ byte.toUInt32) &&& 0xff).toBitVec =
      BitVec.ofNat 32 ((crc ^^^ byte.toUInt32).toBitVec.toNat % 2 ^ 8) := by
    have hlow := Nat.and_two_pow_sub_one_eq_mod (crc ^^^ byte.toUInt32).toNat 8
    have hlt : (crc ^^^ byte.toUInt32).toNat % 2 ^ 8 < 2 ^ 32 := by omega
    apply BitVec.eq_of_toNat_eq
    rw [BitVec.toNat_ofNat, UInt32.toNat_toBitVec, UInt32.toNat_toBitVec, Nat.mod_eq_of_lt hlt,
      ← hlow]
    rfl
  rw [feedAll_eq_iterate crcPolynomial (by simp), length_bitsOf, ofBits_byte, ← hbyte,
    ← UInt32.toBitVec_xor, iterate_shift_split, hshift, ← hmask, ← crcTable_toBitVec, crcStep,
    UInt32.toBitVec_xor, UInt32.toBitVec_shiftRight]
  rfl

theorem foldl_crcStep (bytes : List UInt8) (crc : UInt32) :
    (bytes.foldl crcStep crc).toBitVec =
      feedAll crcPolynomial (bitStream bytes) crc.toBitVec := by
  induction bytes generalizing crc with
  | nil => rfl
  | cons byte bytes ih =>
    rw [List.foldl_cons, ih, crcStep_toBitVec, bitStream_cons, feedAll_append]

/-- **The table computes the checksum bit by bit.** -/
theorem checksum_eq_serial (bytes : List UInt8) :
    (checksum bytes).toBitVec = serialChecksum bytes := by
  rw [checksum, UInt32.toBitVec_not, foldl_crcStep, serialChecksum]
  rfl

/-! ### Bursts -/

/-- Two byte strings of one length that differ, and only within four consecutive bytes. -/
def Burst (bytes corrupted : List UInt8) : Prop :=
  ∃ before window other after, bytes = before ++ (window ++ after) ∧
    corrupted = before ++ (other ++ after) ∧ window.length = other.length ∧ window.length ≤ 4 ∧
    window ≠ other

theorem Burst.length_eq {bytes corrupted : List UInt8} (h : Burst bytes corrupted) :
    corrupted.length = bytes.length := by
  obtain ⟨before, window, other, after, rfl, rfl, hlength, -, -⟩ := h
  simp only [List.length_append, hlength]

/-- **A burst changes the checksum.** -/
theorem checksum_ne_of_burst {bytes corrupted : List UInt8} (h : Burst bytes corrupted) :
    checksum bytes ≠ checksum corrupted := by
  obtain ⟨before, window, other, after, rfl, rfl, hlength, hfour, hne⟩ := h
  have htop : crcPolynomial.getLsbD (32 - 1) = true := by decide
  intro heq
  have hregisters := congrArg UInt32.toBitVec heq
  rw [checksum_eq_serial, checksum_eq_serial, serialChecksum, serialChecksum,
    BitVec.not_inj] at hregisters
  simp only [bitStream_append, feedAll_append] at hregisters
  have hwindow := feedAll_injective htop _ hregisters
  have hbits : (bitStream window).length = (bitStream other).length := by
    rw [length_bitStream, length_bitStream, hlength]
  have hwidth : (bitStream window).length ≤ 32 := by
    rw [length_bitStream]
    omega
  exact hne (bitStream_injective hlength (feedAll_word_injective htop hwidth hbits hwindow))

/-- The frame of a record with another body in the place of its own. -/
def frameWith (record : RawMarketRecord) (stored : List UInt8) : List UInt8 :=
  littleEndian 4 (body record).length ++
    (stored ++ littleEndian 4 (checksum (body record)).toNat)

theorem readNext_burst {record : RawMarketRecord} (h : record.Valid) {corrupted : List UInt8}
    (hburst : Burst (body record) corrupted) (recordsRead : ℕ) (rest : List UInt8) :
    readNext recordsRead (frameWith record corrupted ++ rest) =
      .stop (.error ⟨.checksumMismatch, recordsRead⟩) := by
  rw [frameWith, List.append_assoc, List.append_assoc, readNext_of_size h, ← hburst.length_eq]
  simp only [takeBytes_append, takeUInt32_append]
  rw [if_pos (checksum_ne_of_burst hburst)]

/-- **The reader stops at a body with a burst**, whatever comes before and after it. -/
theorem readAll_burst {records : List RawMarketRecord} (hrecords : ∀ record ∈ records, record.Valid)
    {record : RawMarketRecord} (h : record.Valid) {corrupted : List UInt8}
    (hburst : Burst (body record) corrupted) (recordsRead : ℕ) (rest : List UInt8) :
    journalReader.readAll recordsRead
        (frames frame records ++ (frameWith record corrupted ++ rest)) =
      (records, .error ⟨.checksumMismatch, recordsRead + records.length⟩) := by
  induction records generalizing recordsRead with
  | nil => exact Reader.readAll_of_stop (readNext_burst h hburst recordsRead rest)
  | cons first records ih =>
    obtain ⟨hfirst, hrest⟩ := List.forall_mem_cons.mp hrecords
    rw [frames_cons, List.append_assoc,
      Reader.readAll_of_item (readNext_frame hfirst recordsRead _), ih hrest, List.length_cons,
      Nat.add_assoc, Nat.add_comm 1]

/-- **The checksum is the CRC-32, and it detects bursts.** It is the checksum bit by bit for all
byte strings. Bodies that differ within four consecutive bytes have different checksums, and the
reader of a journal reports the mismatch for the stored body of any record. -/
theorem checksum_detects_bursts :
    (∀ bytes, (checksum bytes).toBitVec = serialChecksum bytes) ∧
    (∀ bytes corrupted, Burst bytes corrupted → checksum bytes ≠ checksum corrupted) ∧
    ∀ (records : List RawMarketRecord) (record : RawMarketRecord) (corrupted rest : List UInt8),
      (∀ stored ∈ records, stored.Valid) → record.Valid → Burst (body record) corrupted →
      readJournal (some (fileHeader ++
          (frames frame records ++ (frameWith record corrupted ++ rest)))) =
        .ok (records, .error ⟨.checksumMismatch, records.length⟩) := by
  refine ⟨checksum_eq_serial, fun _ _ => checksum_ne_of_burst, ?_⟩
  intro records record corrupted rest hrecords hrecord hburst
  have hread := readAll_burst hrecords hrecord hburst 0 rest
  rw [Nat.zero_add] at hread
  rw [readJournal_append, hread]

end EventMarket.Journal
