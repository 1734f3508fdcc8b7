import EventMarket.Journal.Codec

/-!
# The codec is a bijection

The decoder accepts exactly the bodies that the encoder writes, and gives back their records. So a
record has one body only, and any other byte string is refused.

## Main results

* `body_of_decode`: a body that is decoded was written by the encoder.
* `codec_bijection`: the valid records and the accepted bodies correspond to each other.
-/

namespace EventMarket.Journal

open EventMarket.Foundations

/-! ### What the fields were read from -/

theorem eq_of_takeUInt32 {value : UInt32} {bytes rest : List UInt8}
    (h : takeUInt32 bytes = some (value, rest)) : bytes = littleEndian 4 value.toNat ++ rest := by
  obtain ⟨⟨number, left⟩, htaken, heq⟩ := Option.map_eq_some_iff.mp h
  obtain ⟨rfl, rfl⟩ := Prod.mk.inj heq
  obtain ⟨hlt, rfl⟩ := eq_of_takeUnsigned htaken
  rw [UInt32.toNat_ofNat_of_lt' hlt]

theorem eq_of_takeUInt64 {value : UInt64} {bytes rest : List UInt8}
    (h : takeUInt64 bytes = some (value, rest)) : bytes = littleEndian 8 value.toNat ++ rest := by
  obtain ⟨⟨number, left⟩, htaken, heq⟩ := Option.map_eq_some_iff.mp h
  obtain ⟨rfl, rfl⟩ := Prod.mk.inj heq
  obtain ⟨hlt, rfl⟩ := eq_of_takeUnsigned htaken
  rw [UInt64.toNat_ofNat_of_lt' hlt]

theorem eq_of_takeHead {head : Head} {bytes rest : List UInt8}
    (h : takeHead bytes = some (head, rest)) :
    bytes = littleEndian 4 head.schemaVersion.toNat ++ (littleEndian 8 head.metadataVersion.toNat ++
      (littleEndian 8 head.generation.toNat ++ (littleEndian 8 head.receivedBits.toNat ++
      (littleEndian 8 head.observedBits.toNat ++ (littleEndian 8 head.sequence.toNat ++
      (littleEndian 1 head.flags ++ rest)))))) := by
  unfold takeHead at h
  obtain ⟨⟨schemaVersion, bytes₁⟩, hschema, h⟩ := Option.bind_eq_some_iff.mp h
  obtain ⟨⟨metadataVersion, bytes₂⟩, hmetadata, h⟩ := Option.bind_eq_some_iff.mp h
  obtain ⟨⟨generation, bytes₃⟩, hgeneration, h⟩ := Option.bind_eq_some_iff.mp h
  obtain ⟨⟨receivedBits, bytes₄⟩, hreceived, h⟩ := Option.bind_eq_some_iff.mp h
  obtain ⟨⟨observedBits, bytes₅⟩, hobserved, h⟩ := Option.bind_eq_some_iff.mp h
  obtain ⟨⟨sequence, bytes₆⟩, hsequence, h⟩ := Option.bind_eq_some_iff.mp h
  obtain ⟨⟨flags, bytes₇⟩, hflags, h⟩ := Option.bind_eq_some_iff.mp h
  obtain ⟨rfl, rfl⟩ := Prod.mk.inj (Option.some.inj h)
  dsimp only at hschema hmetadata hgeneration hreceived hobserved hsequence hflags ⊢
  rw [eq_of_takeUInt32 hschema, eq_of_takeUInt64 hmetadata, eq_of_takeUInt64 hgeneration,
    eq_of_takeUInt64 hreceived, eq_of_takeUInt64 hobserved, eq_of_takeUInt64 hsequence,
    (eq_of_takeUnsigned hflags).2]

theorem eq_of_takeExchangeTime {flags : ℕ} (hflags : ¬1 < flags) {time : Option Int64}
    {bytes rest : List UInt8} (h : takeExchangeTime flags bytes = some (time, rest)) :
    flags = flagOf time ∧ bytes = timeBytes time ++ rest := by
  unfold takeExchangeTime at h
  split_ifs at h with hpresent
  · obtain ⟨⟨bits, left⟩, hbits, heq⟩ := Option.map_eq_some_iff.mp h
    obtain ⟨rfl, rfl⟩ := Prod.mk.inj heq
    refine ⟨hpresent, ?_⟩
    rw [eq_of_takeUInt64 hbits, timeBytes, UInt64.toUInt64_toInt64]
  · obtain ⟨rfl, rfl⟩ := Prod.mk.inj (Option.some.inj h)
    exact ⟨show flags = 0 by omega, rfl⟩

theorem eq_of_takeSizes {channelSize payloadSize : ℕ} {bytes rest : List UInt8}
    (h : takeSizes bytes = some (channelSize, payloadSize, rest)) :
    channelSize < 2 ^ 32 ∧ payloadSize < 2 ^ 32 ∧
      bytes = littleEndian 4 channelSize ++ (littleEndian 4 payloadSize ++ rest) := by
  unfold takeSizes at h
  obtain ⟨⟨channelSize, bytes₁⟩, hchannel, h⟩ := Option.bind_eq_some_iff.mp h
  obtain ⟨⟨payloadSize, bytes₂⟩, hpayload, h⟩ := Option.bind_eq_some_iff.mp h
  obtain ⟨rfl, hrest⟩ := Prod.mk.inj (Option.some.inj h)
  obtain ⟨rfl, rfl⟩ := Prod.mk.inj hrest
  obtain ⟨hchannelLt, rfl⟩ := eq_of_takeUnsigned hchannel
  obtain ⟨hpayloadLt, heq⟩ := eq_of_takeUnsigned hpayload
  exact ⟨hchannelLt, hpayloadLt, by rw [← heq]⟩

theorem eq_of_takeText {channelSize payloadSize : ℕ} {bytes channel payload : List UInt8}
    (h : takeText channelSize payloadSize bytes = some (channel, payload)) :
    channel.length = channelSize ∧ payload.length = payloadSize ∧ 0 < channelSize ∧
      channelSize ≤ maximumChannelBytes ∧ 0 < payloadSize ∧ payloadSize ≤ maximumPayloadBytes ∧
      bytes = channel ++ payload := by
  unfold takeText at h
  split_ifs at h with hrefused
  obtain ⟨⟨channel, bytes₁⟩, hchannel, h⟩ := Option.bind_eq_some_iff.mp h
  obtain ⟨⟨payload, bytes₂⟩, hpayload, h⟩ := Option.bind_eq_some_iff.mp h
  dsimp only at h
  split_ifs at h with hleft
  obtain ⟨rfl, rfl⟩ := Prod.mk.inj (Option.some.inj h)
  obtain ⟨hchannelLength, rfl⟩ := eq_of_takeBytes hchannel
  obtain ⟨hpayloadLength, heq⟩ := eq_of_takeBytes hpayload
  rw [List.eq_nil_of_length_eq_zero (not_not.mp hleft), List.append_nil] at heq
  exact ⟨hchannelLength, hpayloadLength, by omega, by omega, by omega, by omega,
    congrArg (channel ++ ·) heq⟩

/-! ### The bijection -/

/-- **A body that is decoded was written by the encoder.** -/
theorem body_of_decode {bytes : List UInt8} {recordIndex : ℕ} {record : RawMarketRecord}
    (h : decode bytes recordIndex = .ok record) : record.Valid ∧ body record = bytes := by
  unfold decode at h
  split at h
  · cases h
  case h_2 head bytes₁ hhead =>
    by_cases hschema : head.schemaVersion ≠ currentSchemaVersion
    · rw [if_pos hschema] at h
      cases h
    rw [if_neg hschema] at h
    by_cases hflags : 1 < head.flags
    · rw [if_pos hflags] at h
      cases h
    rw [if_neg hflags] at h
    split at h
    · cases h
    case h_2 exchangeTimeNs bytes₂ htime =>
      split at h
      · cases h
      case h_2 channelSize payloadSize bytes₃ hsizes =>
        split at h
        · cases h
        case h_2 channel payload htext =>
          split_ifs at h with hversions
          obtain rfl := Except.ok.inj h
          rw [not_or] at hversions
          obtain ⟨hflag, rfl⟩ := eq_of_takeExchangeTime hflags htime
          obtain ⟨hchannelLt, hpayloadLt, rfl⟩ := eq_of_takeSizes hsizes
          obtain ⟨hchannel, hpayload, hchannelPos, hchannelLe, hpayloadPos, hpayloadLe, rfl⟩ :=
            eq_of_takeText htext
          subst hchannel hpayload
          refine ⟨⟨not_not.mp hschema, hversions.1, hversions.2, hchannelPos, hchannelLe,
            hpayloadPos,
            hpayloadLe⟩, ?_⟩
          rw [eq_of_takeHead hhead, hflag, body, exchangeTimeBytes_eq, Nat.mod_eq_of_lt hchannelLt,
            Nat.mod_eq_of_lt hpayloadLt]
          simp only [UInt64.toUInt64_toInt64, List.append_assoc]

theorem decode_eq_ok_iff {bytes : List UInt8} {recordIndex : ℕ} {record : RawMarketRecord} :
    decode bytes recordIndex = .ok record ↔ encodeInto record = .ok bytes := by
  rw [encodeInto_eq_ok_iff]
  constructor
  · exact body_of_decode
  · rintro ⟨hvalid, rfl⟩
    exact decode_body hvalid recordIndex

/-- **The codec is a bijection.** Exactly the valid records are encoded, into bodies of sizes that
the reader admits. A body is decoded to a record if and only if the record is encoded into it, and
any other byte string is refused. -/
theorem codec_bijection (bytes : List UInt8) (recordIndex : ℕ) :
    (∀ record : RawMarketRecord, record.Valid ↔ ∃ encoded, encodeInto record = .ok encoded) ∧
    (∀ record, decode bytes recordIndex = .ok record ↔ encodeInto record = .ok bytes) ∧
    ((∃ error, decode bytes recordIndex = .error error) ↔
      ∀ record, encodeInto record ≠ .ok bytes) ∧
    ∀ record encoded, encodeInto record = .ok encoded →
      minimumRecordBytes ≤ encoded.length ∧ encoded.length ≤ maximumRecordBytes := by
  refine ⟨fun record => ?_, fun record => decode_eq_ok_iff, ?_, fun record encoded h => ?_⟩
  · exact ⟨fun h => ⟨_, encodeInto_of_valid h⟩, fun ⟨_, h⟩ => (encodeInto_eq_ok_iff.mp h).1⟩
  · constructor
    · rintro ⟨error, herror⟩ record hrecord
      have hdecoded : decode bytes recordIndex = .ok record := decode_eq_ok_iff.mpr hrecord
      rw [herror] at hdecoded
      cases hdecoded
    · intro hnone
      cases hdecoded : decode bytes recordIndex with
      | error error => exact ⟨error, rfl⟩
      | ok record => exact absurd (decode_eq_ok_iff.mp hdecoded) (hnone record)
  · obtain ⟨hvalid, rfl⟩ := encodeInto_eq_ok_iff.mp h
    exact length_body_bounds hvalid

end EventMarket.Journal
