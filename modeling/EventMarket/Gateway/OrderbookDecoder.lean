import EventMarket.Foundations.Run
import EventMarket.Gateway.Json
import EventMarket.Gateway.MarketRegistry

/-!
# Decoding order book messages

An order book message of the venue is a JSON object with the stream, the sequence and the ticker of
its market. Prices and quantities stay texts here.

## Main definitions

* `WireOrderBookSnapshot`, `WireOrderBookDelta`: the messages.
* `DecodeError`: an error with the field it names.
* `decodeOrderbookJson`: the decoder.

## Main results

* `decodeOrderbookJson_spec`: a decoded message is of the type, the market and the generation that
  it was decoded from.
-/

namespace EventMarket.Gateway

open Foundations Market

inductive OutcomeSide where
  | yes
  | no
  deriving DecidableEq, Repr

structure WirePriceLevel where
  priceDollars : String
  quantityFp : String
  deriving DecidableEq, Repr

structure WireOrderBookSnapshot where
  marketId : MarketId
  connectionGeneration : ℕ
  streamId : ℕ
  sequence : ℕ
  receivedAt : ℤ
  yesBids : List WirePriceLevel
  noBids : List WirePriceLevel
  deriving DecidableEq, Repr

structure WireOrderBookDelta where
  marketId : MarketId
  connectionGeneration : ℕ
  streamId : ℕ
  sequence : ℕ
  receivedAt : ℤ
  outcomeSide : OutcomeSide
  priceDollars : String
  quantityDeltaFp : String
  deriving DecidableEq, Repr

inductive DecodeErrorCode where
  | invalidJson
  | invalidRoot
  | missingField
  | invalidFieldType
  | invalidFieldValue
  | invalidLevel
  | unknownMarket
  | unsupportedMessageType
  deriving DecidableEq, Repr

structure DecodeError where
  code : DecodeErrorCode
  field : String
  deriving DecidableEq, Repr

inductive WireMessage where
  | snapshot (snapshot : WireOrderBookSnapshot)
  | delta (delta : WireOrderBookDelta)
  deriving DecidableEq, Repr

abbrev DecodedOrderBookMessage : Type := Except DecodeError WireMessage

/-! ### Fields -/

def readUnsigned (object : Json) (name : String) : Except DecodeError ℕ :=
  match object.find name with
  | none => .error ⟨.missingField, name⟩
  | some (.unsigned value) => .ok value
  | some _ => .error ⟨.invalidFieldType, name⟩

def readString (object : Json) (name : String) : Except DecodeError String :=
  match object.find name with
  | none => .error ⟨.missingField, name⟩
  | some (.string value) => .ok value
  | some _ => .error ⟨.invalidFieldType, name⟩

/-- A level is a pair of texts. -/
def readLevel (name : String) : Json → Except DecodeError WirePriceLevel
  | .array [.string price, .string quantity] => .ok ⟨price, quantity⟩
  | _ => .error ⟨.invalidLevel, name⟩

/-- The levels of a side; an empty side may be left out when the protocol says so. -/
def readLevels (message : Json) (name : String) (allowOmittedEmptySides : Bool) :
    Except DecodeError (List WirePriceLevel) :=
  match message.find name with
  | none => if allowOmittedEmptySides then .ok [] else .error ⟨.missingField, name⟩
  | some (.array levels) => levels.mapM (readLevel name)
  | some _ => .error ⟨.invalidFieldType, name⟩

def readOutcomeSide (message : Json) : Except DecodeError OutcomeSide := do
  let side ← readString message "side"
  if side = "yes" then .ok .yes
  else if side = "no" then .ok .no
  else .error ⟨.invalidFieldValue, "side"⟩

/-- The object that holds the message. -/
def readMessage (root : Json) : Except DecodeError Json :=
  match root.find "msg" with
  | none => .error ⟨.missingField, "msg"⟩
  | some message => if message.isObject then .ok message else .error ⟨.invalidFieldType, "msg"⟩

/-- The market of the ticker. -/
def readMarket (message : Json) (markets : MarketRegistry) : Except DecodeError MarketId := do
  let ticker ← readString message "market_ticker"
  if ticker = "" then .error ⟨.invalidFieldValue, "market_ticker"⟩
  else
    match markets.findMarket ticker with
    | none => .error ⟨.unknownMarket, "market_ticker"⟩
    | some marketId => .ok marketId

/-! ### Messages -/

/-- The body of a message after its common fields were read. -/
def decodeBody (kind : String) (message : Json) (marketId : MarketId)
    (connectionGeneration streamId sequence : ℕ) (receivedAt : ℤ)
    (allowOmittedEmptySides : Bool) : DecodedOrderBookMessage :=
  if kind = "orderbook_snapshot" then do
    let yesBids ← readLevels message "yes_dollars_fp" allowOmittedEmptySides
    let noBids ← readLevels message "no_dollars_fp" allowOmittedEmptySides
    .ok (.snapshot ⟨marketId, connectionGeneration, streamId, sequence, receivedAt,
      yesBids, noBids⟩)
  else if kind = "orderbook_delta" then do
    let price ← readString message "price_dollars"
    let quantityDelta ← readString message "delta_fp"
    let side ← readOutcomeSide message
    .ok (.delta ⟨marketId, connectionGeneration, streamId, sequence, receivedAt, side, price,
      quantityDelta⟩)
  else .error ⟨.unsupportedMessageType, "type"⟩

/-- The common fields of a message, then its body. -/
def decodeFields (root : Json) (connectionGeneration : ℕ) (receivedAt : ℤ)
    (markets : MarketRegistry) (allowOmittedEmptySides : Bool) : DecodedOrderBookMessage := do
  let kind ← readString root "type"
  let streamId ← readUnsigned root "sid"
  let sequence ← readUnsigned root "seq"
  let message ← readMessage root
  let marketId ← readMarket message markets
  decodeBody kind message marketId connectionGeneration streamId sequence receivedAt
    allowOmittedEmptySides

def decodeOrderbookJson (root : Json) (connectionGeneration : ℕ) (receivedAt : ℤ)
    (markets : MarketRegistry) (allowOmittedEmptySides : Bool) : DecodedOrderBookMessage :=
  if connectionGeneration = 0 then .error ⟨.invalidFieldValue, "connection_generation"⟩
  else if !root.isObject then .error ⟨.invalidRoot, "$"⟩
  else decodeFields root connectionGeneration receivedAt markets allowOmittedEmptySides

/-! ### What is decoded -/

def WireMessage.marketId : WireMessage → MarketId
  | .snapshot wire => wire.marketId
  | .delta wire => wire.marketId

def WireMessage.streamId : WireMessage → ℕ
  | .snapshot wire => wire.streamId
  | .delta wire => wire.streamId

def WireMessage.connectionGeneration : WireMessage → ℕ
  | .snapshot wire => wire.connectionGeneration
  | .delta wire => wire.connectionGeneration

/-- The type of a message. -/
def WireMessage.kind : WireMessage → String
  | .snapshot _ => "orderbook_snapshot"
  | .delta _ => "orderbook_delta"

theorem readString_eq_ok {object : Json} {name value : String}
    (h : readString object name = .ok value) : object.find name = some (.string value) := by
  unfold readString at h
  split at h
  · cases h
  · rename_i other heq
    obtain rfl := Except.ok.inj h
    exact heq
  · cases h

theorem readUnsigned_eq_ok {object : Json} {name : String} {value : ℕ}
    (h : readUnsigned object name = .ok value) : object.find name = some (.unsigned value) := by
  unfold readUnsigned at h
  split at h
  · cases h
  · rename_i other heq
    obtain rfl := Except.ok.inj h
    exact heq
  · cases h

theorem decodeBody_spec {kind : String} {body : Json} {marketId : MarketId}
    {connectionGeneration streamId sequence : ℕ} {receivedAt : ℤ} {allow : Bool}
    {message : WireMessage}
    (h : decodeBody kind body marketId connectionGeneration streamId sequence receivedAt allow =
      .ok message) :
    message.kind = kind ∧ message.marketId = marketId ∧ message.streamId = streamId ∧
      message.connectionGeneration = connectionGeneration := by
  unfold decodeBody at h
  split_ifs at h with hsnapshot hdelta
  · obtain ⟨yesBids, -, h⟩ := bind_eq_ok h
    obtain ⟨noBids, -, h⟩ := bind_eq_ok h
    obtain rfl := Except.ok.inj h
    exact ⟨hsnapshot.symm, rfl, rfl, rfl⟩
  · obtain ⟨price, -, h⟩ := bind_eq_ok h
    obtain ⟨quantityDelta, -, h⟩ := bind_eq_ok h
    obtain ⟨side, -, h⟩ := bind_eq_ok h
    obtain rfl := Except.ok.inj h
    exact ⟨hdelta.symm, rfl, rfl, rfl⟩

/-- **What is decoded.** A decoded message is of the type, the stream, the market and the
generation that it was decoded from. -/
theorem decodeOrderbookJson_spec {root : Json} {connectionGeneration : ℕ} {receivedAt : ℤ}
    {markets : MarketRegistry} {allow : Bool} {message : WireMessage}
    (h : decodeOrderbookJson root connectionGeneration receivedAt markets allow = .ok message) :
    root.find "type" = some (.string message.kind) ∧
      root.find "sid" = some (.unsigned message.streamId) ∧
      message.connectionGeneration = connectionGeneration ∧
      ∃ body ticker, root.find "msg" = some body ∧
        body.find "market_ticker" = some (.string ticker) ∧
        markets.findMarket ticker = some message.marketId := by
  unfold decodeOrderbookJson at h
  split_ifs at h
  unfold decodeFields at h
  obtain ⟨kind, hkind, h⟩ := bind_eq_ok h
  obtain ⟨streamId, hstream, h⟩ := bind_eq_ok h
  obtain ⟨sequence, -, h⟩ := bind_eq_ok h
  obtain ⟨body, hbody, h⟩ := bind_eq_ok h
  obtain ⟨marketId, hmarket, h⟩ := bind_eq_ok h
  obtain ⟨rfl, rfl, rfl, rfl⟩ := decodeBody_spec h
  refine ⟨readString_eq_ok hkind, readUnsigned_eq_ok hstream, rfl, body, ?_⟩
  have hfound : root.find "msg" = some body := by
    unfold readMessage at hbody
    split at hbody
    · cases hbody
    · rename_i found heq
      split_ifs at hbody
      obtain rfl := Except.ok.inj hbody
      exact heq
  unfold readMarket at hmarket
  obtain ⟨ticker, hticker, hmarket⟩ := bind_eq_ok hmarket
  split_ifs at hmarket
  split at hmarket
  · cases hmarket
  · rename_i found heq
    obtain rfl := Except.ok.inj hmarket
    exact ⟨ticker, hfound, readString_eq_ok hticker, heq⟩

end EventMarket.Gateway
