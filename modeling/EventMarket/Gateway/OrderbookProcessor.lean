import EventMarket.Gateway.OrderbookDecoder
import EventMarket.Journal.Codec

/-!
# Processing order book messages

A decoded message is normalized, which parses its prices and quantities, and applied to the books
of the connection. A recorded message must also agree with the envelope of its record.

## Main definitions

* `normalizeOrderbookSnapshot`, `normalizeOrderbookDelta`: the normalizer.
* `OrderBookProcessor.processDecoded`, `OrderBookProcessor.process`: the processor.

## Main results

* `OrderBookProcessor.processDecoded_cases`: the books stay as they are, or one event of the market
  of the message is applied to them.
-/

namespace EventMarket.Gateway

open Book Core Foundations Journal Market

inductive NormalizationError where
  | invalidPrice
  | invalidQuantity
  | zeroQuantity
  | zeroDelta
  deriving DecidableEq, Repr

inductive ProcessingError where
  | schemaVersionMismatch
  | metadataVersionMismatch
  | sequenceMismatch
  deriving DecidableEq, Repr

inductive ProcessingResult where
  | market (result : MarketApplyResult)
  | decode (error : DecodeError)
  | normalization (error : NormalizationError)
  | processing (error : ProcessingError)
  deriving DecidableEq, Repr

/-! ### Normalization -/

def normalizePrice (text : String) : Except NormalizationError Price :=
  match Price.parse text with
  | none => .error .invalidPrice
  | some price => .ok price

def normalizeLevel (wire : WirePriceLevel) : Except NormalizationError Level := do
  let price ← normalizePrice wire.priceDollars
  match Quantity.parse wire.quantityFp with
  | none => .error .invalidQuantity
  | some quantity => if quantity.raw = 0 then .error .zeroQuantity else .ok ⟨price, quantity⟩

def appendLevels (source : List WirePriceLevel) : Except NormalizationError (List Level) :=
  source.mapM normalizeLevel

def normalizeOrderbookSnapshot (wire : WireOrderBookSnapshot) :
    Except NormalizationError BookSnapshot := do
  let bids ← appendLevels wire.yesBids
  let asks ← appendLevels wire.noBids
  .ok {
    marketId := wire.marketId
    connectionGeneration := wire.connectionGeneration
    streamId := wire.streamId
    sequence := wire.sequence
    receivedAt := wire.receivedAt
    bids := bids
    asks := asks }

/-- The delta of a bid is one of YES, and that of an ask one of NO. -/
def normalizeOrderbookDelta (wire : WireOrderBookDelta) : Except NormalizationError BookDelta := do
  let price ← normalizePrice wire.priceDollars
  match QuantityDelta.parse wire.quantityDeltaFp with
  | none => .error .invalidQuantity
  | some quantityDelta =>
    if quantityDelta.raw = 0 then .error .zeroDelta
    else
      .ok {
        marketId := wire.marketId
        connectionGeneration := wire.connectionGeneration
        streamId := wire.streamId
        sequence := wire.sequence
        receivedAt := wire.receivedAt
        side := match wire.outcomeSide with
          | .yes => .bid
          | .no => .ask
        price := price
        quantityDelta := quantityDelta }

/-- The normalized event of a message. -/
def normalize : WireMessage → Except NormalizationError NormalizedMarketEvent
  | .snapshot wire => (normalizeOrderbookSnapshot wire).map .snapshot
  | .delta wire => (normalizeOrderbookDelta wire).map .delta

/-! ### Processing -/

structure OrderBookProcessor where
  markets : MarketRegistry
  state : MarketState
  lastMarketId : Option MarketId := none

/-- The market of an event. -/
def eventMarketId : NormalizedMarketEvent → MarketId
  | .snapshot snapshot => snapshot.marketId
  | .delta delta => delta.marketId

namespace OrderBookProcessor

def processDecoded (processor : OrderBookProcessor) (message : DecodedOrderBookMessage) :
    OrderBookProcessor × ProcessingResult :=
  match message with
  | .error error => ({ processor with lastMarketId := none }, .decode error)
  | .ok wire =>
    match normalize wire with
    | .error error => ({ processor with lastMarketId := none }, .normalization error)
    | .ok event =>
      let (state, result) := processor.state.apply event
      ({ processor with state, lastMarketId := some (eventMarketId event) }, .market result)

/-- Decode a recorded message without the protocol of a feed. -/
def decodeOrderbookMessage (library : JsonLibrary) (payload : List UInt8)
    (connectionGeneration : ℕ) (receivedAt : ℤ) (markets : MarketRegistry) :
    DecodedOrderBookMessage :=
  if connectionGeneration = 0 then .error ⟨.invalidFieldValue, "connection_generation"⟩
  else
    match (library.parse payload).value with
    | none => .error ⟨.invalidJson, "$"⟩
    | some root => decodeOrderbookJson root connectionGeneration receivedAt markets false

/-- The sequence of a decoded message. -/
def sequenceOf : WireMessage → ℕ
  | .snapshot wire => wire.sequence
  | .delta wire => wire.sequence

/-- A record is processed when its envelope agrees with its message. -/
def process (library : JsonLibrary) (processor : OrderBookProcessor) (record : RawMarketRecord) :
    OrderBookProcessor × ProcessingResult :=
  let reset := { processor with lastMarketId := none }
  if record.schemaVersion ≠ currentSchemaVersion then
    (reset, .processing .schemaVersionMismatch)
  else if record.metadataVersion.toNat ≠ processor.markets.metadataVersion then
    (reset, .processing .metadataVersionMismatch)
  else
    match decodeOrderbookMessage library record.payload record.connectionGeneration.toNat
      record.receivedAt.toInt processor.markets with
    | .error error => (reset, .decode error)
    | .ok wire =>
      if sequenceOf wire ≠ record.sequence.toNat then (reset, .processing .sequenceMismatch)
      else reset.processDecoded (.ok wire)

/-! ### What processing does -/

theorem normalizeOrderbookSnapshot_spec {wire : WireOrderBookSnapshot} {event : BookSnapshot}
    (h : normalizeOrderbookSnapshot wire = .ok event) :
    event.marketId = wire.marketId ∧
      event.connectionGeneration = wire.connectionGeneration := by
  unfold normalizeOrderbookSnapshot at h
  obtain ⟨bids, -, h⟩ := bind_eq_ok h
  obtain ⟨asks, -, h⟩ := bind_eq_ok h
  obtain rfl := Except.ok.inj h
  exact ⟨rfl, rfl⟩

theorem normalizeOrderbookDelta_spec {wire : WireOrderBookDelta} {event : BookDelta}
    (h : normalizeOrderbookDelta wire = .ok event) :
    event.marketId = wire.marketId ∧
      event.connectionGeneration = wire.connectionGeneration := by
  unfold normalizeOrderbookDelta at h
  obtain ⟨price, -, h⟩ := bind_eq_ok h
  split at h
  · cases h
  · split_ifs at h
    obtain rfl := Except.ok.inj h
    exact ⟨rfl, rfl⟩

@[simp] theorem processDecoded_markets (processor : OrderBookProcessor)
    (message : DecodedOrderBookMessage) :
    (processor.processDecoded message).1.markets = processor.markets := by
  unfold processDecoded
  split
  · rfl
  · split <;> rfl

/-- **What processing does.** The books stay as they are, or one event of the type, the market and
the generation of the message is applied to them. -/
theorem processDecoded_cases (processor : OrderBookProcessor) (message : DecodedOrderBookMessage) :
    ((processor.processDecoded message).1.state = processor.state ∧
      (processor.processDecoded message).2 ≠ .market (.book .applied)) ∨
    (∃ wire snapshot, message = .ok (.snapshot wire) ∧ snapshot.marketId = wire.marketId ∧
      snapshot.connectionGeneration = wire.connectionGeneration ∧
      (processor.processDecoded message).1.state = (processor.state.applySnapshot snapshot).1 ∧
      (processor.processDecoded message).2 = .market (processor.state.applySnapshot snapshot).2) ∨
    ∃ wire delta, message = .ok (.delta wire) ∧ delta.marketId = wire.marketId ∧
      delta.connectionGeneration = wire.connectionGeneration ∧
      (processor.processDecoded message).1.state = (processor.state.applyDelta delta).1 ∧
      (processor.processDecoded message).2 = .market (processor.state.applyDelta delta).2 := by
  cases message with
  | error error => exact Or.inl ⟨rfl, nofun⟩
  | ok wire =>
    cases wire with
    | snapshot wire =>
      cases hnormal : normalizeOrderbookSnapshot wire with
      | error error =>
        refine Or.inl ?_
        simp [processDecoded, normalize, hnormal, Except.map]
      | ok snapshot =>
        obtain ⟨hmarket, hgeneration⟩ := normalizeOrderbookSnapshot_spec hnormal
        refine Or.inr (Or.inl ⟨wire, snapshot, rfl, hmarket, hgeneration, ?_⟩)
        simp [processDecoded, normalize, hnormal, Except.map, MarketState.apply]
    | delta wire =>
      cases hnormal : normalizeOrderbookDelta wire with
      | error error =>
        refine Or.inl ?_
        simp [processDecoded, normalize, hnormal, Except.map]
      | ok delta =>
        obtain ⟨hmarket, hgeneration⟩ := normalizeOrderbookDelta_spec hnormal
        refine Or.inr (Or.inr ⟨wire, delta, rfl, hmarket, hgeneration, ?_⟩)
        simp [processDecoded, normalize, hnormal, Except.map, MarketState.apply]

end OrderBookProcessor

end EventMarket.Gateway
