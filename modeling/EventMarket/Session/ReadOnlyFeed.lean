import EventMarket.Gateway.OrderbookProcessor
import EventMarket.Session.StudyJson
import Mathlib.Data.List.Sort

/-!
# The read-only feed

A feed follows one connection to the venue through the journal. Control records say when a
connection is attempted, opened and closed and which subscription commands were sent; received
records hold the messages of the venue. The feed answers every record with an update. Anything
unexpected closes the books until a higher generation is attempted.

## Main definitions

* `FeedProtocol`, `FeedUpdate`: the protocols, and what the feed answers.
* `ReadOnlyFeed.create`: a feed of a selection of markets.
* `ReadOnlyFeed.accept`, `ReadOnlyFeed.abort`, `ReadOnlyFeed.ready`.
-/

namespace EventMarket.Session

open Core Foundations Gateway Journal Market

/-- An observed trade. The prices are those of YES. -/
structure PublicTrade where
  marketId : MarketId
  tradeId : String
  yesPrice : ℕ
  quantity : ℕ
  exchangeTimeMs : ℕ
  takerYes : Bool
  blockTrade : Option Bool
  deriving DecidableEq, Repr

inductive FeedEvent where
  | control
  | market
  | invalidated
  | invalidHistory
  | publicTrade
  deriving DecidableEq, Repr

structure FeedUpdate where
  event : FeedEvent := .control
  marketId : Option MarketId := none
  reason : String := "ok"
  trade : Option PublicTrade := none
  deriving DecidableEq, Repr

inductive FeedProtocol where
  | perMarketV1
  | sharedSubscriptionV1
  | bookAndTradesV1
  deriving DecidableEq, Repr

structure ReadOnlyFeed where
  processor : OrderBookProcessor
  protocol : FeedProtocol
  selection : List MarketId
  commands : List (List UInt8)
  acknowledged : List Bool
  subscriptions : Std.TreeMap ℕ MarketId := {}
  generation : ℕ := 0
  lastTime : ℤ := 0
  sent : ℕ := 0
  tradeSid : ℕ := 0
  tradeSequence : ℕ := 0
  attempting : Bool := false
  opened : Bool := false
  faulted : Bool := false

namespace ReadOnlyFeed

/-! ### The commands -/

/-- The subscription to the book of one market. -/
def marketCommand (id : ℕ) (ticker : String) : Json :=
  .object [("cmd", .string "subscribe"), ("id", .unsigned id),
    ("params", .object [("channels", .array [.string "orderbook_delta"]),
      ("market_ticker", .string ticker), ("use_yes_price", .boolean true)])]

/-- The subscription to the books of all markets. -/
def sharedCommand (tickers : List String) : Json :=
  .object [("cmd", .string "subscribe"), ("id", .unsigned 1),
    ("params", .object [("channels", .array [.string "orderbook_delta"]),
      ("market_tickers", .array (tickers.map .string)), ("use_yes_price", .boolean true)])]

/-- The subscription to the trades of all markets. -/
def tradeCommand (tickers : List String) : Json :=
  .object [("cmd", .string "subscribe"), ("id", .unsigned 2),
    ("params", .object [("channels", .array [.string "trade"]),
      ("market_tickers", .array (tickers.map .string))])]

def commandsOf (protocol : FeedProtocol) (tickers : List String) : List Json :=
  match protocol with
  | .perMarketV1 => tickers.zipIdx.map fun (ticker, index) => marketCommand (index + 1) ticker
  | .sharedSubscriptionV1 => [sharedCommand tickers]
  | .bookAndTradesV1 => [sharedCommand tickers, tradeCommand tickers]

/-- Two successive elements are equal. -/
def adjacentDuplicate : List MarketId → Bool
  | first :: second :: rest => first == second || adjacentDuplicate (second :: rest)
  | _ => false

/-- The ticker of every selected market. -/
def tickersOf (markets : MarketRegistry) (selection : List MarketId) :
    Except StudyException (List String) :=
  selection.mapM fun id =>
    match markets.findTicker id with
    | none => invalid "unknown capture market"
    | some ticker => .ok ticker

/-- A feed of 1 to 64 different known markets. -/
def create (library : JsonLibrary) (markets : MarketRegistry) (selection : List MarketId)
    (protocol : FeedProtocol) : Except StudyException ReadOnlyFeed :=
  if selection = [] ∨ 64 < selection.length then invalid
    "capture selection must contain 1..64 markets"
  else
    let selection := selection.insertionSort (· ≤ ·)
    if adjacentDuplicate selection then invalid "duplicate capture market"
    else do
      let tickers ← tickersOf markets selection
      let commands := (commandsOf protocol tickers).map library.dump
      .ok {
        processor :=
          { markets
            state := { scope := if protocol = .perMarketV1 then .perBook else .sharedStream } }
        protocol, selection, commands
        acknowledged := commands.map fun _ => false }

/-! ### Queries and failing -/

def state (feed : ReadOnlyFeed) : MarketState := feed.processor.state

def healthy (feed : ReadOnlyFeed) : Bool := feed.opened && !feed.faulted

def closed (feed : ReadOnlyFeed) : Bool := !feed.attempting

def ready (feed : ReadOnlyFeed) : Bool :=
  feed.healthy && feed.state.validBookCount == feed.selection.length &&
    feed.acknowledged.all fun value => value

def withState (feed : ReadOnlyFeed) (state : MarketState) : ReadOnlyFeed :=
  { feed with processor := { feed.processor with state } }

/-- Close the connection of the books when it is open. -/
def closeBooks (feed : ReadOnlyFeed) : ReadOnlyFeed :=
  if feed.state.connected then feed.withState (feed.state.closeConnection feed.generation).1
  else feed

def abort (feed : ReadOnlyFeed) : ReadOnlyFeed := { feed.closeBooks with faulted := true }

def fail (feed : ReadOnlyFeed) (reason : String) : ReadOnlyFeed × FeedUpdate :=
  (feed.abort, { event := .invalidated, reason })

/-- The input contradicts the history, and the feed fails. -/
def failHistory (feed : ReadOnlyFeed) (reason : String) : ReadOnlyFeed × FeedUpdate :=
  (feed.abort, { event := .invalidHistory, reason })

/-! ### Control records -/

/-- What every record of a feed must have. -/
def envelopeMismatch (feed : ReadOnlyFeed) (record : RawMarketRecord) : Bool :=
  record.schemaVersion != currentSchemaVersion ||
    record.metadataVersion.toNat != feed.processor.markets.metadataVersion ||
    record.sequence != 0 || record.exchangeTimeNs.isSome ||
    decide (record.receivedAt.toInt < feed.lastTime)

/-- A tick of the local clock. -/
def isClock (feed : ReadOnlyFeed) (record : RawMarketRecord) : Bool :=
  (record.channel == ascii "paper.clock.v1" || record.channel == ascii "basket.clock.v1") &&
    feed.protocol != .perMarketV1 && record.connectionGeneration.toNat == feed.generation &&
    feed.generation != 0 && record.payload == ascii "{}"

def acceptAttempt (feed : ReadOnlyFeed) (record : RawMarketRecord) : ReadOnlyFeed × FeedUpdate :=
  if feed.attempting ∨ record.connectionGeneration.toNat ≤ feed.generation then
    feed.failHistory "attempt order"
  else
    ({ feed with
      generation := record.connectionGeneration.toNat
      attempting := true
      opened := false
      faulted := false
      sent := 0
      tradeSid := 0
      tradeSequence := 0
      acknowledged := feed.acknowledged.map fun _ => false
      subscriptions := {} }, {})

def acceptClose (feed : ReadOnlyFeed) : ReadOnlyFeed × FeedUpdate :=
  ({ feed.closeBooks with attempting := false, opened := false }, {})

def acceptOpen (feed : ReadOnlyFeed) : ReadOnlyFeed × FeedUpdate :=
  if feed.opened ∨ feed.faulted then feed.fail "open order"
  else
    let (state, isOpen) := feed.state.openConnection feed.generation
    let feed := feed.withState state
    if isOpen then ({ feed with opened := true }, {}) else feed.fail "open order"

/-- A new subscription asks for new snapshots of stale books; whether each could be asked for. -/
def recover (state : MarketState) : List MarketId → MarketState × Bool
  | [] => (state, true)
  | id :: rest =>
    if (state.findBook id).isNone then recover state rest
    else
      let (state, begun) := state.beginRecovery id
      if begun then recover state rest else (state, false)

/-- The markets whose books the next command asks for. -/
def requestedMarkets (feed : ReadOnlyFeed) : List MarketId :=
  if feed.protocol = .perMarketV1 then (feed.selection[feed.sent]?).toList
  else if feed.sent = 0 then feed.selection
  else []

def acceptSend (feed : ReadOnlyFeed) (record : RawMarketRecord) : ReadOnlyFeed × FeedUpdate :=
  if feed.commands[feed.sent]? ≠ some record.payload then feed.fail "subscription command"
  else
    let (state, recovered) := recover feed.state feed.requestedMarkets
    let feed := feed.withState state
    if recovered then ({ feed with sent := feed.sent + 1 }, {})
    else feed.fail "recovery transition"

/-! ### Received records -/

/-- The outcome of a message; an exception leaves the feed as it was. -/
abbrev Received : Type := Except StudyException (ReadOnlyFeed × FeedUpdate)

/-- An acknowledgement on a channel of a command that was sent. -/
def acknowledgeOn (feed : ReadOnlyFeed) (channel : String) (id sid : ℕ) :
    ReadOnlyFeed × FeedUpdate :=
  let trade := feed.protocol = .bookAndTradesV1 ∧ id = 2
  if channel ≠ (if trade then "trade" else "orderbook_delta") ∨ sid ∈ feed.subscriptions then
    feed.fail "subscription acknowledgement"
  else
    let subscribed :=
      if feed.protocol = .perMarketV1 then feed.selection[id - 1]?.getD 0 else 0
    ({ feed with
      subscriptions := feed.subscriptions.insert sid subscribed
      acknowledged := feed.acknowledged.set (id - 1) true
      tradeSid := if trade then sid else feed.tradeSid }, {})

def acknowledge (feed : ReadOnlyFeed) (root msg : Json) (id sid : ℕ) : Received :=
  if id = 0 ∨ sid = 0 ∨ root.contains "seq" ∨ feed.acknowledged[id - 1]? = some true then
    .ok (feed.fail "subscription acknowledgement")
  else do
    let channel ← string msg "channel"
    .ok (feed.acknowledgeOn channel id sid)

def receiveSubscribed (feed : ReadOnlyFeed) (root : Json) : Received := do
  let id ← integer root "id" feed.sent
  let msg ← Json.fieldAt root "msg"
  let sid ← integer msg "sid" uint64Max
  feed.acknowledge root msg id sid

/-- An optional field that is there and differs from what is expected. -/
def differs (msg : Json) (field expected : String) : Except StudyException Bool :=
  if msg.contains field then do
    let text ← string msg field
    .ok (text != expected)
  else .ok false

/-- The time of a trade in milliseconds, which old messages give in seconds. -/
def tradeMillis (msg : Json) : Except StudyException ℕ :=
  if msg.contains "ts_ms" then integer msg "ts_ms"
  else do
    let seconds ← integer msg "ts" (uint64Max / 1000)
    .ok (seconds * 1000)

/-- The seconds of a trade, when they are given, do not agree with its milliseconds. -/
def secondsMismatch (msg : Json) (millis : ℕ) : Except StudyException Bool :=
  if msg.contains "ts" then do
    let seconds ← integer msg "ts"
    .ok (millis / 1000 != seconds)
  else .ok false

/-- The end of a trade message: the block flag, and the trade is emitted. -/
def emitTrade (feed : ReadOnlyFeed) (msg : Json) (sequence : ℕ) (trade : PublicTrade) :
    ReadOnlyFeed × FeedUpdate :=
  let emit (block : Option Bool) : ReadOnlyFeed × FeedUpdate :=
    ({ feed with tradeSequence := sequence },
      { event := .publicTrade
        marketId := some trade.marketId
        reason := "observed_trade"
        trade := some { trade with blockTrade := block } })
  match msg.find "is_block_trade" with
  | none => emit none
  | some (.boolean block) => emit (some block)
  | some _ => feed.fail "trade block flag"

/-- The fields of a trade after the first checks. -/
def tradeDetails (feed : ReadOnlyFeed) (msg : Json) (sequence : ℕ) (trade : PublicTrade)
    (side : String) : Received := do
  let takerDiffers ← differs msg "taker_side" side
  if takerDiffers then .ok (feed.fail "trade fields")
  else do
    let bookDiffers ← differs msg "taker_book_side" (if side = "yes" then "bid" else "ask")
    if bookDiffers then .ok (feed.fail "trade fields")
    else do
      let millis ← tradeMillis msg
      let mismatch ← secondsMismatch msg millis
      if mismatch then .ok (feed.fail "trade timestamp")
      else .ok (feed.emitTrade msg sequence { trade with exchangeTimeMs := millis })

/-- The fields of a trade. The prices of both outcomes must add up to one contract. -/
def tradeFields (feed : ReadOnlyFeed) (msg : Json) (sequence : ℕ) (marketId : MarketId) :
    Received := do
  let yesText ← string msg "yes_price_dollars"
  let noText ← string msg "no_price_dollars"
  let quantityText ← string msg "count_fp"
  let side ← string msg (if msg.contains "taker_outcome_side" then "taker_outcome_side"
    else "taker_side")
  let tradeId ← string msg "trade_id"
  match Price.parse yesText, Price.parse noText, Quantity.parse quantityText with
  | some yes, some no, some quantity =>
    if yes.raw + no.raw ≠ Price.scale ∨ quantity.raw = 0 ∨ 128 < tradeId.utf8ByteSize ∨
        (side ≠ "yes" ∧ side ≠ "no") then
      .ok (feed.fail "trade fields")
    else
      feed.tradeDetails msg sequence
        { marketId, tradeId, yesPrice := yes.raw, quantity := quantity.raw, exchangeTimeMs := 0
          takerYes := side == "yes", blockTrade := none } side
  | _, _, _ => .ok (feed.fail "trade fields")

/-- A trade comes on the acknowledged subscription with the next sequence. -/
def receiveTrade (feed : ReadOnlyFeed) (root : Json) : Received := do
  let sid ← integer root "sid" uint64Max
  let sequence ← integer root "seq" uint64Max
  if feed.tradeSid = 0 ∨ sid ≠ feed.tradeSid ∨ sequence = 0 ∨
      (feed.tradeSequence ≠ 0 ∧
        (feed.tradeSequence = uint64Max ∨ sequence ≠ feed.tradeSequence + 1)) then
    .ok (feed.fail "trade subscription/sequence")
  else do
    let msg ← Json.fieldAt root "msg"
    let ticker ← string msg "market_ticker"
    match feed.processor.markets.findMarket ticker with
    | none => .ok (feed.fail "trade market mismatch")
    | some marketId =>
      if marketId ∉ feed.selection then .ok (feed.fail "trade market mismatch")
      else feed.tradeFields msg sequence marketId

/-- The message of a book goes through the processor. -/
def processBook (feed : ReadOnlyFeed) (record : RawMarketRecord) (root : Json)
    (marketId : MarketId) : ReadOnlyFeed × FeedUpdate :=
  let decoded := decodeOrderbookJson root record.connectionGeneration.toNat
    record.receivedAt.toInt feed.processor.markets (feed.protocol != .perMarketV1)
  let (processor, result) := feed.processor.processDecoded decoded
  let feed := { feed with processor }
  if result ≠ .market (.book .applied) then feed.fail "book rejected"
  else (feed, { event := .market, marketId := some marketId, reason := "applied" })

/-- The subscription of a message does not carry the market. -/
def subscriptionMismatch (feed : ReadOnlyFeed) (sid : ℕ) (marketId : MarketId) : Bool :=
  match feed.subscriptions[sid]? with
  | none => true
  | some subscribed =>
    sid == feed.tradeSid ||
      if feed.protocol = .perMarketV1 then marketId != subscribed
      else decide (marketId ∉ feed.selection)

/-- A snapshot that was not asked for. -/
def unsolicited (feed : ReadOnlyFeed) (kind : String) (marketId : MarketId) : Bool :=
  kind == "orderbook_snapshot" &&
    match feed.state.findBook marketId with
    | none => false
    | some book => book.state == .valid

def receiveBook (feed : ReadOnlyFeed) (record : RawMarketRecord) (root : Json) (kind : String) :
    Received := do
  let sid ← integer root "sid" uint64Max
  let sequence ← integer root "seq" uint64Max
  if sequence = 0 then .ok (feed.fail "zero venue sequence")
  else do
    let msg ← Json.fieldAt root "msg"
    let ticker ← string msg "market_ticker"
    match feed.processor.markets.findMarket ticker with
    | none => .ok (feed.fail "subscription market mismatch")
    | some marketId =>
      if feed.subscriptionMismatch sid marketId then
        .ok (feed.fail "subscription market mismatch")
      else if feed.unsolicited kind marketId then .ok (feed.fail "unsolicited snapshot")
      else .ok (feed.processBook record root marketId)

/-- Errors and unexpected control messages of the venue end the generation. -/
def receiveMessage (feed : ReadOnlyFeed) (record : RawMarketRecord) (root : Json) : Received := do
  let kind ← string root "type"
  if kind = "subscribed" then feed.receiveSubscribed root
  else if kind = "trade" ∧ feed.protocol = .bookAndTradesV1 then feed.receiveTrade root
  else if kind ≠ "orderbook_snapshot" ∧ kind ≠ "orderbook_delta" then
    .ok (feed.fail "venue control/error")
  else feed.receiveBook record root kind

def receive (library : JsonLibrary) (feed : ReadOnlyFeed) (record : RawMarketRecord) :
    ReadOnlyFeed × FeedUpdate :=
  match (parseStrict library record.payload).bind (feed.receiveMessage record) with
  | .ok outcome => outcome
  | .error _ => feed.fail "invalid message"

/-! ### Records -/

/-- A record whose envelope is right and that is no tick of the clock. -/
def acceptRecord (library : JsonLibrary) (feed : ReadOnlyFeed) (record : RawMarketRecord) :
    ReadOnlyFeed × FeedUpdate :=
  if record.channel = ascii "ws.attempt.v1" then feed.acceptAttempt record
  else if feed.attempting = false ∨ record.connectionGeneration.toNat ≠ feed.generation then
    feed.failHistory "generation"
  else if record.channel = ascii "ws.close.v1" then feed.acceptClose
  else if record.channel = ascii "ws.open.v1" then feed.acceptOpen
  else if feed.healthy = false then
    (feed, { event := .invalidHistory, reason := "input after failure" })
  else if record.channel = ascii "ws.send.v1" then feed.acceptSend record
  else if record.channel = ascii "ws.ping.v1" ∨ record.channel = ascii "ws.pong.v1" then (feed, {})
  else if record.channel ≠ ascii "ws.receive.v1" then feed.fail "unknown channel"
  else feed.receive library record

/-- The answer to a record. -/
def accept (library : JsonLibrary) (feed : ReadOnlyFeed) (record : RawMarketRecord) :
    ReadOnlyFeed × FeedUpdate :=
  if feed.envelopeMismatch record then feed.failHistory "envelope"
  else
    let feed := { feed with lastTime := record.receivedAt.toInt }
    if feed.isClock record then (feed, {}) else feed.acceptRecord library record

end ReadOnlyFeed

end EventMarket.Session
