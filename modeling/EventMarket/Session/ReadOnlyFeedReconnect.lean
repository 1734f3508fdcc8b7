import EventMarket.Session.ReadOnlyFeedSafety

/-!
# Reconnecting the read-only feed

A closed feed is never stuck. Whatever went wrong before, a higher generation can be attempted and
opened and every planned command sent. The books of the generations before are then either asked for
again or were never there.

## Main definitions

* `Unopened`: books that were never connected are none.
* `ReadOnlyFeed.Reconnects`: the control records of a new connection.
* `ReadOnlyFeed.Attempted`, `ReadOnlyFeed.Sending`, `ReadOnlyFeed.Awaiting`: the feed on the way.

## Main results

* `ReadOnlyFeed.unopened_run`: no book before a connection, in every run.
* `ReadOnlyFeed.Inv.attempt`, `ReadOnlyFeed.Attempted.open`, `ReadOnlyFeed.Sending.send`: the steps.
* `ReadOnlyFeed.Inv.reconnects`: all control records are accepted.
-/

namespace EventMarket.Session

open Book Core Foundations Gateway Journal Market

/-! ### Books that were never connected -/

/-- Without a connection so far there is no book. -/
def Unopened (state : MarketState) : Prop :=
  state.connectionGeneration = none → ∀ marketId, state.findBook marketId = none

section Unopened

variable {state next : MarketState}

theorem Unopened.degrades (h : Unopened state) (hdegrades : state.Degrades next)
    (hknown : ∀ marketId, (next.findBook marketId).isSome = (state.findBook marketId).isSome) :
    Unopened next := by
  intro hnone marketId
  have hbefore := h (hdegrades.generation_eq.symm.trans hnone) marketId
  rw [← Option.not_isSome_iff_eq_none, hknown, hbefore]
  exact Bool.false_ne_true

theorem Unopened.close (h : Unopened state) (generation : ℕ) :
    Unopened (state.closeConnection generation).1 :=
  h.degrades (state.degrades_closeConnection generation)
    (state.isSome_findBook_closeConnection generation)

theorem Unopened.open (h : Unopened state) (generation : ℕ) :
    Unopened (state.openConnection generation).1 := by
  rcases state.openConnection_cases generation with hsame | ⟨next, hnext, -, hcurrent, -⟩
  · rw [hsame]
    exact h
  · rw [hnext]
    exact fun hnone => nomatch hcurrent.symm.trans hnone

theorem Unopened.recover (h : Unopened state) (ids : List MarketId) :
    Unopened (ReadOnlyFeed.recover state ids).1 := by
  obtain ⟨hdegrades, -, hknown⟩ := ReadOnlyFeed.recover_spec state ids
  exact h.degrades hdegrades hknown

/-- An update needs a connection. -/
theorem Unopened.apply (h : Unopened state) (event : NormalizedMarketEvent) :
    Unopened (state.apply event).1 := by
  by_cases haccepts : state.accepts (MarketState.eventGeneration event) = true
  · have hsome := (MarketState.accepts_eq_true haccepts).2
    have hkept : (state.apply event).1.connectionGeneration = state.connectionGeneration := by
      cases event with
      | snapshot snapshot =>
        rcases state.applySnapshot_cases snapshot with
          ⟨_, _, -, -, -, -, -, happlied⟩ | hrefused
        · rw [MarketState.apply, happlied]
        · exact hrefused.degrades.generation_eq
      | delta delta =>
        rcases state.applyDelta_cases delta with
          ⟨_, _, _, _, -, -, -, -, -, -, -, -, -, -, happlied⟩ | hrefused
        · rw [MarketState.apply, happlied]
        · exact hrefused.degrades.generation_eq
    intro hnone
    cases (hkept.trans hsome).symm.trans hnone
  · rw [MarketState.apply_of_not_accepts (Bool.eq_false_of_not_eq_true haccepts)]
    exact h

theorem Unopened.processDecoded {processor : OrderBookProcessor} (h : Unopened processor.state)
    (message : DecodedOrderBookMessage) :
    Unopened (processor.processDecoded message).1.state := by
  rcases processor.processDecoded_cases message with ⟨hsame, -⟩ | ⟨-, snapshot, -, -, -, hnext, -⟩ |
    ⟨-, delta, -, -, -, hnext, -⟩
  · rwa [hsame]
  · rw [hnext]
    exact h.apply (.snapshot snapshot)
  · rw [hnext]
    exact h.apply (.delta delta)

end Unopened

namespace ReadOnlyFeed

variable {library : JsonLibrary} {feed : ReadOnlyFeed} {record : RawMarketRecord}

/-! ### Over every run -/

theorem Unopened.closeBooks (h : Unopened feed.state) : Unopened feed.closeBooks.state := by
  unfold ReadOnlyFeed.closeBooks
  split
  · exact h.close feed.generation
  · exact h

theorem unopened_fail (h : Unopened feed.state) (reason : String) :
    Unopened (feed.fail reason).1.state := Unopened.closeBooks h

/-- The books after a message that could be read. -/
def KeepsUnopened (result : Received) : Prop :=
  ∀ outcome, result = .ok outcome → Unopened outcome.1.state

theorem keepsUnopened_ok {outcome : ReadOnlyFeed × FeedUpdate} (h : Unopened outcome.1.state) :
    KeepsUnopened (.ok outcome) := fun _ heq => Except.ok.inj heq ▸ h

theorem keepsUnopened_bind {α : Type} {value : Except StudyException α} {f : α → Received}
    (h : ∀ a, KeepsUnopened (f a)) : KeepsUnopened (value >>= f) := by
  intro outcome heq
  obtain ⟨a, -, hresult⟩ := bind_eq_ok heq
  exact h a outcome hresult

theorem keepsUnopened_ite {p : Prop} [Decidable p] {result other : Received}
    (h : KeepsUnopened result) (h' : KeepsUnopened other) :
    KeepsUnopened (if p then result else other) := by
  split
  · exact h
  · exact h'

theorem keepsUnopened_fail (h : Unopened feed.state) (reason : String) :
    KeepsUnopened (.ok (feed.fail reason)) := keepsUnopened_ok (unopened_fail h reason)

theorem keepsUnopened_subscribed (h : Unopened feed.state) (root : Json) :
    KeepsUnopened (feed.receiveSubscribed root) := by
  refine keepsUnopened_bind fun id => keepsUnopened_bind fun msg => keepsUnopened_bind fun sid => ?_
  unfold acknowledge
  refine keepsUnopened_ite (keepsUnopened_fail h _) (keepsUnopened_bind fun channel => ?_)
  unfold acknowledgeOn
  dsimp only
  refine keepsUnopened_ok ?_
  by_cases hrefused : channel ≠ (if feed.protocol = .bookAndTradesV1 ∧ id = 2 then "trade"
      else "orderbook_delta") ∨ sid ∈ feed.subscriptions
  · rw [if_pos hrefused]
    exact unopened_fail h _
  · rw [if_neg hrefused]
    exact h

theorem keepsUnopened_trade (h : Unopened feed.state) (root : Json) :
    KeepsUnopened (feed.receiveTrade root) := by
  refine keepsUnopened_bind fun sid => keepsUnopened_bind fun sequence => ?_
  refine keepsUnopened_ite (keepsUnopened_fail h _) (keepsUnopened_bind fun msg =>
    keepsUnopened_bind fun ticker => ?_)
  split
  · exact keepsUnopened_fail h _
  refine keepsUnopened_ite (keepsUnopened_fail h _) ?_
  refine keepsUnopened_bind fun yesText => keepsUnopened_bind fun noText =>
    keepsUnopened_bind fun quantityText => keepsUnopened_bind fun side =>
    keepsUnopened_bind fun tradeId => ?_
  split
  swap
  · exact keepsUnopened_fail h _
  refine keepsUnopened_ite (keepsUnopened_fail h _) ?_
  refine keepsUnopened_bind fun takerDiffers => ?_
  refine keepsUnopened_ite (keepsUnopened_fail h _) ?_
  refine keepsUnopened_bind fun bookDiffers => ?_
  refine keepsUnopened_ite (keepsUnopened_fail h _) ?_
  refine keepsUnopened_bind fun millis => keepsUnopened_bind fun mismatch => ?_
  refine keepsUnopened_ite (keepsUnopened_fail h _) (keepsUnopened_ok ?_)
  unfold emitTrade
  dsimp only
  split
  · exact h
  · exact h
  · exact unopened_fail h _

theorem keepsUnopened_book (h : Unopened feed.state) (root : Json) (kind : String) :
    KeepsUnopened (feed.receiveBook record root kind) := by
  refine keepsUnopened_bind fun sid => keepsUnopened_bind fun sequence => ?_
  refine keepsUnopened_ite (keepsUnopened_fail h _) (keepsUnopened_bind fun msg =>
    keepsUnopened_bind fun ticker => ?_)
  split
  · exact keepsUnopened_fail h _
  refine keepsUnopened_ite (keepsUnopened_fail h _) ?_
  refine keepsUnopened_ite (keepsUnopened_fail h _) (keepsUnopened_ok ?_)
  unfold processBook
  dsimp only
  split
  · exact Unopened.closeBooks (Unopened.processDecoded h _)
  · exact Unopened.processDecoded h _

theorem unopened_receive (h : Unopened feed.state) :
    Unopened (feed.receive library record).1.state := by
  unfold receive
  cases hmessage : (parseStrict library record.payload).bind (feed.receiveMessage record) with
  | error exception => exact unopened_fail h _
  | ok outcome =>
    refine (keepsUnopened_bind fun root => ?_ :
      KeepsUnopened (parseStrict library record.payload >>= feed.receiveMessage record))
      outcome hmessage
    refine keepsUnopened_bind fun kind => ?_
    refine keepsUnopened_ite (keepsUnopened_subscribed h root) ?_
    refine keepsUnopened_ite (keepsUnopened_trade h root) ?_
    exact keepsUnopened_ite (keepsUnopened_fail h _) (keepsUnopened_book h root kind)

theorem unopened_send (h : Unopened feed.state) : Unopened (feed.acceptSend record).1.state := by
  unfold acceptSend
  split
  · exact unopened_fail h _
  · dsimp only
    split
    · exact h.recover feed.requestedMarkets
    · exact Unopened.closeBooks (h.recover feed.requestedMarkets)

theorem unopened_open (h : Unopened feed.state) : Unopened feed.acceptOpen.1.state := by
  unfold acceptOpen
  split
  · exact unopened_fail h _
  · dsimp only
    split
    · exact h.open feed.generation
    · exact Unopened.closeBooks (h.open feed.generation)

theorem unopened_acceptRecord (h : Unopened feed.state) :
    Unopened (feed.acceptRecord library record).1.state := by
  unfold acceptRecord
  split
  · unfold acceptAttempt
    split
    · exact unopened_fail h "attempt order"
    · exact h
  split
  · exact unopened_fail h "generation"
  split
  · exact Unopened.closeBooks h
  split
  · exact unopened_open h
  split
  · exact h
  split
  · exact unopened_send h
  split
  · exact h
  split
  · exact unopened_fail h _
  · exact unopened_receive h

theorem unopened_accept (h : Unopened feed.state) :
    Unopened (feed.accept library record).1.state := by
  unfold accept
  split
  · exact unopened_fail h "envelope"
  dsimp only
  split
  · exact h
  · exact unopened_acceptRecord h

/-- **No book before a connection**, in every run. -/
theorem unopened_run {markets : MarketRegistry} {selection : List MarketId}
    {protocol : FeedProtocol} {start : ReadOnlyFeed}
    (hcreate : create library markets selection protocol = .ok start) (inputs : List FeedInput) :
    Unopened (Foundations.run (stepFeed library) start inputs).state := by
  refine run_invariant (P := fun feed : ReadOnlyFeed => Unopened feed.state)
    (fun feed input _ h => ?_) ?_
  · cases input with
    | record record => exact unopened_accept h
    | abort => exact Unopened.closeBooks h
  · unfold create at hcreate
    split at hcreate
    · exact nomatch hcreate
    dsimp only at hcreate
    split at hcreate
    · exact nomatch hcreate
    obtain ⟨tickers, -, hcreate⟩ := bind_eq_ok hcreate
    obtain rfl := Except.ok.inj hcreate
    intro _ marketId
    simp [state, MarketState.findBook]

/-! ### The commands are planned -/

/-- There is a command for every book, or one for all of them. -/
theorem commands_pos {markets : MarketRegistry} {selection : List MarketId}
    {protocol : FeedProtocol} {start : ReadOnlyFeed}
    (hcreate : create library markets selection protocol = .ok start)
    (hprotocol : start.protocol ≠ .perMarketV1) : 0 < start.commands.length := by
  unfold create at hcreate
  split at hcreate
  · exact nomatch hcreate
  dsimp only at hcreate
  split at hcreate
  · exact nomatch hcreate
  obtain ⟨tickers, -, hcreate⟩ := bind_eq_ok hcreate
  obtain rfl := Except.ok.inj hcreate
  cases protocol with
  | perMarketV1 => exact absurd rfl hprotocol
  | sharedSubscriptionV1 => simp [commandsOf]
  | bookAndTradesV1 => simp [commandsOf]

/-! ### Records with the right envelope -/

/-- A record of a generation with what every record must have. -/
structure Framed (feed : ReadOnlyFeed) (generation : ℕ) (record : RawMarketRecord) : Prop where
  schema_eq : record.schemaVersion = currentSchemaVersion
  metadata_eq : record.metadataVersion.toNat = feed.processor.markets.metadataVersion
  sequence_eq : record.sequence = 0
  time_eq : record.exchangeTimeNs = none
  generation_eq : record.connectionGeneration.toNat = generation

theorem Framed.of_sameSetup {next : ReadOnlyFeed} {generation : ℕ}
    (h : Framed feed generation record) (hsame : SameSetup feed next) :
    Framed next generation record :=
  ⟨h.schema_eq, by rw [hsame.markets_eq]; exact h.metadata_eq, h.sequence_eq, h.time_eq,
    h.generation_eq⟩

/-- The feed at the time of a record. -/
def timed (feed : ReadOnlyFeed) (record : RawMarketRecord) : ReadOnlyFeed :=
  { feed with lastTime := record.receivedAt.toInt }

/-- The records of the local clock are on channels of their own. -/
abbrev IsFeedChannel (channel : List UInt8) : Prop :=
  channel ≠ ascii "paper.clock.v1" ∧ channel ≠ ascii "basket.clock.v1"

theorem Framed.accept_eq {generation : ℕ} (h : Framed feed generation record)
    (hordered : feed.lastTime ≤ record.receivedAt.toInt) (hchannel : IsFeedChannel record.channel) :
    feed.accept library record = (feed.timed record).acceptRecord library record := by
  have henvelope : feed.envelopeMismatch record = false := by
    simp [envelopeMismatch, h.schema_eq, h.metadata_eq, h.sequence_eq, h.time_eq, hordered]
  have hclock : (feed.timed record).isClock record = false := by
    simp [isClock, hchannel.1, hchannel.2]
  unfold accept
  rw [henvelope, if_neg Bool.false_ne_true, ← timed.eq_def]
  dsimp only
  rw [hclock, if_neg Bool.false_ne_true]

theorem acceptRecord_open (hattempting : feed.attempting = true)
    (hgeneration : record.connectionGeneration.toNat = feed.generation)
    (hchannel : record.channel = ascii "ws.open.v1") :
    feed.acceptRecord library record = feed.acceptOpen := by
  have hattempt : ascii "ws.open.v1" ≠ ascii "ws.attempt.v1" := by decide
  have hclose : ascii "ws.open.v1" ≠ ascii "ws.close.v1" := by decide
  simp [acceptRecord, hchannel, hattempt, hclose, hattempting, hgeneration]

theorem acceptOpen_eq (hopened : feed.opened = false) (hfaulted : feed.faulted = false)
    {next : MarketState} (hnext : feed.state.openConnection feed.generation = (next, true)) :
    feed.acceptOpen = ({ feed.withState next with opened := true }, {}) := by
  unfold acceptOpen
  rw [if_neg (by simp [hopened, hfaulted])]
  simp only [hnext, if_true]

/-- A command on a healthy feed. -/
theorem acceptRecord_send (hinv : feed.Inv) (hhealthy : feed.healthy = true)
    (hgeneration : record.connectionGeneration.toNat = feed.generation)
    (hchannel : record.channel = ascii "ws.send.v1") :
    feed.acceptRecord library record = feed.acceptSend record := by
  have hopened : feed.opened = true := (Bool.and_eq_true _ _ ▸ hhealthy).1
  have hattempt : ascii "ws.send.v1" ≠ ascii "ws.attempt.v1" := by decide
  have hclose : ascii "ws.send.v1" ≠ ascii "ws.close.v1" := by decide
  have hopen : ascii "ws.send.v1" ≠ ascii "ws.open.v1" := by decide
  simp [acceptRecord, hchannel, hattempt, hclose, hopen, hinv.attempting hopened, hgeneration,
    hhealthy]

theorem acceptSend_eq (hcommand : feed.commands[feed.sent]? = some record.payload)
    (hrecovered : (recover feed.state feed.requestedMarkets).2 = true) :
    feed.acceptSend record =
      ({ feed.withState (recover feed.state feed.requestedMarkets).1 with
        sent := feed.sent + 1 }, {}) := by
  unfold acceptSend
  rw [if_neg (not_not.mpr hcommand)]
  dsimp only
  rw [if_pos hrecovered]
  rfl

/-- A message on a healthy feed. -/
theorem acceptRecord_receive (hinv : feed.Inv) (hhealthy : feed.healthy = true)
    (hgeneration : record.connectionGeneration.toNat = feed.generation)
    (hchannel : record.channel = ascii "ws.receive.v1") :
    feed.acceptRecord library record = feed.receive library record := by
  have hopened : feed.opened = true := (Bool.and_eq_true _ _ ▸ hhealthy).1
  have hattempt : ascii "ws.receive.v1" ≠ ascii "ws.attempt.v1" := by decide
  have hclose : ascii "ws.receive.v1" ≠ ascii "ws.close.v1" := by decide
  have hopen : ascii "ws.receive.v1" ≠ ascii "ws.open.v1" := by decide
  have hsend : ascii "ws.receive.v1" ≠ ascii "ws.send.v1" := by decide
  have hping : ascii "ws.receive.v1" ≠ ascii "ws.ping.v1" := by decide
  have hpong : ascii "ws.receive.v1" ≠ ascii "ws.pong.v1" := by decide
  simp [acceptRecord, hchannel, hattempt, hclose, hopen, hsend, hping, hpong,
    hinv.attempting hopened, hgeneration, hhealthy]

/-! ### Attempt and opening -/

/-- A feed between an accepted attempt and the opening. -/
structure Attempted (feed : ReadOnlyFeed) (generation : ℕ) : Prop where
  inv : feed.Inv
  attempting : feed.attempting = true
  opened : feed.opened = false
  faulted : feed.faulted = false
  generation_eq : feed.generation = generation
  last_lt : ∀ last, feed.state.connectionGeneration = some last → last < generation
  unopened : Unopened feed.state

/-- A feed that has opened a generation and sent some of its commands: the requested books are
recovering and the others stale. -/
structure Sending (feed : ReadOnlyFeed) (generation : ℕ) : Prop where
  inv : feed.Inv
  healthy : feed.healthy = true
  generation_eq : feed.generation = generation
  recovering : ∀ marketId book, feed.state.findBook marketId = some book →
    feed.Requested marketId → book.state = .recovering
  stale : ∀ marketId book, feed.state.findBook marketId = some book →
    ¬feed.Requested marketId → book.state = .stale

/-- What an accepted record keeps, and the time that it leaves. -/
structure Taken (library : JsonLibrary) (feed : ReadOnlyFeed) (record : RawMarketRecord)
    (update : FeedUpdate) : Prop where
  update_eq : (feed.accept library record).2 = update
  same : SameSetup feed (feed.accept library record).1
  time_eq : (feed.accept library record).1.lastTime = record.receivedAt.toInt

theorem Inv.taken {next : ReadOnlyFeed} {update : FeedUpdate} (h : feed.Inv)
    (haccept : feed.accept library record = (next, update))
    (htime : next.lastTime = record.receivedAt.toInt) :
    next.Inv ∧ Taken library feed record update := by
  have hsame := h.sameSetup_step library (.record record)
  have hnext := h.accept library record
  rw [haccept] at hnext
  exact ⟨hnext, by rw [haccept], hsame, by rw [haccept]; exact htime⟩

/-- **A higher generation can be attempted** whenever the feed is closed. -/
theorem Inv.attempt (h : feed.Inv) (hunopened : Unopened feed.state)
    (hclosed : feed.attempting = false) {generation : ℕ} (hlt : feed.generation < generation)
    (hframed : Framed feed generation record)
    (hordered : feed.lastTime ≤ record.receivedAt.toInt)
    (hchannel : record.channel = ascii "ws.attempt.v1") :
    Taken library feed record {} ∧ Attempted (feed.accept library record).1 generation := by
  have haccept := @Framed.accept_eq library feed record _ hframed hordered
    (by rw [hchannel]; decide)
  obtain rfl := hframed.generation_eq
  have hallowed : ¬((feed.timed record).attempting = true ∨
      record.connectionGeneration.toNat ≤ (feed.timed record).generation) := by
    simp [timed, hclosed, hlt]
  rw [acceptRecord, if_pos hchannel, acceptAttempt, if_neg hallowed] at haccept
  obtain ⟨hnext, htaken⟩ := h.taken haccept rfl
  rw [haccept]
  exact ⟨htaken, hnext, rfl, rfl, rfl, rfl,
    fun last hlast => (h.books.last_le last hlast).trans_lt hlt, hunopened⟩

/-- The books of a new connection are stale. -/
theorem stale_openConnection {state next : MarketState} (hunopened : Unopened state)
    {generation : ℕ} (hopened : state.openConnection generation = (next, true))
    {marketId : MarketId} {book : OrderBook} (hbook : next.findBook marketId = some book) :
    book.state = .stale := by
  unfold MarketState.openConnection at hopened
  split at hopened
  · exact nomatch (Prod.mk.inj hopened).2
  dsimp only at hopened
  obtain rfl := (Prod.mk.inj hopened).1
  split at hbook
  · have hfound : state.invalidateAll.findBook marketId = some book := hbook
    rw [MarketState.findBook_invalidateAll, Option.map_eq_some_iff] at hfound
    obtain ⟨other, -, rfl⟩ := hfound
    rfl
  · next hnone =>
    have hfound : state.findBook marketId = some book := hbook
    rw [hunopened (by simpa using hnone) marketId] at hfound
    exact nomatch hfound

theorem not_requested (hsent : feed.sent = 0) (marketId : MarketId) :
    ¬feed.Requested marketId := by
  unfold Requested
  rw [hsent]
  split
  · rintro ⟨index, hlt, -⟩
    exact Nat.not_lt_zero _ hlt
  · exact Nat.lt_irrefl _

/-- **An attempted generation can be opened.** -/
theorem Attempted.open {generation : ℕ} (h : feed.Attempted generation) (hpos : 0 < generation)
    (hframed : Framed feed generation record)
    (hordered : feed.lastTime ≤ record.receivedAt.toInt)
    (hchannel : record.channel = ascii "ws.open.v1") :
    Taken library feed record {} ∧ Sending (feed.accept library record).1 generation ∧
      (feed.accept library record).1.sent = 0 := by
  obtain ⟨next, hopened⟩ : ∃ next, feed.state.openConnection feed.generation = (next, true) := by
    rw [h.generation_eq]
    unfold MarketState.openConnection
    rw [if_neg]
    · exact ⟨_, rfl⟩
    · rintro (hzero | ⟨last, hlast, hle⟩)
      · exact hpos.ne' hzero
      · exact absurd (h.last_lt last hlast) (not_lt.mpr hle)
  have hsent := h.inv.fresh h.attempting h.opened
  have haccept : feed.accept library record = ({ feed with
      lastTime := record.receivedAt.toInt
      processor := { feed.processor with state := next }
      opened := true }, {}) := by
    rw [hframed.accept_eq hordered (by rw [hchannel]; decide),
      @acceptRecord_open library (feed.timed record) record h.attempting
        (hframed.generation_eq.trans h.generation_eq.symm) hchannel,
      @acceptOpen_eq (feed.timed record) h.opened h.faulted _ hopened]
    rfl
  obtain ⟨hnext, htaken⟩ := h.inv.taken haccept rfl
  rw [haccept]
  refine ⟨htaken, ⟨hnext, ?_, h.generation_eq,
    fun marketId book _ hrequested => absurd hrequested (not_requested hsent marketId),
    fun marketId book hbook _ => stale_openConnection h.unopened hopened hbook⟩, hsent⟩
  simp [ReadOnlyFeed.healthy, h.faulted]

/-! ### Sending the commands -/

/-- The recovery of a stale book begins. -/
theorem beginRecovery_stale {state : MarketState} {marketId : MarketId} {book : OrderBook}
    (hconnected : state.connected = true) (hbook : state.findBook marketId = some book)
    (hstale : book.state = .stale) :
    state.beginRecovery marketId = ({ state with
      books := state.books.insert marketId { book with state := .recovering } }, true) := by
  have hfound : state.books[marketId]? = some book := hbook
  simp [MarketState.beginRecovery, hconnected, hfound, OrderBook.beginRecovery, hstale]

/-- **Stale books can be recovered**, all of those that are asked for. -/
theorem recover_stale {ids : List MarketId} (hnodup : ids.Nodup) (state : MarketState)
    (hconnected : state.connected = true)
    (hstale : ∀ marketId ∈ ids, ∀ book, state.findBook marketId = some book →
      book.state = .stale) :
    (recover state ids).2 = true ∧ ∀ marketId,
      (recover state ids).1.findBook marketId =
        if marketId ∈ ids then
          (state.findBook marketId).map fun book => { book with state := .recovering }
        else state.findBook marketId := by
  induction ids generalizing state with
  | nil => exact ⟨rfl, fun marketId => (if_neg List.not_mem_nil).symm⟩
  | cons id ids ih =>
    obtain ⟨hfresh, hnodup⟩ := List.nodup_cons.mp hnodup
    cases hbook : state.findBook id with
    | none =>
      obtain ⟨hdone, hbooks⟩ := ih hnodup state hconnected fun m hm =>
        hstale m (List.mem_cons_of_mem _ hm)
      rw [recover, hbook, if_pos Option.isNone_none]
      refine ⟨hdone, fun marketId => ?_⟩
      by_cases hid : marketId = id
      · rw [hbooks, hid, if_neg hfresh, if_pos List.mem_cons_self, hbook]
        rfl
      · simp [hbooks, hid]
    | some book =>
      have hbegin := beginRecovery_stale hconnected hbook
        (hstale id List.mem_cons_self book hbook)
      obtain ⟨hdone, hbooks⟩ := ih hnodup { state with
          books := state.books.insert id { book with state := .recovering } } hconnected
        fun m hm other hother => by
          have hne : m ≠ id := fun heq => hfresh (heq ▸ hm)
          rw [MarketState.findBook_insert, if_neg hne] at hother
          exact hstale m (List.mem_cons_of_mem _ hm) other hother
      rw [recover, hbook, if_neg (by simp)]
      simp only [hbegin, if_true]
      refine ⟨hdone, fun marketId => ?_⟩
      rw [hbooks, MarketState.findBook_insert]
      by_cases hid : marketId = id
      · rw [hid, if_neg hfresh, if_pos rfl, if_pos List.mem_cons_self, hbook]
        rfl
      · simp [hid]

/-- What is requested after one more command. -/
theorem requested_succ {next : ReadOnlyFeed} (hprotocol : next.protocol = feed.protocol)
    (hselection : next.selection = feed.selection) (hsent : next.sent = feed.sent + 1)
    {marketId : MarketId} (hselected : marketId ∈ feed.selection) :
    next.Requested marketId ↔ feed.Requested marketId ∨ marketId ∈ feed.requestedMarkets := by
  unfold Requested requestedMarkets
  rw [hprotocol, hselection, hsent]
  by_cases hper : feed.protocol = .perMarketV1
  · simp only [hper, if_true, Option.mem_toList]
    constructor
    · rintro ⟨index, hlt, hindex⟩
      rcases Nat.lt_succ_iff_lt_or_eq.mp hlt with hlt | rfl
      · exact Or.inl ⟨index, hlt, hindex⟩
      · exact Or.inr hindex
    · rintro (⟨index, hlt, hindex⟩ | hindex)
      · exact ⟨index, Nat.lt_succ_of_lt hlt, hindex⟩
      · exact ⟨feed.sent, Nat.lt_succ_self _, hindex⟩
  · simp only [hper, if_false]
    by_cases hzero : feed.sent = 0
    · simp [hzero, hselected]
    · simp [hzero, Nat.pos_of_ne_zero hzero]

theorem requestedMarkets_nodup (h : feed.Inv) : feed.requestedMarkets.Nodup := by
  unfold requestedMarkets
  split
  · cases feed.selection[feed.sent]? <;> simp
  split
  · exact h.selection_nodup
  · exact List.nodup_nil

/-- A market is asked for once. -/
theorem not_requested_of_mem (h : feed.Inv) {marketId : MarketId}
    (hmem : marketId ∈ feed.requestedMarkets) : ¬feed.Requested marketId := by
  unfold requestedMarkets at hmem
  unfold Requested
  split at hmem
  · next hper =>
    rw [if_pos hper]
    rintro ⟨index, hlt, hindex⟩
    have hsent : feed.selection[feed.sent]? = some marketId := by simpa using hmem
    have hlength : index < feed.selection.length := (List.getElem?_eq_some_iff.mp hindex).1
    exact hlt.ne ((List.getElem?_inj hlength h.selection_nodup).mp (hindex.trans hsent.symm))
  · next hper =>
    rw [if_neg hper]
    split at hmem
    · next hzero => simp [hzero]
    · simp at hmem

/-- **The next planned command can be sent.** -/
theorem Sending.send {generation : ℕ} (h : Sending feed generation)
    (hframed : Framed feed generation record)
    (hordered : feed.lastTime ≤ record.receivedAt.toInt)
    (hchannel : record.channel = ascii "ws.send.v1")
    (hcommand : feed.commands[feed.sent]? = some record.payload) :
    Taken library feed record {} ∧ Sending (feed.accept library record).1 generation ∧
      (feed.accept library record).1.sent = feed.sent + 1 := by
  have hconnected : feed.state.connected = true := h.inv.connected.trans h.healthy
  obtain ⟨hdone, hbooks⟩ := recover_stale (requestedMarkets_nodup h.inv) feed.state hconnected
    fun marketId hmem book hbook =>
      h.stale marketId book hbook (not_requested_of_mem h.inv hmem)
  obtain ⟨next, haccept, htime, hprotocol, hselection, hsent, hstate, hhealthy, hgeneration⟩ :
      ∃ next : ReadOnlyFeed, feed.accept library record = (next, {}) ∧
        next.lastTime = record.receivedAt.toInt ∧ next.protocol = feed.protocol ∧
        next.selection = feed.selection ∧ next.sent = feed.sent + 1 ∧
        next.state = (recover feed.state feed.requestedMarkets).1 ∧
        next.healthy = feed.healthy ∧ next.generation = feed.generation := by
    rw [hframed.accept_eq hordered (by rw [hchannel]; decide),
      @acceptRecord_send library (feed.timed record) record (h.inv.withTime _) h.healthy
        (hframed.generation_eq.trans h.generation_eq.symm) hchannel,
      @acceptSend_eq (feed.timed record) record hcommand hdone]
    exact ⟨_, rfl, rfl, rfl, rfl, rfl, rfl, rfl, rfl⟩
  obtain ⟨hnext, htaken⟩ := h.inv.taken haccept htime
  rw [haccept]
  have hrequested {marketId : MarketId} {book : OrderBook}
      (hbook : next.state.findBook marketId = some book) :
      next.Requested marketId ↔ feed.Requested marketId ∨ marketId ∈ feed.requestedMarkets :=
    requested_succ hprotocol hselection hsent
      (hselection ▸ hnext.books.selected marketId (Option.isSome_of_eq_some hbook))
  refine ⟨htaken, ⟨hnext, hhealthy.trans h.healthy, hgeneration.trans h.generation_eq,
    fun marketId book hbook hasked => ?_, fun marketId book hbook hasked => ?_⟩, hsent⟩
  · rw [hrequested hbook] at hasked
    rw [hstate, hbooks] at hbook
    split at hbook
    · obtain ⟨other, -, rfl⟩ := Option.map_eq_some_iff.mp hbook
      rfl
    · next hmem => exact h.recovering marketId book hbook (hasked.resolve_right hmem)
  · rw [hrequested hbook, not_or] at hasked
    rw [hstate, hbooks, if_neg hasked.2] at hbook
    exact h.stale marketId book hbook hasked.1

/-! ### The control records of a new connection -/

/-- What a feed answers to records. -/
def updates (library : JsonLibrary) : ReadOnlyFeed → List RawMarketRecord → List FeedUpdate
  | _, [] => []
  | feed, record :: records =>
    (feed.accept library record).2 :: updates library (feed.accept library record).1 records

/-- The feed after records. -/
def afterRecords (library : JsonLibrary) (feed : ReadOnlyFeed) (records : List RawMarketRecord) :
    ReadOnlyFeed :=
  Foundations.run (stepFeed library) feed (records.map .record)

@[simp] theorem afterRecords_nil : feed.afterRecords library [] = feed := rfl

@[simp] theorem afterRecords_cons (records : List RawMarketRecord) :
    feed.afterRecords library (record :: records) =
      (feed.accept library record).1.afterRecords library records := rfl

/-- **The records of a new connection**: an attempt, the opening and every planned command, in the
order of their times. -/
structure Reconnects (feed : ReadOnlyFeed) (generation : ℕ) (records : List RawMarketRecord) :
    Prop where
  channels : records.map (·.channel) =
    ascii "ws.attempt.v1" :: ascii "ws.open.v1" :: feed.commands.map fun _ => ascii "ws.send.v1"
  payloads : (records.drop 2).map (·.payload) = feed.commands
  framed : ∀ record ∈ records, Framed feed generation record
  ordered : (feed.lastTime :: records.map (·.receivedAt.toInt)).IsChain (· ≤ ·)

/-- **The remaining commands can be sent.** -/
theorem Sending.rest {generation : ℕ} (h : Sending feed generation)
    {records : List RawMarketRecord}
    (hchannels : ∀ record ∈ records, record.channel = ascii "ws.send.v1")
    (hpayloads : records.map (·.payload) = feed.commands.drop feed.sent)
    (hframed : ∀ record ∈ records, Framed feed generation record)
    (hordered : (feed.lastTime :: records.map (·.receivedAt.toInt)).IsChain (· ≤ ·)) :
    updates library feed records = records.map (fun _ => {}) ∧
      Sending (feed.afterRecords library records) generation ∧
      (feed.afterRecords library records).sent = feed.commands.length := by
  induction records generalizing feed with
  | nil =>
    refine ⟨rfl, h, ?_⟩
    have hlength : 0 = feed.commands.length - feed.sent := by
      rw [← List.length_drop, ← hpayloads, List.map_nil, List.length_nil]
    have hle := h.inv.sent_le
    rw [afterRecords_nil]
    omega
  | cons record records ih =>
    rw [List.map_cons, List.isChain_cons_cons] at hordered
    have hcommand : feed.commands[feed.sent]? = some record.payload := by
      have hhead := congrArg List.head? hpayloads
      rwa [List.map_cons, List.head?_cons, List.head?_drop, eq_comm] at hhead
    obtain ⟨htaken, hnext, hsent⟩ := @Sending.send library feed record generation h
      (hframed record List.mem_cons_self) hordered.1 (hchannels record List.mem_cons_self) hcommand
    obtain ⟨hupdates, hlast, hdone⟩ := ih hnext
      (fun other hmem => hchannels other (List.mem_cons_of_mem _ hmem))
      (by rw [htaken.same.commands_eq, hsent, ← List.drop_drop, ← hpayloads]; rfl)
      (fun other hmem => (hframed other (List.mem_cons_of_mem _ hmem)).of_sameSetup htaken.same)
      (by rw [htaken.time_eq]; exact hordered.2)
    rw [afterRecords_cons, updates, hupdates, htaken.update_eq, List.map_cons]
    exact ⟨rfl, hlast, hdone.trans (by rw [htaken.same.commands_eq])⟩

/-- A feed that has sent every command and waits for what is missing. -/
structure Awaiting (feed : ReadOnlyFeed) : Prop where
  inv : feed.Inv
  healthy : feed.healthy = true
  sent_eq : feed.sent = feed.commands.length
  awaiting : ∀ marketId book, feed.state.findBook marketId = some book → book.state ≠ .stale

/-- With every command sent, every selected book was asked for. -/
theorem requested_of_sent (h : feed.Inv)
    (hplanned : feed.protocol ≠ .perMarketV1 → 0 < feed.commands.length)
    (hsent : feed.sent = feed.commands.length) {marketId : MarketId}
    (hmem : marketId ∈ feed.selection) : feed.Requested marketId := by
  unfold Requested
  rw [hsent]
  split
  · next hper =>
    obtain ⟨index, hlt, rfl⟩ := List.mem_iff_getElem.mp hmem
    exact ⟨index, (h.commands_length hper).symm ▸ hlt, List.getElem?_eq_getElem hlt⟩
  · next hper => exact hplanned hper

/-- **A closed feed can reconnect.** The control records of a higher generation are accepted, and
then no selected book is left but those that wait for a snapshot. -/
theorem Inv.reconnects (h : feed.Inv) (hunopened : Unopened feed.state)
    (hclosed : feed.attempting = false)
    (hplanned : feed.protocol ≠ .perMarketV1 → 0 < feed.commands.length)
    {generation : ℕ} (hlt : feed.generation < generation) {records : List RawMarketRecord}
    (hrecords : Reconnects feed generation records) :
    updates library feed records = records.map (fun _ => {}) ∧
      Awaiting (feed.afterRecords library records) ∧
      (feed.afterRecords library records).generation = generation ∧
      ∀ marketId ∈ feed.selection,
        (feed.afterRecords library records).state.findBook marketId = none ∨
          InState (feed.afterRecords library records).state marketId .recovering := by
  obtain ⟨attempt, rest, rfl, hattempt, hrest⟩ := List.map_eq_cons_iff.mp hrecords.channels
  obtain ⟨opening, sends, rfl, hopen, hsends⟩ := List.map_eq_cons_iff.mp hrest
  have hchain := hrecords.ordered
  rw [List.map_cons, List.map_cons, List.isChain_cons_cons, List.isChain_cons_cons] at hchain
  have hframed := hrecords.framed
  simp only [List.forall_mem_cons] at hframed
  obtain ⟨hfirst, hattempted⟩ := @Inv.attempt library feed attempt h hunopened hclosed _ hlt
    hframed.1 hchain.1 hattempt
  obtain ⟨hsecond, hsending, hsent⟩ := @Attempted.open library _ opening _ hattempted
    (Nat.zero_lt_of_lt hlt) (hframed.2.1.of_sameSetup hfirst.same)
    (by rw [hfirst.time_eq]; exact hchain.2.1) hopen
  have hsame := hfirst.same.trans hsecond.same
  obtain ⟨hupdates, hlast, hdone⟩ := @Sending.rest library _ _ hsending sends
    (fun record hmem => by
      have hmem' := List.mem_map_of_mem (f := (·.channel)) hmem
      rw [hsends, List.mem_map] at hmem'
      obtain ⟨-, -, heq⟩ := hmem'
      exact heq.symm)
    (by rw [hsent, List.drop_zero, hsame.commands_eq]; exact hrecords.payloads)
    (fun record hmem => (hframed.2.2 record hmem).of_sameSetup hsame)
    (by rw [hsecond.time_eq]; exact hchain.2.2)
  rw [hsame.commands_eq] at hdone
  rw [← afterRecords_cons, ← afterRecords_cons] at hlast hdone
  have hall : SameSetup feed (feed.afterRecords library (attempt :: opening :: sends)) :=
    h.sameSetup_run library _
  have hlength := congrArg List.length hall.commands_eq.symm
  have hrecovering : ∀ marketId ∈ feed.selection, ∀ book,
      (feed.afterRecords library (attempt :: opening :: sends)).state.findBook marketId =
        some book → book.state = .recovering :=
    fun marketId hmem book hbook => hlast.recovering marketId book hbook
      (requested_of_sent hlast.inv (by rw [hall.protocol_eq, hall.commands_eq]; exact hplanned)
        (hdone.trans hlength) (by rw [hall.selection_eq]; exact hmem))
  refine ⟨?_, ⟨hlast.inv, hlast.healthy, hdone.trans hlength,
    fun marketId book hbook => ?_⟩, hlast.generation_eq, fun marketId hmem => ?_⟩
  · rw [updates, updates, hupdates, hfirst.update_eq, hsecond.update_eq, List.map_cons,
      List.map_cons]
  · have hmem := hlast.inv.books.selected marketId (Option.isSome_of_eq_some hbook)
    rw [hall.selection_eq] at hmem
    rw [hrecovering marketId hmem book hbook]
    exact nofun
  · cases hbook : (feed.afterRecords library
        (attempt :: opening :: sends)).state.findBook marketId with
    | none => exact Or.inl rfl
    | some book => exact Or.inr ⟨book, hbook, hrecovering marketId hmem book hbook⟩

end ReadOnlyFeed

end EventMarket.Session
