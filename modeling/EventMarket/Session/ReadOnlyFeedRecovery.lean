import EventMarket.Session.ReadOnlyFeedReconnect

/-!
# The read-only feed can recover

A feed that has sent its commands waits for the venue. Valid acknowledgements and first snapshots
are accepted in any order, and when none is missing the feed is ready. With the control records of
a new connection before them, they lead every closed feed back to a ready one.

## Main definitions

* `ReadOnlyFeed.Acknowledges`, `ReadOnlyFeed.FirstSnapshot`: valid answers of the venue.
* `ReadOnlyFeed.Answers`: records with answers, each valid when it comes.

## Main results

* `ReadOnlyFeed.Awaiting.acknowledge`, `ReadOnlyFeed.Awaiting.snapshot`: an answer is accepted.
* `ReadOnlyFeed.Awaiting.answers`: all answers are, and achieve what they are for.
* `feed_recovers`: every closed feed can get ready.
-/

namespace EventMarket.Session

open Book Core Foundations Gateway Journal Market

namespace ReadOnlyFeed

variable {library : JsonLibrary} {feed : ReadOnlyFeed} {record : RawMarketRecord}

/-! ### The answers of the venue -/

/-- A message that can be read. -/
structure Message (library : JsonLibrary) (feed : ReadOnlyFeed) (kind : String) (root msg : Json)
    (record : RawMarketRecord) : Prop where
  framed : Framed feed feed.generation record
  ordered : feed.lastTime ≤ record.receivedAt.toInt
  channel_eq : record.channel = ascii "ws.receive.v1"
  root_eq : parseStrict library record.payload = .ok root
  kind_eq : string root "type" = .ok kind
  msg_eq : root.find "msg" = some msg

/-- **A valid acknowledgement** of a command: it carries the command's number and channel, and a
new subscription. -/
structure Acknowledges (library : JsonLibrary) (feed : ReadOnlyFeed) (index sid : ℕ)
    (root msg : Json) (record : RawMarketRecord) : Prop where
  message : Message library feed "subscribed" root msg record
  planned : index < feed.commands.length
  pending : feed.acknowledged[index]? = some false
  id_eq : integer root "id" feed.commands.length = .ok (index + 1)
  sid_eq : integer msg "sid" uint64Max = .ok sid
  sid_pos : 0 < sid
  sid_new : sid ∉ feed.subscriptions
  channel_eq : string msg "channel" =
    .ok (if feed.protocol = .bookAndTradesV1 ∧ index = 1 then "trade" else "orderbook_delta")
  unnumbered : root.contains "seq" = false

/-- **A valid first snapshot** of a market: it is on an acknowledged subscription of the market's
book, next on its stream, and its levels can be read. -/
structure FirstSnapshot (library : JsonLibrary) (feed : ReadOnlyFeed) (marketId : MarketId)
    (root msg : Json) (wire : WireOrderBookSnapshot) (snapshot : BookSnapshot)
    (record : RawMarketRecord) : Prop where
  message : Message library feed "orderbook_snapshot" root msg record
  sid_eq : integer root "sid" uint64Max = .ok wire.streamId
  sequence_eq : integer root "seq" uint64Max = .ok wire.sequence
  sequence_pos : 0 < wire.sequence
  ticker : ∃ text, string msg "market_ticker" = .ok text ∧
    feed.processor.markets.findMarket text = some marketId
  selected : marketId ∈ feed.selection
  subscribed : ∃ subscription, feed.subscriptions[wire.streamId]? = some subscription ∧
    (feed.protocol = .perMarketV1 → subscription = marketId)
  not_trade : wire.streamId ≠ feed.tradeSid
  wire_eq : decodeOrderbookJson root record.connectionGeneration.toNat record.receivedAt.toInt
    feed.processor.markets (feed.protocol != .perMarketV1) = .ok (.snapshot wire)
  snapshot_eq : normalizeOrderbookSnapshot wire = .ok snapshot
  bids : (OrderBook.loadLevels snapshot.bids {}).isSome
  asks : (OrderBook.loadLevels snapshot.asks {}).isSome
  next : feed.state.scope = .sharedStream →
    feed.state.acceptsSequence wire.streamId wire.sequence = true
  first : ¬InState feed.state marketId .valid

/-- What the venue answers to the commands. -/
inductive VenueAnswer where
  | acknowledgement (index : ℕ)
  | snapshot (marketId : MarketId)

/-- The update that an answer leads to. -/
def VenueAnswer.update : VenueAnswer → FeedUpdate
  | .acknowledgement _ => {}
  | .snapshot marketId => { event := .market, marketId := some marketId, reason := "applied" }

/-- A record carries an answer that is valid for the feed. -/
def Carries (library : JsonLibrary) (feed : ReadOnlyFeed) (record : RawMarketRecord) :
    VenueAnswer → Prop
  | .acknowledgement index => ∃ sid root msg, Acknowledges library feed index sid root msg record
  | .snapshot marketId => ∃ root msg wire snapshot,
      FirstSnapshot library feed marketId root msg wire snapshot record

/-- Records that carry answers, each valid when it comes. -/
def Answers (library : JsonLibrary) : ReadOnlyFeed → List (VenueAnswer × RawMarketRecord) → Prop
  | _, [] => True
  | feed, (answer, record) :: rest =>
    Carries library feed record answer ∧ Answers library (feed.accept library record).1 rest

/-- What an answer has achieved. -/
def Achieved (feed : ReadOnlyFeed) : VenueAnswer → Prop
  | .acknowledgement index => feed.acknowledged[index]? = some true
  | .snapshot marketId => InState feed.state marketId .valid

/-- A message that is read without an exception. -/
theorem Message.accept_eq {kind : String} {root msg : Json} {outcome : ReadOnlyFeed × FeedUpdate}
    (h : Message library feed kind root msg record) (hinv : feed.Inv)
    (hhealthy : feed.healthy = true)
    (houtcome : (feed.timed record).receiveMessage record root = .ok outcome) :
    feed.accept library record = outcome := by
  rw [h.framed.accept_eq h.ordered (by rw [h.channel_eq]; decide),
    @acceptRecord_receive library (feed.timed record) record (hinv.withTime _) hhealthy
      h.framed.generation_eq h.channel_eq, receive, h.root_eq]
  simp only [Except.bind, houtcome]

theorem Message.fieldAt_msg {kind : String} {root msg : Json}
    (h : Message library feed kind root msg record) : Json.fieldAt root "msg" = .ok msg := by
  rw [Json.fieldAt, h.msg_eq]

/-- A feed with one more acknowledged subscription. -/
theorem Acknowledges.acknowledgeOn_eq {index sid : ℕ} {root msg : Json}
    (h : Acknowledges library feed index sid root msg record) :
    ∃ next : ReadOnlyFeed, (feed.timed record).acknowledgeOn
        (if feed.protocol = .bookAndTradesV1 ∧ index = 1 then "trade" else "orderbook_delta")
        (index + 1) sid = (next, {}) ∧
      next.lastTime = record.receivedAt.toInt ∧ next.state = feed.state ∧
      next.acknowledged = feed.acknowledged.set index true ∧ next.healthy = feed.healthy ∧
      next.sent = feed.sent ∧ next.commands = feed.commands := by
  have hchannel : ¬((if feed.protocol = .bookAndTradesV1 ∧ index = 1 then "trade"
      else "orderbook_delta") ≠ (if (feed.timed record).protocol = .bookAndTradesV1 ∧ index + 1 = 2
        then "trade" else "orderbook_delta") ∨ sid ∈ (feed.timed record).subscriptions) := by
    simp [timed, h.sid_new]
  unfold acknowledgeOn
  dsimp only
  rw [if_neg hchannel]
  exact ⟨_, rfl, rfl, rfl, rfl, rfl, rfl, rfl⟩

/-- **A valid acknowledgement is accepted.** -/
theorem Awaiting.acknowledge (h : feed.Awaiting) {index sid : ℕ} {root msg : Json}
    (hack : Acknowledges library feed index sid root msg record) :
    ∃ next, feed.accept library record = (next, {}) ∧ Awaiting next ∧
      next.state = feed.state ∧ next.acknowledged = feed.acknowledged.set index true := by
  obtain ⟨next, hresult, htime, hstate, hacknowledged, hhealthy, hsent, hcommands⟩ :=
    hack.acknowledgeOn_eq
  have hnew : ¬(index + 1 = 0 ∨ sid = 0 ∨ root.contains "seq" = true ∨
      (feed.timed record).acknowledged[index + 1 - 1]? = some true) := by
    simp [hack.sid_pos.ne', hack.unnumbered, timed, hack.pending]
  have haccept : feed.accept library record = (next, {}) := by
    refine hack.message.accept_eq h.inv h.healthy ?_
    have hall : (feed.timed record).sent = feed.commands.length := h.sent_eq
    rw [receiveMessage, hack.message.kind_eq]
    simp only [bind, Except.bind, if_true, receiveSubscribed]
    rw [hall, hack.id_eq]
    simp only [hack.message.fieldAt_msg, hack.sid_eq, ReadOnlyFeed.acknowledge]
    rw [if_neg hnew, hack.channel_eq]
    simp only [bind, Except.bind, hresult]
  obtain ⟨hnext, -⟩ := h.inv.taken haccept htime
  exact ⟨next, haccept, ⟨hnext, hhealthy.trans h.healthy,
    hsent.trans (h.sent_eq.trans (by rw [hcommands])),
    fun marketId book hbook => h.awaiting marketId book (hstate ▸ hbook)⟩, hstate, hacknowledged⟩

/-- A snapshot replaces a book that is neither stale nor valid. -/
theorem applySnapshot_first {state : MarketState} {snapshot : BookSnapshot}
    (haccepts : state.accepts snapshot.connectionGeneration = true)
    (hnext : state.scope = .sharedStream →
      state.acceptsSequence snapshot.streamId snapshot.sequence = true)
    (hbook : ∀ book, state.findBook snapshot.marketId = some book →
      book.state ≠ .stale ∧ book.state ≠ .valid)
    {bids asks : Levels} (hbids : OrderBook.loadLevels snapshot.bids {} = some bids)
    (hasks : OrderBook.loadLevels snapshot.asks {} = some asks) :
    state.applySnapshot snapshot = ({ state with
      books := state.books.insert snapshot.marketId
        { state := .valid, streamId := some snapshot.streamId,
          lastSequence := some snapshot.sequence, bids, asks }
      streamSequences := if state.scope = .sharedStream then
          state.streamSequences.insert snapshot.streamId snapshot.sequence
        else state.streamSequences }, .book .applied) := by
  set book := state.books[snapshot.marketId]?.getD {} with hfound
  have hstate : book.state ≠ .stale ∧ book.state ≠ .valid := by
    cases hknown : state.findBook snapshot.marketId with
    | none =>
      rw [hfound, ← MarketState.findBook.eq_def state, hknown]
      exact ⟨BookState.noConfusion, BookState.noConfusion⟩
    | some other =>
      rw [hfound, ← MarketState.findBook.eq_def state, hknown]
      exact hbook other hknown
  have hobstacle : book.snapshotObstacle snapshot.streamId snapshot.sequence = none := by
    unfold OrderBook.snapshotObstacle
    rw [if_neg hstate.1]
    split
    · next hvalid _ _ => exact absurd hvalid hstate.2
    · rfl
  have happlied : book.applySnapshot snapshot.streamId snapshot.sequence snapshot.bids
      snapshot.asks =
        ({ state := .valid, streamId := some snapshot.streamId,
           lastSequence := some snapshot.sequence, bids, asks }, .applied) := by
    unfold OrderBook.applySnapshot
    rw [hobstacle, hbids, hasks]
  have hordered : ¬(state.scope = .sharedStream ∧
      (!state.acceptsSequence snapshot.streamId snapshot.sequence) = true) := by
    rintro ⟨hscope, hgap⟩
    rw [hnext hscope] at hgap
    exact Bool.false_ne_true hgap
  unfold MarketState.applySnapshot
  rw [haccepts, if_neg (by simp), if_neg hordered]
  dsimp only
  rw [← hfound, happlied]
  exact MarketState.finish_applied _ _ _

/-- The snapshot of a message has its market, generation, stream and sequence. -/
theorem normalizeOrderbookSnapshot_stream {wire : WireOrderBookSnapshot} {event : BookSnapshot}
    (h : normalizeOrderbookSnapshot wire = .ok event) :
    event.streamId = wire.streamId ∧ event.sequence = wire.sequence := by
  unfold normalizeOrderbookSnapshot at h
  obtain ⟨bids, -, h⟩ := bind_eq_ok h
  obtain ⟨asks, -, h⟩ := bind_eq_ok h
  obtain rfl := Except.ok.inj h
  exact ⟨rfl, rfl⟩

/-- The processor applies a valid first snapshot. -/
theorem FirstSnapshot.processBook_eq {marketId : MarketId} {root msg : Json}
    {wire : WireOrderBookSnapshot} {snapshot : BookSnapshot}
    (h : FirstSnapshot library feed marketId root msg wire snapshot record)
    (haccepts : feed.state.accepts feed.generation = true)
    (hstale : ∀ book, feed.state.findBook marketId = some book → book.state ≠ .stale) :
    ∃ next : ReadOnlyFeed, (feed.timed record).processBook record root marketId =
        (next, (VenueAnswer.snapshot marketId).update) ∧
      next.lastTime = record.receivedAt.toInt ∧ next.acknowledged = feed.acknowledged ∧
      next.healthy = feed.healthy ∧ next.sent = feed.sent ∧ next.commands = feed.commands ∧
      ∃ book, book.state = .valid ∧ ∀ other, next.state.findBook other =
        if other = marketId then some book else feed.state.findBook other := by
  obtain ⟨text, hticker, hmarket⟩ := h.ticker
  obtain ⟨-, -, hgeneration, body, wireText, hbody, hwireText, hwireMarket⟩ :=
    decodeOrderbookJson_spec h.wire_eq
  obtain rfl := Option.some.inj (h.message.msg_eq.symm.trans hbody)
  obtain rfl : text = wireText := by simpa using (string_eq_ok hticker).symm.trans hwireText
  obtain ⟨hid, hwireGeneration⟩ :=
    OrderBookProcessor.normalizeOrderbookSnapshot_spec h.snapshot_eq
  obtain ⟨hstream, hsequence⟩ := normalizeOrderbookSnapshot_stream h.snapshot_eq
  have hmarketId : snapshot.marketId = marketId :=
    hid.trans (Option.some.inj (hwireMarket.symm.trans hmarket))
  obtain ⟨bids, hbids⟩ := Option.isSome_iff_exists.mp h.bids
  obtain ⟨asks, hasks⟩ := Option.isSome_iff_exists.mp h.asks
  have hsnapshotGeneration : snapshot.connectionGeneration = feed.generation :=
    hwireGeneration.trans (hgeneration.trans h.message.framed.generation_eq)
  have happlied := @applySnapshot_first feed.state snapshot
    (hsnapshotGeneration ▸ haccepts) (hstream ▸ hsequence ▸ h.next)
    (fun book hbook => ⟨hstale book (hmarketId ▸ hbook), fun hvalid =>
      h.first ⟨book, hmarketId ▸ hbook, hvalid⟩⟩) _ _ hbids hasks
  have hprocessed : (feed.timed record).processor.processDecoded (.ok (.snapshot wire)) =
      ({ feed.processor with
        state := (feed.state.applySnapshot snapshot).1
        lastMarketId := some snapshot.marketId },
        .market (feed.state.applySnapshot snapshot).2) := by
    simp only [OrderBookProcessor.processDecoded, Gateway.normalize, h.snapshot_eq, Except.map,
      MarketState.apply]
    rfl
  have hdecoded : decodeOrderbookJson root record.connectionGeneration.toNat
      record.receivedAt.toInt (feed.timed record).processor.markets
      ((feed.timed record).protocol != .perMarketV1) = .ok (.snapshot wire) := h.wire_eq
  unfold processBook
  dsimp only
  rw [hdecoded, hprocessed, happlied]
  refine ⟨_, if_neg (not_not.mpr rfl), rfl, rfl, rfl, rfl, rfl,
    { state := .valid, streamId := some snapshot.streamId,
      lastSequence := some snapshot.sequence, bids, asks }, rfl, fun other => ?_⟩
  rw [← hmarketId]
  exact MarketState.findBook_insert feed.state _ _ _

/-- **A valid first snapshot is applied.** -/
theorem Awaiting.snapshot (h : feed.Awaiting) {marketId : MarketId} {root msg : Json}
    {wire : WireOrderBookSnapshot} {snapshot : BookSnapshot}
    (hfirst : FirstSnapshot library feed marketId root msg wire snapshot record) :
    ∃ next, feed.accept library record =
        (next, (VenueAnswer.snapshot marketId).update) ∧ Awaiting next ∧
      next.acknowledged = feed.acknowledged ∧ InState next.state marketId .valid ∧
      ∀ other, InState feed.state other .valid → InState next.state other .valid := by
  have hconnected : feed.state.connected = true := h.inv.connected.trans h.healthy
  have haccepts : feed.state.accepts feed.generation = true := by
    simp [MarketState.accepts, hconnected, h.inv.books.current hconnected]
  obtain ⟨next, hresult, htime, hacknowledged, hhealthy, hsent, hcommands, book, hvalid, hbooks⟩ :=
    hfirst.processBook_eq haccepts (h.awaiting marketId)
  have haccept : feed.accept library record =
      (next, (VenueAnswer.snapshot marketId).update) := by
    refine hfirst.message.accept_eq h.inv h.healthy ?_
    obtain ⟨text, hticker, hmarket⟩ := hfirst.ticker
    obtain ⟨subscription, hsubscription, hper⟩ := hfirst.subscribed
    have hmatch : (feed.timed record).subscriptionMismatch wire.streamId marketId = false := by
      have hfound : (feed.timed record).subscriptions[wire.streamId]? = some subscription :=
        hsubscription
      unfold subscriptionMismatch
      rw [hfound]
      simp only [Bool.or_eq_false_iff, beq_eq_false_iff_ne]
      refine ⟨hfirst.not_trade, ?_⟩
      split
      · next hprotocol => simp [hper hprotocol]
      · exact decide_eq_false (not_not.mpr hfirst.selected)
    have hsolicited :
        (feed.timed record).unsolicited "orderbook_snapshot" marketId = false := by
      unfold unsolicited
      split
      · simp
      · next found hfound =>
        simpa using fun hvalid => hfirst.first ⟨found, hfound, hvalid⟩
    have hregistered : (feed.timed record).processor.markets.findMarket text = some marketId :=
      hmarket
    rw [receiveMessage, hfirst.message.kind_eq]
    simp only [bind, Except.bind]
    rw [if_neg (by decide), if_neg fun htrade => absurd htrade.1 (by decide), if_neg (by decide),
      receiveBook]
    simp only [bind, Except.bind, hfirst.sid_eq, hfirst.sequence_eq]
    rw [if_neg hfirst.sequence_pos.ne']
    simp only [hfirst.message.fieldAt_msg, hticker, hregistered, hmatch, hsolicited,
      Bool.false_eq_true, if_false, hresult]
  obtain ⟨hnext, -⟩ := h.inv.taken haccept htime
  refine ⟨next, haccept, ⟨hnext, hhealthy.trans h.healthy,
    hsent.trans (h.sent_eq.trans (by rw [hcommands])), fun other found hfound => ?_⟩,
    hacknowledged, ⟨book, by rw [hbooks, if_pos rfl], hvalid⟩, fun other hother => ?_⟩
  · rw [hbooks] at hfound
    split at hfound
    · rw [← Option.some.inj hfound, hvalid]
      exact BookState.noConfusion
    · exact h.awaiting other found hfound
  · obtain ⟨found, hfound, hstate⟩ := hother
    by_cases hsame : other = marketId
    · exact ⟨book, by rw [hbooks, if_pos hsame], hvalid⟩
    · exact ⟨found, by rw [hbooks, if_neg hsame, hfound], hstate⟩

/-! ### Until the feed is ready -/

/-- **A valid answer is accepted**, keeps what was achieved and achieves what it is for. -/
theorem Awaiting.answer (h : feed.Awaiting) {answer : VenueAnswer}
    (hcarries : Carries library feed record answer) :
    (feed.accept library record).2 = answer.update ∧ Awaiting (feed.accept library record).1 ∧
      Achieved (feed.accept library record).1 answer ∧
      ∀ other, Achieved feed other → Achieved (feed.accept library record).1 other := by
  cases answer with
  | acknowledgement index =>
    obtain ⟨sid, root, msg, hack⟩ := hcarries
    obtain ⟨next, haccept, hnext, hstate, hacknowledged⟩ := h.acknowledge hack
    have hmarked (other : ℕ) : next.acknowledged[other]? = some true ↔
        other = index ∨ feed.acknowledged[other]? = some true := by
      rw [hacknowledged, List.getElem?_set]
      by_cases hsame : index = other
      · have hlength : other < feed.acknowledged.length := by
          rw [h.inv.acknowledged_length, ← hsame]
          exact hack.planned
        simp [hsame, hlength]
      · simp [hsame, eq_comm]
    rw [haccept]
    refine ⟨rfl, hnext, (hmarked index).mpr (Or.inl rfl), fun other hother => ?_⟩
    cases other with
    | acknowledgement other => exact (hmarked other).mpr (Or.inr hother)
    | snapshot marketId =>
      rw [Achieved] at hother ⊢
      rwa [hstate]
  | snapshot marketId =>
    obtain ⟨root, msg, wire, snapshot, hfirst⟩ := hcarries
    obtain ⟨next, haccept, hnext, hacknowledged, hvalid, hkept⟩ := h.snapshot hfirst
    rw [haccept]
    refine ⟨rfl, hnext, hvalid, fun other hother => ?_⟩
    cases other with
    | acknowledgement index =>
      rw [Achieved] at hother ⊢
      rwa [hacknowledged]
    | snapshot other => exact hkept other hother

/-- **All answers are accepted**, and everything that they are for is achieved. -/
theorem Awaiting.answers (h : feed.Awaiting) {answers : List (VenueAnswer × RawMarketRecord)}
    (hanswers : Answers library feed answers) :
    updates library feed (answers.map Prod.snd) = answers.map (·.1.update) ∧
      Awaiting (feed.afterRecords library (answers.map Prod.snd)) ∧
      ∀ answer, Achieved feed answer ∨ answer ∈ answers.map Prod.fst →
        Achieved (feed.afterRecords library (answers.map Prod.snd)) answer := by
  induction answers generalizing feed with
  | nil => exact ⟨rfl, h, fun answer hanswer => hanswer.resolve_right List.not_mem_nil⟩
  | cons first answers ih =>
    obtain ⟨answer, record⟩ := first
    obtain ⟨hcarries, hrest⟩ := hanswers
    obtain ⟨hupdate, hnext, hachieved, hkept⟩ := h.answer hcarries
    obtain ⟨hupdates, hlast, hall⟩ := ih hnext hrest
    refine ⟨?_, hlast, fun other hother => hall other ?_⟩
    · rw [List.map_cons, updates, hupdate, hupdates, List.map_cons]
    · rw [List.map_cons, List.mem_cons] at hother
      rcases hother with hother | rfl | hmem
      · exact Or.inl (hkept other hother)
      · exact Or.inl hachieved
      · exact Or.inr hmem

/-- With every command acknowledged and every selected book valid, the feed is ready. -/
theorem Awaiting.ready (h : feed.Awaiting)
    (hacknowledged : ∀ index < feed.commands.length,
      Achieved feed (.acknowledgement index))
    (hvalid : ∀ marketId ∈ feed.selection, Achieved feed (.snapshot marketId)) :
    feed.ready = true := by
  have hcount : feed.state.validBookCount = feed.selection.length := by
    rw [MarketState.validBookCount_eq]
    refine List.Perm.length_eq ((List.perm_ext_iff_of_nodup
      (MarketState.nodup_validMarkets feed.state) h.inv.selection_nodup).mpr fun marketId => ?_)
    rw [MarketState.mem_validMarkets]
    constructor
    · rintro ⟨book, hbook, -⟩
      exact h.inv.books.selected marketId (Option.isSome_of_eq_some hbook)
    · exact hvalid marketId
  have hall : ∀ value ∈ feed.acknowledged, value = true := by
    intro value hmem
    obtain ⟨index, hlt, rfl⟩ := List.mem_iff_getElem.mp hmem
    have hmarked := hacknowledged index (h.inv.acknowledged_length ▸ hlt)
    rw [Achieved, List.getElem?_eq_getElem hlt] at hmarked
    exact Option.some.inj hmarked
  simp only [ReadOnlyFeed.ready, h.healthy, hcount, beq_self_eq_true, Bool.true_and,
    List.all_eq_true]
  exact hall

end ReadOnlyFeed

/-! ### A closed feed recovers -/

/-- **The feed can always recover.** After every sequence of records and aborts that leaves the
feed closed, and for every generation above the last one:

* the control records of a new connection are accepted as control, and the feed is healthy;
* then each selected market has no book yet or one that waits for its recovery snapshot;
* when each command is validly acknowledged and each market has a valid first snapshot, in any
  order, the answers are accepted and the feed is ready. -/
theorem feed_recovers {library : JsonLibrary} {markets : MarketRegistry}
    {selection : List MarketId} {protocol : FeedProtocol} {start : ReadOnlyFeed}
    (hcreate : ReadOnlyFeed.create library markets selection protocol = .ok start)
    (inputs : List FeedInput)
    (hclosed : (run (stepFeed library) start inputs).closed = true) {generation : ℕ}
    (hlt : (run (stepFeed library) start inputs).generation < generation)
    {records : List RawMarketRecord}
    (hrecords : (run (stepFeed library) start inputs).Reconnects generation records) :
    let feed := run (stepFeed library) start inputs
    let reconnected := feed.afterRecords library records
    ReadOnlyFeed.updates library feed records = records.map (fun _ => {}) ∧
    reconnected.healthy = true ∧ reconnected.generation = generation ∧
    (∀ marketId ∈ selection, reconnected.state.findBook marketId = none ∨
      InState reconnected.state marketId .recovering) ∧
    ∀ answers : List (ReadOnlyFeed.VenueAnswer × RawMarketRecord),
      ReadOnlyFeed.Answers library reconnected answers →
      (∀ index < start.commands.length, .acknowledgement index ∈ answers.map Prod.fst) →
      (∀ marketId ∈ selection, .snapshot marketId ∈ answers.map Prod.fst) →
      ReadOnlyFeed.updates library reconnected (answers.map Prod.snd) =
          answers.map (·.1.update) ∧
        (reconnected.afterRecords library (answers.map Prod.snd)).ready = true := by
  obtain ⟨hstart, -, -, -, -, -, hselection⟩ := ReadOnlyFeed.inv_create hcreate
  intro feed reconnected
  have hfeed := hstart.run library inputs
  have hsame : start.SameSetup feed := hstart.sameSetup_run library inputs
  have hmem (marketId : MarketId) : marketId ∈ selection ↔ marketId ∈ feed.selection := by
    rw [hsame.selection_eq, hselection, List.mem_insertionSort]
  obtain ⟨hupdates, hawaiting, hgeneration, hbooks⟩ :=
    @ReadOnlyFeed.Inv.reconnects library feed hfeed
      (ReadOnlyFeed.unopened_run hcreate inputs) (Bool.not_eq_true' _ ▸ hclosed)
      (by rw [hsame.protocol_eq, hsame.commands_eq]; exact ReadOnlyFeed.commands_pos hcreate)
      _ hlt _ hrecords
  refine ⟨hupdates, hawaiting.healthy, hgeneration,
    fun marketId hselected => hbooks marketId ((hmem marketId).mp hselected),
    fun answers hanswers hacknowledgements hsnapshots => ?_⟩
  obtain ⟨hanswered, hlast, hachieved⟩ := hawaiting.answers hanswers
  have hkept := (hsame.trans (hfeed.sameSetup_run library _)).trans
    (hawaiting.inv.sameSetup_run library ((answers.map Prod.snd).map .record))
  refine ⟨hanswered, hlast.ready (fun index hindex => hachieved _ (Or.inr ?_))
    fun marketId hselected => hachieved _ (Or.inr ?_)⟩
  · exact hacknowledgements index (hkept.commands_eq ▸ hindex)
  · refine hsnapshots marketId ((hmem marketId).mpr ?_)
    rw [hsame.selection_eq, ← hkept.selection_eq]
    exact hselected

/-! ### A small recovery -/

/-- The acknowledgement of the subscription to the market. -/
def sampleAcknowledgement : Json :=
  .object [("type", .string "subscribed"), ("id", .unsigned 1),
    ("msg", .object [("channel", .string "orderbook_delta"), ("sid", .unsigned 5)])]

/-- A snapshot of the market with one level. -/
def sampleSnapshot : Json :=
  .object [("type", .string "orderbook_snapshot"), ("sid", .unsigned 5), ("seq", .unsigned 1),
    ("msg", .object [("market_ticker", .string "RAIN"),
      ("yes_dollars_fp", .array [.array [.string "0.4000", .string "10.00"]]),
      ("no_dollars_fp", .array [])])]

def acknowledgementText : List UInt8 :=
  ascii "\x7b\"type\":\"subscribed\",\"id\":1,\"msg\":" ++
    ascii "\x7b\"channel\":\"orderbook_delta\",\"sid\":5\x7d\x7d"

def snapshotText : List UInt8 :=
  ascii "\x7b\"type\":\"orderbook_snapshot\",\"sid\":5,\"seq\":1,\"msg\":" ++
    ascii "\x7b\"market_ticker\":\"RAIN\",\"yes_dollars_fp\":[[\"0.4000\",\"10.00\"]]," ++
    ascii "\"no_dollars_fp\":[]\x7d\x7d"

/-- A library that also reads the two messages. -/
def recoveryLibrary : JsonLibrary where
  parse payload :=
    if payload = acknowledgementText then
      { events := [(0, .objectStart), (1, .key "type"), (1, .value), (1, .key "id"), (1, .value),
          (1, .key "msg"), (1, .objectStart), (2, .key "channel"), (2, .value), (2, .key "sid"),
          (2, .value), (1, .objectEnd), (0, .objectEnd)]
        value := some sampleAcknowledgement }
    else if payload = snapshotText then
      { events := [(0, .objectStart), (1, .key "type"), (1, .value), (1, .key "sid"), (1, .value),
          (1, .key "seq"), (1, .value), (1, .key "msg"), (1, .objectStart),
          (2, .key "market_ticker"), (2, .value), (2, .key "yes_dollars_fp"), (2, .arrayStart),
          (3, .arrayStart), (4, .value), (4, .value), (3, .arrayEnd), (2, .arrayEnd),
          (2, .key "no_dollars_fp"), (2, .arrayStart), (2, .arrayEnd), (1, .objectEnd),
          (0, .objectEnd)]
        value := some sampleSnapshot }
    else { events := [], value := none }
  dump := sampleLibrary.dump

set_option maxRecDepth 4096 in
theorem parse_acknowledgement :
    parseStrict recoveryLibrary acknowledgementText = .ok sampleAcknowledgement := rfl

set_option maxRecDepth 4096 in
theorem parse_snapshot : parseStrict recoveryLibrary snapshotText = .ok sampleSnapshot := rfl

/-- A record of the second generation. -/
def secondRecord (channel : String) (receivedAt : Int64) (payload : List UInt8) :
    RawMarketRecord :=
  { sampleRecord channel receivedAt payload with connectionGeneration := 2 }

def sampleReconnection : List RawMarketRecord :=
  [secondRecord "ws.attempt.v1" 6 (ascii "attempt"), secondRecord "ws.open.v1" 7 (ascii "open"),
    secondRecord "ws.send.v1" 8 (sampleLibrary.dump .null)]

def sampleAnswers : List (ReadOnlyFeed.VenueAnswer × RawMarketRecord) :=
  [(.acknowledgement 0, secondRecord "ws.receive.v1" 9 acknowledgementText),
    (.snapshot 7, secondRecord "ws.receive.v1" 10 snapshotText)]

/-- A generation that is opened, fails and is closed. -/
def failedInputs : List FeedInput :=
  [.record (sampleRecord "ws.attempt.v1" 1 (ascii "attempt")),
    .record (sampleRecord "ws.open.v1" 2 (ascii "open")), .abort,
    .record (sampleRecord "ws.close.v1" 5 (ascii "close"))]

/-- After a failed generation the second one gets ready. -/
theorem feed_recovers_sample :
    ∃ start, ReadOnlyFeed.create recoveryLibrary sampleMarkets [7] .perMarketV1 = .ok start ∧
      let failed := run (stepFeed recoveryLibrary) start failedInputs
      let reconnected := failed.afterRecords recoveryLibrary sampleReconnection
      reconnected.healthy = true ∧
      (reconnected.afterRecords recoveryLibrary (sampleAnswers.map Prod.snd)).ready = true := by
  refine ⟨_, rfl, ?_⟩
  intro failed reconnected
  obtain ⟨hclosed, hlt, hmetadata, hordered⟩ : failed.closed = true ∧ failed.generation < 2 ∧
      failed.processor.markets.metadataVersion = 1 ∧
      (failed.lastTime :: sampleReconnection.map (·.receivedAt.toInt)).IsChain (· ≤ ·) := by
    decide +kernel
  have hrecords : failed.Reconnects 2 sampleReconnection := by
    refine ⟨by decide, by decide +kernel, ?_, hordered⟩
    simp only [sampleReconnection, List.forall_mem_cons]
    exact ⟨⟨rfl, hmetadata.symm, rfl, rfl, rfl⟩, ⟨rfl, hmetadata.symm, rfl, rfl, rfl⟩,
      ⟨rfl, hmetadata.symm, rfl, rfl, rfl⟩, nofun⟩
  obtain ⟨-, hhealthy, hgeneration, -, hanswers⟩ :=
    @feed_recovers recoveryLibrary sampleMarkets [7] .perMarketV1 _ rfl failedInputs
      hclosed 2 hlt sampleReconnection hrecords
  refine ⟨hhealthy, (hanswers sampleAnswers ⟨?_, ?_, trivial⟩ ?_ ?_).2⟩
  · obtain ⟨hmetadata, hordered, hplanned, hpending, hid, hnew, hchannel⟩ :
        UInt64.toNat 1 = reconnected.processor.markets.metadataVersion ∧
        reconnected.lastTime ≤ 9 ∧
        0 < reconnected.commands.length ∧ reconnected.acknowledged[0]? = some false ∧
        integer sampleAcknowledgement "id" reconnected.commands.length = .ok 1 ∧
        5 ∉ reconnected.subscriptions ∧ reconnected.protocol ≠ .bookAndTradesV1 := by
      decide +kernel
    have hframed : reconnected.Framed reconnected.generation
        (secondRecord "ws.receive.v1" 9 acknowledgementText) :=
      ⟨rfl, hmetadata, rfl, rfl, hgeneration.symm⟩
    have hacknowledges : ReadOnlyFeed.Acknowledges recoveryLibrary reconnected 0 5
        sampleAcknowledgement
        (.object [("channel", .string "orderbook_delta"), ("sid", .unsigned 5)])
        (secondRecord "ws.receive.v1" 9 acknowledgementText) :=
      ⟨⟨hframed, hordered, rfl, parse_acknowledgement, by decide +kernel, rfl⟩, hplanned, hpending,
        hid, by decide +kernel, by decide, hnew,
        by rw [if_neg fun htrade => hchannel htrade.1]; decide +kernel, by decide +kernel⟩
    exact ⟨5, _, _, hacknowledges⟩
  · set acknowledged := (reconnected.accept recoveryLibrary
      (secondRecord "ws.receive.v1" 9 acknowledgementText)).1
    obtain ⟨hmetadata, hcurrent, hordered, hmarket, hselected, hsubscribed, hnotTrade, hwire, hnext,
        hunknown⟩ :
        UInt64.toNat 1 = acknowledged.processor.markets.metadataVersion ∧
        UInt64.toNat 2 = acknowledged.generation ∧
        acknowledged.lastTime ≤ 10 ∧
        acknowledged.processor.markets.findMarket "RAIN" = some 7 ∧ 7 ∈ acknowledged.selection ∧
        acknowledged.subscriptions[5]? = some 7 ∧ 5 ≠ acknowledged.tradeSid ∧
        decodeOrderbookJson sampleSnapshot 2 10 acknowledged.processor.markets
            (acknowledged.protocol != .perMarketV1) =
          .ok (.snapshot ⟨7, 2, 5, 1, 10, [⟨"0.4000", "10.00"⟩], []⟩) ∧
        acknowledged.state.acceptsSequence 5 1 = true ∧
        (acknowledged.state.findBook 7).isNone = true := by
      decide +kernel
    have hframed : acknowledged.Framed acknowledged.generation
        (secondRecord "ws.receive.v1" 10 snapshotText) :=
      ⟨rfl, hmetadata, rfl, rfl, hcurrent⟩
    have hfirst : ReadOnlyFeed.FirstSnapshot recoveryLibrary acknowledged 7 sampleSnapshot
        (.object [("market_ticker", .string "RAIN"),
          ("yes_dollars_fp", .array [.array [.string "0.4000", .string "10.00"]]),
          ("no_dollars_fp", .array [])])
        ⟨7, 2, 5, 1, 10, [⟨"0.4000", "10.00"⟩], []⟩
        ⟨7, 2, 5, 1, 10, [⟨⟨4000, by decide⟩, ⟨1000, by decide⟩⟩], []⟩
        (secondRecord "ws.receive.v1" 10 snapshotText) := by
      refine ⟨⟨hframed, hordered, rfl, parse_snapshot, by decide +kernel, rfl⟩, by decide +kernel,
        by decide +kernel, by decide, ⟨"RAIN", by decide +kernel, hmarket⟩, hselected,
        ⟨7, hsubscribed, fun _ => rfl⟩, hnotTrade, hwire, by decide +kernel, by decide +kernel,
        by decide +kernel, fun _ => hnext, ?_⟩
      rintro ⟨book, hbook, -⟩
      rw [hbook] at hunknown
      exact nomatch hunknown
    exact ⟨_, _, _, _, hfirst⟩
  · intro index hindex
    have hzero : index = 0 := by
      have hlt : index < 1 := hindex
      omega
    exact hzero ▸ List.mem_cons_self
  · intro marketId hmem
    rw [List.mem_singleton.mp hmem]
    exact List.mem_cons_of_mem _ List.mem_cons_self

end EventMarket.Session
