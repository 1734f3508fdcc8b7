import EventMarket.Session.ReadOnlyFeed

/-!
# What a record does to the feed

Every record has one of ten outcomes. The feed fails and its books are closed, or one of its
control or market transitions takes place, with everything that the feed has checked for it.

## Main definitions

* `BooksOk`: the books belong to the generation and the selection of a feed.
* `ReadOnlyFeed.Inv`: the invariant of a feed.
* `ReadOnlyFeed.Outcome`: the outcomes of a record.

## Main results

* `ReadOnlyFeed.Inv.outcome_accept`: a record has one of the outcomes.
-/

namespace EventMarket.Session

open Book Core Foundations Gateway Journal Market

/-- No book is valid. -/
def NoneValid (state : MarketState) : Prop :=
  ∀ marketId book, state.findBook marketId = some book → book.state ≠ .valid

/-- The books belong to the generation and the selection of a feed. -/
structure BooksOk (state : MarketState) (generation : ℕ) (selection : List MarketId) : Prop where
  current : state.connected = true → state.connectionGeneration = some generation
  last_le : ∀ last, state.connectionGeneration = some last → last ≤ generation
  none_valid : state.connected = false → NoneValid state
  selected : ∀ marketId, (state.findBook marketId).isSome → marketId ∈ selection

/-- The books are closed. -/
structure Shut (state : MarketState) (generation : ℕ) (selection : List MarketId) : Prop where
  disconnected : state.connected = false
  ok : BooksOk state generation selection

theorem Shut.none_valid {state : MarketState} {generation : ℕ} {selection : List MarketId}
    (h : Shut state generation selection) : NoneValid state := h.ok.none_valid h.disconnected

section Books

variable {state next : MarketState} {generation : ℕ} {selection : List MarketId}

/-- What gains nothing keeps the books in order. -/
theorem BooksOk.degrades (h : BooksOk state generation selection) (hdegrades : state.Degrades next)
    (hselected : ∀ marketId, (next.findBook marketId).isSome → marketId ∈ selection) :
    BooksOk next generation selection where
  current hconnected := by
    rw [hdegrades.generation_eq]
    rcases hdegrades.closed with hsame | ⟨hclosed, -⟩
    · exact h.current (hsame.symm.trans hconnected)
    · exact absurd (hclosed.symm.trans hconnected) Bool.false_ne_true
  last_le last hlast := h.last_le last (hdegrades.generation_eq.symm.trans hlast)
  none_valid hconnected := by
    rcases hdegrades.closed with hsame | ⟨-, hnone⟩
    · exact fun m book hbook hvalid =>
        h.none_valid (hsame.symm.trans hconnected) m book
          (hdegrades.valid m book hbook hvalid) hvalid
    · exact hnone
  selected := hselected

/-- Books that change on an open connection stay in order. -/
theorem BooksOk.update (h : BooksOk state generation selection)
    (hopen : state.connected = true) (hconnected : next.connected = state.connected)
    (hcurrent : next.connectionGeneration = state.connectionGeneration)
    (hselected : ∀ marketId, (next.findBook marketId).isSome → marketId ∈ selection) :
    BooksOk next generation selection where
  current _ := hcurrent.trans (h.current hopen)
  last_le last hlast := h.last_le last (hcurrent.symm.trans hlast)
  none_valid hclosed :=
    absurd (hclosed.symm.trans (hconnected.trans hopen)) Bool.false_ne_true
  selected := hselected

/-- Closing the connection of the current generation shuts the books. -/
theorem BooksOk.shut_close (h : BooksOk state generation selection)
    (hconnected : state.connected = true) :
    Shut (state.closeConnection generation).1 generation selection := by
  have hok := h.degrades (state.degrades_closeConnection generation) fun m hm => by
    rw [MarketState.isSome_findBook_closeConnection] at hm
    exact h.selected m hm
  rcases state.closeConnection_cases generation with ⟨-, hrefused⟩ | ⟨hclosed, -, -⟩
  · rcases hrefused with hfalse | hother
    · exact absurd (hfalse.symm.trans hconnected) Bool.false_ne_true
    · exact absurd (h.current hconnected) hother
  · exact ⟨by rw [hclosed]; rfl, hok⟩

end Books

namespace ReadOnlyFeed

variable {library : JsonLibrary} {feed : ReadOnlyFeed} {record : RawMarketRecord}

/-- The command that asks for the book of the market was sent. -/
def Requested (feed : ReadOnlyFeed) (marketId : MarketId) : Prop :=
  if feed.protocol = .perMarketV1 then
    ∃ index < feed.sent, feed.selection[index]? = some marketId
  else 0 < feed.sent

/-- The invariant of a feed. -/
structure Inv (feed : ReadOnlyFeed) : Prop where
  books : BooksOk feed.state feed.generation feed.selection
  connected : feed.state.connected = feed.healthy
  attempting : feed.opened = true → feed.attempting = true
  fresh : feed.attempting = true → feed.opened = false → feed.sent = 0
  requested : ∀ marketId book, feed.state.findBook marketId = some book → book.state = .valid →
    feed.Requested marketId
  subscribed : ∀ (sid : ℕ) (marketId : MarketId), feed.subscriptions[sid]? = some marketId →
    0 < feed.sent ∧ (feed.protocol = .perMarketV1 → feed.Requested marketId)
  selection_nodup : feed.selection.Nodup
  commands_length : feed.protocol = .perMarketV1 → feed.commands.length = feed.selection.length
  sent_le : feed.sent ≤ feed.commands.length
  acknowledged_length : feed.acknowledged.length = feed.commands.length
  subscription_pos : ∀ (sid : ℕ) (marketId : MarketId), feed.subscriptions[sid]? = some marketId →
    0 < sid
  trade_acknowledged : feed.tradeSid ≠ 0 → feed.acknowledged[1]? = some true

/-- The outcomes of a record whose envelope is right. -/
inductive Outcome (library : JsonLibrary) (feed : ReadOnlyFeed) (record : RawMarketRecord) :
    ReadOnlyFeed → FeedUpdate → Prop
  /-- Something unexpected: the feed is faulted and its books are shut. -/
  | failed {processor : OrderBookProcessor} {update : FeedUpdate}
      (hevent : update.event = .invalidated ∨ update.event = .invalidHistory)
      (hmarkets : processor.markets = feed.processor.markets)
      (hshut : Shut processor.state feed.generation feed.selection) :
      Outcome library feed record { feed with processor, faulted := true } update
  /-- Input to a feed that is not healthy. -/
  | ignored (hhealthy : feed.healthy = false) :
      Outcome library feed record feed
        { event := .invalidHistory, reason := "input after failure" }
  /-- A tick of the clock or a ping. -/
  | quiet : Outcome library feed record feed {}
  | attempted (hchannel : record.channel = ascii "ws.attempt.v1")
      (hidle : feed.attempting = false)
      (hlt : feed.generation < record.connectionGeneration.toNat) :
      Outcome library feed record { feed with
        generation := record.connectionGeneration.toNat
        attempting := true
        opened := false
        faulted := false
        sent := 0
        tradeSid := 0
        tradeSequence := 0
        acknowledged := feed.acknowledged.map fun _ => false
        subscriptions := {} } {}
  | closed {processor : OrderBookProcessor}
      (hmarkets : processor.markets = feed.processor.markets)
      (hshut : Shut processor.state feed.generation feed.selection) :
      Outcome library feed record { feed with processor, attempting := false, opened := false } {}
  | opened {processor : OrderBookProcessor} (hchannel : record.channel = ascii "ws.open.v1")
      (hgeneration : record.connectionGeneration.toNat = feed.generation)
      (hattempting : feed.attempting = true) (hopened : feed.opened = false)
      (hfaulted : feed.faulted = false)
      (hmarkets : processor.markets = feed.processor.markets)
      (hconnected : processor.state.connected = true)
      (hnone : NoneValid processor.state)
      (hbooks : BooksOk processor.state feed.generation feed.selection) :
      Outcome library feed record { feed with processor, opened := true } {}
  | sent {processor : OrderBookProcessor} (hchannel : record.channel = ascii "ws.send.v1")
      (hgeneration : record.connectionGeneration.toNat = feed.generation)
      (hhealthy : feed.healthy = true)
      (hpayload : feed.commands[feed.sent]? = some record.payload)
      (hmarkets : processor.markets = feed.processor.markets)
      (hconnected : processor.state.connected = feed.state.connected)
      (hvalid : ∀ marketId book, processor.state.findBook marketId = some book →
        book.state = .valid → feed.state.findBook marketId = some book)
      (hbooks : BooksOk processor.state feed.generation feed.selection) :
      Outcome library feed record { feed with processor, sent := feed.sent + 1 } {}
  /-- An acknowledgement of a command that was sent. -/
  | acknowledged {root msg : Json} {id sid : ℕ} {trade : Prop} [Decidable trade]
      (hchannel : record.channel = ascii "ws.receive.v1")
      (hgeneration : record.connectionGeneration.toNat = feed.generation)
      (hhealthy : feed.healthy = true)
      (hroot : parseStrict library record.payload = .ok root)
      (hkind : root.find "type" = some (.string "subscribed"))
      (hid : root.find "id" = some (.unsigned id))
      (hmsg : root.find "msg" = some msg)
      (hsid : msg.find "sid" = some (.unsigned sid))
      (hsent : 0 < id ∧ id ≤ feed.sent)
      (hpos : 0 < sid)
      (hunacknowledged : feed.acknowledged[id - 1]? ≠ some true)
      (htrade : trade ↔ feed.protocol = .bookAndTradesV1 ∧ id = 2)
      (hbook : msg.find "channel" = some (.string (if trade then "trade" else "orderbook_delta")))
      (hnew : feed.subscriptions[sid]? = none) :
      Outcome library feed record { feed with
        subscriptions := feed.subscriptions.insert sid
          (if feed.protocol = .perMarketV1 then feed.selection[id - 1]?.getD 0 else 0)
        acknowledged := feed.acknowledged.set (id - 1) true
        tradeSid := if trade then sid else feed.tradeSid } {}
  /-- A trade of a selected market with the next sequence. -/
  | traded {root : Json} {sequence : ℕ} {update : FeedUpdate} {marketId : MarketId}
      (hchannel : record.channel = ascii "ws.receive.v1")
      (hgeneration : record.connectionGeneration.toNat = feed.generation)
      (hhealthy : feed.healthy = true)
      (hroot : parseStrict library record.payload = .ok root)
      (hsequence : root.find "seq" = some (.unsigned sequence))
      (hpos : 0 < sequence)
      (hnext : feed.tradeSequence ≠ 0 → sequence = feed.tradeSequence + 1)
      (hselected : marketId ∈ feed.selection)
      (hevent : update.event = .publicTrade) (hmarket : update.marketId = some marketId) :
      Outcome library feed record { feed with tradeSequence := sequence } update
  /-- A snapshot or a delta that was applied to the book of a market. -/
  | applied {processor : OrderBookProcessor} {root : Json} {sid : ℕ}
    {subscribed marketId : MarketId}
      {kind : String}
      (hchannel : record.channel = ascii "ws.receive.v1")
      (hgeneration : record.connectionGeneration.toNat = feed.generation)
      (hhealthy : feed.healthy = true)
      (hroot : parseStrict library record.payload = .ok root)
      (hkind : root.find "type" = some (.string kind))
      (hsid : root.find "sid" = some (.unsigned sid))
      (hsubscribed : feed.subscriptions[sid]? = some subscribed)
      (htrade : sid ≠ feed.tradeSid)
      (hper : feed.protocol = .perMarketV1 → marketId = subscribed)
      (hselected : marketId ∈ feed.selection)
      (hmarkets : processor.markets = feed.processor.markets)
      (hconnected : processor.state.connected = true)
      (hvalid : ∀ other book, processor.state.findBook other = some book → book.state = .valid →
        other = marketId ∨ feed.state.findBook other = some book)
      (hfresh : kind = "orderbook_snapshot" ∨
        ∃ book, feed.state.findBook marketId = some book ∧ book.state = .valid)
      (hbooks : BooksOk processor.state feed.generation feed.selection) :
      Outcome library feed record { feed with processor }
        { event := .market, marketId := some marketId, reason := "applied" }

/-! ### Failing -/

theorem closeBooks_eq (feed : ReadOnlyFeed)
    (h : BooksOk feed.state feed.generation feed.selection) :
    ∃ processor, feed.closeBooks = { feed with processor } ∧
      processor.markets = feed.processor.markets ∧
      Shut processor.state feed.generation feed.selection := by
  unfold closeBooks
  split_ifs with hconnected
  · exact ⟨_, rfl, rfl, h.shut_close hconnected⟩
  · exact ⟨feed.processor, rfl, rfl, Bool.eq_false_iff.2 hconnected, h⟩

/-- A feed that fails after its books were changed. -/
theorem outcome_abort {processor : OrderBookProcessor} {update : FeedUpdate}
    (hmarkets : processor.markets = feed.processor.markets)
    (h : BooksOk processor.state feed.generation feed.selection)
    (hevent : update.event = .invalidated ∨ update.event = .invalidHistory) :
    Outcome library feed record (abort { feed with processor }) update := by
  obtain ⟨closed, heq, hsame, hshut⟩ := closeBooks_eq { feed with processor } h
  rw [abort, heq]
  exact .failed hevent (hsame.trans hmarkets) hshut

/-- A feed that fails with its books as they were. -/
theorem Inv.outcome_fail (h : feed.Inv) (reason : String) :
    Outcome library feed record (feed.fail reason).1 (feed.fail reason).2 :=
  outcome_abort rfl h.books (Or.inl rfl)

theorem Inv.outcome_failHistory (h : feed.Inv) (reason : String) :
    Outcome library feed record (feed.failHistory reason).1 (feed.failHistory reason).2 :=
  outcome_abort rfl h.books (Or.inr rfl)

/-! ### Control records -/

theorem Inv.outcome_attempt (h : feed.Inv) (hchannel : record.channel = ascii "ws.attempt.v1") :
    Outcome library feed record (feed.acceptAttempt record).1 (feed.acceptAttempt record).2 := by
  unfold acceptAttempt
  split_ifs with hrefused
  · exact h.outcome_failHistory _
  · rw [not_or, Nat.not_le] at hrefused
    exact .attempted hchannel (Bool.eq_false_iff.2 hrefused.1) hrefused.2

theorem Inv.outcome_close (h : feed.Inv) :
    Outcome library feed record feed.acceptClose.1 feed.acceptClose.2 := by
  obtain ⟨processor, heq, hmarkets, hshut⟩ := closeBooks_eq feed h.books
  rw [acceptClose, heq]
  exact .closed hmarkets hshut

theorem Inv.outcome_open (h : feed.Inv) (hchannel : record.channel = ascii "ws.open.v1")
    (hgeneration : record.connectionGeneration.toNat = feed.generation)
    (hattempting : feed.attempting = true) :
    Outcome library feed record feed.acceptOpen.1 feed.acceptOpen.2 := by
  unfold acceptOpen
  by_cases hrefused : feed.opened = true ∨ feed.faulted = true
  · rw [if_pos hrefused]
    exact h.outcome_fail _
  rw [if_neg hrefused]
  rw [not_or, Bool.not_eq_true, Bool.not_eq_true] at hrefused
  have hhealthy : feed.state.connected = false := by
    rw [h.connected, healthy, hrefused.1]
    rfl
  have hselected (marketId : MarketId)
      (hm : ((feed.state.openConnection feed.generation).1.findBook marketId).isSome) :
      marketId ∈ feed.selection := by
    rw [MarketState.isSome_findBook_openConnection] at hm
    exact h.books.selected marketId hm
  rcases feed.state.openConnection_cases feed.generation with hsame | ⟨next, hnext, hscope,
    hcurrent, hconnected, -, -, -, hvalid⟩
  · simp only [hsame, Bool.false_eq_true, if_false]
    exact h.outcome_fail _
  · simp only [hnext, if_true]
    have hnone : NoneValid next := fun m book hbook hbookValid =>
      h.books.none_valid hhealthy m book (hvalid m book hbook hbookValid).2 hbookValid
    refine .opened hchannel hgeneration hattempting hrefused.1 hrefused.2 rfl hconnected hnone
      ⟨fun _ => hcurrent, fun last hlast => ?_, fun _ => hnone, fun m hm => ?_⟩
    · rw [withState, hcurrent] at hlast
      exact (Option.some.inj hlast).symm.le
    · rw [hnext] at hselected
      exact hselected m hm

/-- Recovering books gains nothing. -/
theorem recover_spec (state : MarketState) (ids : List MarketId) :
    state.Degrades (recover state ids).1 ∧ (recover state ids).1.connected = state.connected ∧
      ∀ marketId, ((recover state ids).1.findBook marketId).isSome =
        (state.findBook marketId).isSome := by
  induction ids generalizing state with
  | nil => exact ⟨.refl state, rfl, fun _ => rfl⟩
  | cons id ids ih =>
    have hdegrades := state.degrades_beginRecovery id
    have hconnected : (state.beginRecovery id).1.connected = state.connected := by
      unfold MarketState.beginRecovery
      split_ifs
      · rfl
      · split <;> rfl
    have hsame := state.isSome_findBook_beginRecovery id
    simp only [recover]
    split_ifs
    · exact ih state
    · obtain ⟨hnext, hstill, hknown⟩ := ih (state.beginRecovery id).1
      exact ⟨hdegrades.trans hnext, hstill.trans hconnected,
        fun marketId => (hknown marketId).trans (hsame marketId)⟩
    · exact ⟨hdegrades, hconnected, hsame⟩

theorem Inv.outcome_send (h : feed.Inv) (hchannel : record.channel = ascii "ws.send.v1")
    (hgeneration : record.connectionGeneration.toNat = feed.generation)
    (hhealthy : feed.healthy = true) :
    Outcome library feed record (feed.acceptSend record).1 (feed.acceptSend record).2 := by
  obtain ⟨hdegrades, hconnected, hknown⟩ := recover_spec feed.state feed.requestedMarkets
  have hbooks := h.books.degrades hdegrades fun m hm => by
    rw [hknown] at hm
    exact h.books.selected m hm
  unfold acceptSend
  by_cases hrefused : feed.commands[feed.sent]? ≠ some record.payload
  · rw [if_pos hrefused]
    exact h.outcome_fail _
  rw [if_neg hrefused]
  rw [not_not] at hrefused
  simp only
  split_ifs
  · exact .sent hchannel hgeneration hhealthy hrefused rfl hconnected hdegrades.valid hbooks
  · exact outcome_abort rfl hbooks (Or.inl rfl)

/-! ### Received records -/

/-- What a received record has. -/
structure Receives (library : JsonLibrary) (feed : ReadOnlyFeed) (record : RawMarketRecord)
    (root : Json) : Prop where
  inv : feed.Inv
  channel : record.channel = ascii "ws.receive.v1"
  generation : record.connectionGeneration.toNat = feed.generation
  healthy : feed.healthy = true
  root : parseStrict library record.payload = .ok root

variable {root : Json} {outcome : ReadOnlyFeed × FeedUpdate}

theorem fieldAt_eq_ok {value item : Json} {field : String}
    (h : Json.fieldAt value field = .ok item) : value.find field = some item := by
  unfold Json.fieldAt at h
  split at h
  · cases h
  · rename_i found heq
    obtain rfl := Except.ok.inj h
    exact heq

theorem Receives.outcome_subscribed (h : Receives library feed record root)
    (hkind : root.find "type" = some (.string "subscribed"))
    (hresult : feed.receiveSubscribed root = .ok outcome) :
    Outcome library feed record outcome.1 outcome.2 := by
  unfold receiveSubscribed at hresult
  obtain ⟨id, hid, hresult⟩ := bind_eq_ok hresult
  obtain ⟨msg, hmsg, hresult⟩ := bind_eq_ok hresult
  obtain ⟨sid, hsid, hresult⟩ := bind_eq_ok hresult
  unfold acknowledge at hresult
  split_ifs at hresult with hrefused
  · obtain rfl := Except.ok.inj hresult
    exact h.inv.outcome_fail _
  obtain ⟨channel, hbook, hresult⟩ := bind_eq_ok hresult
  obtain rfl := Except.ok.inj hresult
  rw [not_or, not_or, not_or] at hrefused
  unfold acknowledgeOn
  dsimp only
  by_cases hother : (channel ≠ if feed.protocol = .bookAndTradesV1 ∧ id = 2 then "trade"
      else "orderbook_delta") ∨ sid ∈ feed.subscriptions
  · rw [if_pos hother]
    exact h.inv.outcome_fail _
  rw [if_neg hother]
  rw [not_or, not_not] at hother
  have hbookIs := string_eq_ok hbook
  rw [hother.1] at hbookIs
  exact .acknowledged h.channel h.generation h.healthy h.root hkind (integer_eq_ok hid).1
    (fieldAt_eq_ok hmsg)
    (integer_eq_ok hsid).1 ⟨Nat.pos_of_ne_zero hrefused.1, (integer_eq_ok hid).2⟩
    (Nat.pos_of_ne_zero hrefused.2.1) hrefused.2.2.2 Iff.rfl hbookIs
    (Std.TreeMap.getElem?_eq_none hother.2)

/-- Once the sequence is checked, a trade changes nothing but the sequence. -/
theorem Receives.outcome_emitTrade (h : Receives library feed record root) {msg : Json}
    {sequence : ℕ} {trade : PublicTrade} (hsequence : root.find "seq" = some (.unsigned sequence))
    (hpos : 0 < sequence) (hnext : feed.tradeSequence ≠ 0 → sequence = feed.tradeSequence + 1)
    (hselected : trade.marketId ∈ feed.selection) :
    Outcome library feed record (feed.emitTrade msg sequence trade).1
      (feed.emitTrade msg sequence trade).2 := by
  unfold emitTrade
  split
  · exact .traded h.channel h.generation h.healthy h.root hsequence hpos hnext hselected rfl rfl
  · exact .traded h.channel h.generation h.healthy h.root hsequence hpos hnext hselected rfl rfl
  · exact h.inv.outcome_fail _

theorem Receives.outcome_tradeDetails (h : Receives library feed record root) {msg : Json}
    {sequence : ℕ} {trade : PublicTrade} {side : String}
    (hsequence : root.find "seq" = some (.unsigned sequence))
    (hpos : 0 < sequence) (hnext : feed.tradeSequence ≠ 0 → sequence = feed.tradeSequence + 1)
    (hselected : trade.marketId ∈ feed.selection)
    (hresult : feed.tradeDetails msg sequence trade side = .ok outcome) :
    Outcome library feed record outcome.1 outcome.2 := by
  unfold tradeDetails at hresult
  obtain ⟨takerDiffers, -, hresult⟩ := bind_eq_ok hresult
  split at hresult
  · obtain rfl := Except.ok.inj hresult
    exact h.inv.outcome_fail _
  obtain ⟨bookDiffers, -, hresult⟩ := bind_eq_ok hresult
  split_ifs at hresult
  · obtain rfl := Except.ok.inj hresult
    exact h.inv.outcome_fail _
  obtain ⟨millis, -, hresult⟩ := bind_eq_ok hresult
  obtain ⟨mismatch, -, hresult⟩ := bind_eq_ok hresult
  split_ifs at hresult
  · obtain rfl := Except.ok.inj hresult
    exact h.inv.outcome_fail _
  · obtain rfl := Except.ok.inj hresult
    exact h.outcome_emitTrade hsequence hpos hnext hselected

theorem Receives.outcome_tradeFields (h : Receives library feed record root) {msg : Json}
    {sequence : ℕ} {marketId : MarketId} (hsequence : root.find "seq" = some (.unsigned sequence))
    (hpos : 0 < sequence) (hnext : feed.tradeSequence ≠ 0 → sequence = feed.tradeSequence + 1)
    (hselected : marketId ∈ feed.selection)
    (hresult : feed.tradeFields msg sequence marketId = .ok outcome) :
    Outcome library feed record outcome.1 outcome.2 := by
  unfold tradeFields at hresult
  obtain ⟨yesText, -, hresult⟩ := bind_eq_ok hresult
  obtain ⟨noText, -, hresult⟩ := bind_eq_ok hresult
  obtain ⟨quantityText, -, hresult⟩ := bind_eq_ok hresult
  obtain ⟨side, -, hresult⟩ := bind_eq_ok hresult
  obtain ⟨tradeId, -, hresult⟩ := bind_eq_ok hresult
  split at hresult
  · split_ifs at hresult
    · obtain rfl := Except.ok.inj hresult
      exact h.inv.outcome_fail _
    · exact h.outcome_tradeDetails hsequence hpos hnext hselected hresult
  · obtain rfl := Except.ok.inj hresult
    exact h.inv.outcome_fail _

theorem Receives.outcome_trade (h : Receives library feed record root)
    (hresult : feed.receiveTrade root = .ok outcome) :
    Outcome library feed record outcome.1 outcome.2 := by
  unfold receiveTrade at hresult
  obtain ⟨sid, -, hresult⟩ := bind_eq_ok hresult
  obtain ⟨sequence, hsequence, hresult⟩ := bind_eq_ok hresult
  split_ifs at hresult with hrefused
  · obtain rfl := Except.ok.inj hresult
    exact h.inv.outcome_fail _
  simp only [not_or, not_and, not_not] at hrefused
  obtain ⟨msg, -, hresult⟩ := bind_eq_ok hresult
  obtain ⟨ticker, -, hresult⟩ := bind_eq_ok hresult
  split at hresult
  · obtain rfl := Except.ok.inj hresult
    exact h.inv.outcome_fail _
  · split_ifs at hresult with hselected
    · exact h.outcome_tradeFields (integer_eq_ok hsequence).1 (Nat.pos_of_ne_zero hrefused.2.2.1)
        (fun hstarted => (hrefused.2.2.2 hstarted).2) hselected hresult
    · obtain rfl := Except.ok.inj hresult
      exact h.inv.outcome_fail _

theorem Receives.outcome_processBook (h : Receives library feed record root) {kind : String}
    {sid subscribed : ℕ} {marketId : MarketId} {msg : Json} {ticker : String}
    (hkind : root.find "type" = some (.string kind))
    (hsid : root.find "sid" = some (.unsigned sid))
    (hmsg : root.find "msg" = some msg)
    (hticker : msg.find "market_ticker" = some (.string ticker))
    (hmarket : feed.processor.markets.findMarket ticker = some marketId)
    (hsubscribed : feed.subscriptions[sid]? = some subscribed) (htrade : sid ≠ feed.tradeSid)
    (hper : feed.protocol = .perMarketV1 → marketId = subscribed)
    (hselected : marketId ∈ feed.selection) :
    Outcome library feed record (feed.processBook record root marketId).1
      (feed.processBook record root marketId).2 := by
  have hstate : feed.state = feed.processor.state := rfl
  -- The decoder reads the same ticker again.
  have hdecoded (wire : WireMessage)
      (h : decodeOrderbookJson root record.connectionGeneration.toNat record.receivedAt.toInt
        feed.processor.markets (feed.protocol != .perMarketV1) = .ok wire) :
      wire.marketId = marketId ∧ wire.kind = kind := by
    obtain ⟨hwireKind, -, -, body, text, hbody, htext, hfound⟩ := decodeOrderbookJson_spec h
    obtain rfl := Option.some.inj (hmsg.symm.trans hbody)
    obtain rfl : ticker = text := by simpa using hticker.symm.trans htext
    exact ⟨Option.some.inj (hfound.symm.trans hmarket),
      by simpa using hwireKind.symm.trans hkind⟩
  unfold processBook
  dsimp only
  set decoded := decodeOrderbookJson root record.connectionGeneration.toNat
    record.receivedAt.toInt feed.processor.markets (feed.protocol != .perMarketV1)
  have hmarkets := feed.processor.processDecoded_markets decoded
  rcases feed.processor.processDecoded_cases decoded with ⟨hsame, hrefused⟩ |
    ⟨wire, snapshot, hwire, hid, -, hnext, hresult⟩ | ⟨wire, delta, hwire, hid, -, hnext, hresult⟩
  · rw [if_pos hrefused]
    exact outcome_abort hmarkets (hsame ▸ h.inv.books) (Or.inl rfl)
  · obtain ⟨hmarketId, hsnapshot⟩ := hdecoded _ hwire
    have heventId : snapshot.marketId = marketId := hid.trans hmarketId
    have hselectedNext (m : MarketId)
        (hm : ((feed.processor.processDecoded decoded).1.state.findBook m).isSome) :
        m ∈ feed.selection := by
      rw [hnext] at hm
      rcases MarketState.findBook_of_applySnapshot hm with heq | hold
      · rw [heq, heventId]
        exact hselected
      · exact h.inv.books.selected m hold
    rcases feed.processor.state.applySnapshot_cases snapshot with
      ⟨bids, asks, -, -, haccepts, -, -, happlied⟩ | hrefused
    · obtain ⟨hopen, -⟩ := MarketState.accepts_eq_true haccepts
      rw [if_neg (by rw [hresult, happlied]; exact not_not.2 rfl)]
      refine .applied h.channel h.generation h.healthy h.root hkind hsid hsubscribed htrade hper
        hselected hmarkets (by rw [hnext, happlied]; exact hopen)
          (fun other book hbook hvalid => ?_)
        (Or.inl hsnapshot.symm) (h.inv.books.update hopen (by rw [hnext, happlied]; rfl)
          (by rw [hnext, happlied]; rfl) hselectedNext)
      rw [hnext, happlied] at hbook
      have hfound := (MarketState.findBook_insert feed.processor.state snapshot.marketId other
        ⟨.valid, some snapshot.streamId, some snapshot.sequence, bids, asks⟩).symm.trans hbook
      split_ifs at hfound with heq
      · exact Or.inl (heq.trans heventId)
      · exact Or.inr hfound
    · rw [if_pos (by rw [hresult]; simpa using hrefused.not_applied)]
      exact outcome_abort hmarkets (h.inv.books.degrades (hnext ▸ hrefused.degrades) hselectedNext)
        (Or.inl rfl)
  · obtain ⟨hmarketId, -⟩ := hdecoded _ hwire
    have heventId : delta.marketId = marketId := hid.trans hmarketId
    have hselectedNext (m : MarketId)
        (hm : ((feed.processor.processDecoded decoded).1.state.findBook m).isSome) :
        m ∈ feed.selection := by
      rw [hnext] at hm
      rcases MarketState.findBook_of_applyDelta hm with heq | hold
      · rw [heq, heventId]
        exact hselected
      · exact h.inv.books.selected m hold
    rcases feed.processor.state.applyDelta_cases delta with
      ⟨book, last, predecessor, levels, hbook, hvalid, -, -, -, -, -, -, -, haccepts, happlied⟩ |
        hrefused
    · obtain ⟨hopen, -⟩ := MarketState.accepts_eq_true haccepts
      rw [if_neg (by rw [hresult, happlied]; exact not_not.2 rfl)]
      refine .applied h.channel h.generation h.healthy h.root hkind hsid hsubscribed htrade hper
        hselected hmarkets (by rw [hnext, happlied]; exact hopen) (fun other found hfound _ => ?_)
        (Or.inr ⟨book, heventId ▸ hbook, hvalid⟩) (h.inv.books.update hopen
          (by rw [hnext, happlied]; rfl) (by rw [hnext, happlied]; rfl) hselectedNext)
      rw [hnext, happlied] at hfound
      have hsame := (MarketState.findBook_insert feed.processor.state delta.marketId other
        { book.setLevels delta.side levels with lastSequence := some delta.sequence }).symm.trans
          hfound
      split_ifs at hsame with heq
      · exact Or.inl (heq.trans heventId)
      · exact Or.inr hsame
    · rw [if_pos (by rw [hresult]; simpa using hrefused.not_applied)]
      exact outcome_abort hmarkets (h.inv.books.degrades (hnext ▸ hrefused.degrades) hselectedNext)
        (Or.inl rfl)

theorem Receives.outcome_book (h : Receives library feed record root) {kind : String}
    (hkind : root.find "type" = some (.string kind))
    (hresult : feed.receiveBook record root kind = .ok outcome) :
    Outcome library feed record outcome.1 outcome.2 := by
  unfold receiveBook at hresult
  obtain ⟨sid, hsid, hresult⟩ := bind_eq_ok hresult
  obtain ⟨sequence, -, hresult⟩ := bind_eq_ok hresult
  split_ifs at hresult
  · obtain rfl := Except.ok.inj hresult
    exact h.inv.outcome_fail _
  obtain ⟨msg, hmsg, hresult⟩ := bind_eq_ok hresult
  obtain ⟨ticker, hticker, hresult⟩ := bind_eq_ok hresult
  split at hresult
  · obtain rfl := Except.ok.inj hresult
    exact h.inv.outcome_fail _
  rename_i marketId hmarket
  split_ifs at hresult with hmismatch
  · obtain rfl := Except.ok.inj hresult
    exact h.inv.outcome_fail _
  · obtain rfl := Except.ok.inj hresult
    exact h.inv.outcome_fail _
  obtain rfl := Except.ok.inj hresult
  unfold subscriptionMismatch at hmismatch
  split at hmismatch
  · exact absurd rfl hmismatch
  rename_i subscribed hsubscribed
  simp only [Bool.or_eq_true, beq_iff_eq, not_or] at hmismatch
  obtain ⟨htrade, hmismatch⟩ := hmismatch
  have hper (hprotocol : feed.protocol = .perMarketV1) : marketId = subscribed := by
    rw [if_pos hprotocol] at hmismatch
    simpa using hmismatch
  have hselected : marketId ∈ feed.selection := by
    by_cases hprotocol : feed.protocol = .perMarketV1
    · rw [hper hprotocol]
      obtain ⟨index, -, hindex⟩ : ∃ index < feed.sent,
        feed.selection[index]? = some subscribed := by
        simpa [Requested, hprotocol] using (h.inv.subscribed sid subscribed hsubscribed).2 hprotocol
      exact List.mem_of_getElem? hindex
    · rw [if_neg hprotocol] at hmismatch
      simpa using hmismatch
  exact h.outcome_processBook hkind (integer_eq_ok hsid).1 (fieldAt_eq_ok hmsg)
    (string_eq_ok hticker) hmarket hsubscribed htrade hper hselected

theorem Receives.outcome_message (h : Receives library feed record root)
    (hresult : feed.receiveMessage record root = .ok outcome) :
    Outcome library feed record outcome.1 outcome.2 := by
  unfold receiveMessage at hresult
  obtain ⟨kind, hkind, hresult⟩ := bind_eq_ok hresult
  have hkindIs := string_eq_ok hkind
  split_ifs at hresult with hsubscribed htrade hother
  · exact h.outcome_subscribed (hsubscribed ▸ hkindIs) hresult
  · exact h.outcome_trade hresult
  · obtain rfl := Except.ok.inj hresult
    exact h.inv.outcome_fail _
  · exact h.outcome_book hkindIs hresult

theorem Inv.outcome_receive (h : feed.Inv) (hchannel : record.channel = ascii "ws.receive.v1")
    (hgeneration : record.connectionGeneration.toNat = feed.generation)
    (hhealthy : feed.healthy = true) :
    Outcome library feed record (feed.receive library record).1
      (feed.receive library record).2 := by
  unfold receive
  cases hmessage : (parseStrict library record.payload).bind (feed.receiveMessage record) with
  | error exception => exact h.outcome_fail _
  | ok outcome =>
    obtain ⟨root, hroot, hresult⟩ := bind_eq_ok hmessage
    exact Receives.outcome_message ⟨h, hchannel, hgeneration, hhealthy, hroot⟩ hresult

/-- **A record has one of the outcomes.** -/
theorem Inv.outcome_acceptRecord (h : feed.Inv) :
    Outcome library feed record (feed.acceptRecord library record).1
      (feed.acceptRecord library record).2 := by
  unfold acceptRecord
  split_ifs with hattempt hgeneration hclose hopen hhealthy hsend hping hreceive
  · exact h.outcome_attempt hattempt
  · exact h.outcome_failHistory _
  · exact h.outcome_close
  · rw [not_or, not_not, Bool.not_eq_false] at hgeneration
    exact h.outcome_open hopen hgeneration.2 hgeneration.1
  · exact .ignored hhealthy
  · rw [not_or, not_not] at hgeneration
    exact h.outcome_send hsend hgeneration.2 (by simpa using hhealthy)
  · exact .quiet
  · exact h.outcome_fail _
  · rw [not_or, not_not] at hgeneration
    exact h.outcome_receive (not_not.1 hreceive) hgeneration.2 (by simpa using hhealthy)

/-- The time of the last record is not part of the invariant. -/
theorem Inv.withTime (h : feed.Inv) (time : ℤ) :
    ({ feed with lastTime := time } : ReadOnlyFeed).Inv :=
  { h with }

/-- **An answer is one of the outcomes**, with the time of the record. -/
theorem Inv.outcome_accept (h : feed.Inv) (library : JsonLibrary) (record : RawMarketRecord) :
    ∃ time, Outcome library { feed with lastTime := time } record (feed.accept library record).1
      (feed.accept library record).2 := by
  unfold accept
  dsimp only
  split_ifs
  · exact ⟨feed.lastTime, h.outcome_failHistory _⟩
  · exact ⟨_, .quiet⟩
  · exact ⟨_, (h.withTime _).outcome_acceptRecord⟩

end ReadOnlyFeed

end EventMarket.Session
