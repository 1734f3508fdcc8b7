import EventMarket.Market.Generations
import EventMarket.Session.ReadOnlyFeedOutcome

/-!
# The read-only feed fails closed

Over every sequence of records and aborts. A failed feed has no valid book, and it gets one back
only by a higher generation that is attempted and opened, the subscription command of the market
and a new snapshot.

## Main definitions

* `FeedInput`, `stepFeed`: the runs of a feed.
* `tradeLog`: the generation and the sequence of every emitted trade.

## Main results

* `ReadOnlyFeed.Outcome.inv`, `ReadOnlyFeed.inv_run`: the invariant holds in every run.
* `feed_fails_closed`: what every run of a feed keeps.
-/

namespace EventMarket.Session

open Book Core Foundations Gateway Journal Market

/-- What a feed is given: a record, or a demand to stop. -/
inductive FeedInput where
  | record (record : RawMarketRecord)
  | abort

def stepFeed (library : JsonLibrary) (feed : ReadOnlyFeed) : FeedInput → ReadOnlyFeed
  | .record record => (feed.accept library record).1
  | .abort => feed.abort

namespace ReadOnlyFeed

variable {library : JsonLibrary} {feed next : ReadOnlyFeed} {record : RawMarketRecord}
  {update : FeedUpdate}

/-! ### The invariant is preserved -/

/-- A feed that is not open has no valid book. -/
theorem Inv.none_valid (h : feed.Inv) (hhealthy : feed.healthy = false) : NoneValid feed.state :=
  h.books.none_valid (h.connected.trans hhealthy)

/-- Books that are shut satisfy every demand on valid books. -/
theorem Inv.shut {processor : OrderBookProcessor} (h : feed.Inv)
    (hshut : Shut processor.state feed.generation feed.selection) :
    ({ feed with processor, faulted := true } : ReadOnlyFeed).Inv :=
  { h with
    books := hshut.ok
    connected := by simpa [healthy, state] using hshut.disconnected
    requested := fun marketId book hbook hvalid =>
      absurd hvalid (hshut.none_valid marketId book hbook) }

theorem Inv.attempted (h : feed.Inv) (hidle : feed.attempting = false) {generation : ℕ}
    (hlt : feed.generation < generation) :
    ({ feed with
      generation
      attempting := true
      opened := false
      faulted := false
      sent := 0
      tradeSid := 0
      tradeSequence := 0
      acknowledged := feed.acknowledged.map fun _ => false
      subscriptions := {} } : ReadOnlyFeed).Inv := by
  have hopened : feed.opened = false := by
    by_contra hopened
    exact Bool.false_ne_true (hidle.symm.trans (h.attempting (by simpa using hopened)))
  have hhealthy : feed.healthy = false := by simp [healthy, hopened]
  have hclosed : feed.state.connected = false := h.connected.trans hhealthy
  have hnone := h.none_valid hhealthy
  exact {
    books := {
      current := fun hconnected => absurd (hclosed.symm.trans hconnected) Bool.false_ne_true
      last_le := fun last hlast => (h.books.last_le last hlast).trans hlt.le
      none_valid := fun _ => hnone
      selected := h.books.selected }
    connected := hclosed
    attempting := fun _ => rfl
    fresh := fun _ _ => rfl
    requested := fun marketId book hbook hvalid => absurd hvalid (hnone marketId book hbook)
    subscribed := fun sid marketId hsid => by simp at hsid
    selection_nodup := h.selection_nodup
    commands_length := h.commands_length
    sent_le := Nat.zero_le _
    acknowledged_length := by simpa using h.acknowledged_length
    subscription_pos := fun sid marketId hsid => by simp at hsid
    trade_acknowledged := fun hne => absurd rfl hne }

/-- More commands only ask for more books. -/
theorem Requested.sent {marketId : MarketId} {processor : OrderBookProcessor}
    (h : feed.Requested marketId) :
    ({ feed with processor, sent := feed.sent + 1 } : ReadOnlyFeed).Requested marketId := by
  unfold Requested at h ⊢
  dsimp only
  split_ifs at h ⊢
  · obtain ⟨index, hlt, hindex⟩ := h
    exact ⟨index, hlt.trans (Nat.lt_succ_self _), hindex⟩
  · exact Nat.succ_pos _

/-- The market of the subscription that an acknowledged command asked for. -/
theorem Inv.acknowledged_market (h : feed.Inv) {id : ℕ} (hsent : 0 < id ∧ id ≤ feed.sent)
    (hprotocol : feed.protocol = .perMarketV1) :
    feed.Requested (feed.selection[id - 1]?.getD 0) := by
  have hlt : id - 1 < feed.selection.length := by
    rw [← h.commands_length hprotocol]
    have := h.sent_le
    omega
  rw [Requested, if_pos hprotocol]
  refine ⟨id - 1, by omega, ?_⟩
  rw [List.getElem?_eq_getElem hlt, Option.getD_some]

/-- **Every outcome preserves the invariant.** -/
theorem Outcome.inv (h : feed.Inv) (houtcome : Outcome library feed record next update) :
    next.Inv := by
  cases houtcome with
  | failed hevent hmarkets hshut => exact h.shut hshut
  | ignored hhealthy => exact h
  | quiet => exact h
  | attempted hchannel hidle hlt => exact h.attempted hidle hlt
  | closed hmarkets hshut =>
    exact { h with
      books := hshut.ok
      connected := by simpa [healthy, state] using hshut.disconnected
      attempting := fun hopened => absurd hopened Bool.false_ne_true
      fresh := fun hattempting => absurd hattempting Bool.false_ne_true
      requested := fun marketId book hbook hvalid =>
        absurd hvalid (hshut.none_valid marketId book hbook) }
  | opened hchannel hgeneration hattempting hopened hfaulted hmarkets hconnected hnone hbooks =>
    exact { h with
      books := hbooks
      connected := by simpa [healthy, state, hfaulted] using hconnected
      attempting := fun _ => hattempting
      fresh := fun _ hclosed => absurd hclosed.symm Bool.false_ne_true
      requested := fun marketId book hbook hvalid => absurd hvalid (hnone marketId book hbook) }
  | sent hchannel hgeneration hhealthy hpayload hmarkets hconnected hvalid hbooks =>
    have hlt : feed.sent < feed.commands.length := (List.getElem?_eq_some_iff.mp hpayload).1
    exact { h with
      books := hbooks
      connected := hconnected.trans h.connected
      fresh := fun hattempting hopened => by
        simp [healthy, show feed.opened = false from hopened] at hhealthy
      requested := fun marketId book hbook hstate =>
        (h.requested marketId book (hvalid marketId book hbook hstate) hstate).sent
      subscribed := fun sid marketId hsid =>
        ⟨Nat.succ_pos _, fun hprotocol => ((h.subscribed sid marketId hsid).2 hprotocol).sent⟩
      sent_le := hlt }
  | @acknowledged root msg id sid trade _ hchannel hgeneration hhealthy hroot hkind hid hmsg hsid
      hsent hpos hunacknowledged htrade hbook hnew =>
    have hfind (other : ℕ) (marketId : MarketId)
        (hother : (feed.subscriptions.insert sid (if feed.protocol = .perMarketV1 then
          feed.selection[id - 1]?.getD 0 else 0))[other]? = some marketId) :
        other = sid ∧ marketId = (if feed.protocol = .perMarketV1 then
          feed.selection[id - 1]?.getD 0 else 0) ∨ feed.subscriptions[other]? = some marketId := by
      rw [Std.TreeMap.getElem?_insert] at hother
      split_ifs at hother with heq hper
      · exact Or.inl ⟨(Std.LawfulEqCmp.eq_of_compare heq).symm, by
          rw [if_pos hper]; exact (Option.some.inj hother).symm⟩
      · exact Or.inl ⟨(Std.LawfulEqCmp.eq_of_compare heq).symm, by
          rw [if_neg hper]; exact (Option.some.inj hother).symm⟩
      · exact Or.inr hother
    exact { h with
      subscribed := fun other marketId hother => by
        rcases hfind other marketId hother with ⟨-, rfl⟩ | hold
        · refine ⟨by dsimp only; omega, fun hprotocol => ?_⟩
          rw [if_pos hprotocol]
          exact h.acknowledged_market hsent hprotocol
        · exact h.subscribed other marketId hold
      acknowledged_length := by simpa using h.acknowledged_length
      subscription_pos := fun other marketId hother => by
        rcases hfind other marketId hother with ⟨rfl, -⟩ | hold
        · exact hpos
        · exact h.subscription_pos other marketId hold
      trade_acknowledged := by
        intro hne
        have hlength := h.acknowledged_length
        have hle := h.sent_le
        dsimp only at hne ⊢
        rw [List.getElem?_set]
        by_cases hindex : id - 1 = 1
        · rw [if_pos hindex, if_pos (by omega)]
        · rw [if_neg fun htradeIs => hindex (by rw [(htrade.mp htradeIs).2])] at hne
          rw [if_neg hindex]
          exact h.trade_acknowledged hne }
  | traded => exact { h with }
  | applied hchannel hgeneration hhealthy hroot hkind hsid hsubscribed htrade hper
    hselected hmarkets
      hconnected hvalid hfresh hbooks =>
    exact { h with
      books := hbooks
      connected := hconnected.trans hhealthy.symm
      requested := fun other book hbook hstate => by
        rcases hvalid other book hbook hstate with rfl | hold
        · show feed.Requested other
          by_cases hprotocol : feed.protocol = .perMarketV1
          · rw [hper hprotocol]
            exact (h.subscribed _ _ hsubscribed).2 hprotocol
          · rw [Requested, if_neg hprotocol]
            exact (h.subscribed _ _ hsubscribed).1
        · exact h.requested other book hold hstate }

theorem Inv.accept (h : feed.Inv) (library : JsonLibrary) (record : RawMarketRecord) :
    (feed.accept library record).1.Inv := by
  obtain ⟨time, houtcome⟩ := h.outcome_accept library record
  exact houtcome.inv (h.withTime time)

theorem Inv.abort (h : feed.Inv) : feed.abort.Inv := by
  obtain ⟨processor, heq, -, hshut⟩ := closeBooks_eq feed h.books
  rw [ReadOnlyFeed.abort, heq]
  exact h.shut hshut

theorem Inv.step (h : feed.Inv) (library : JsonLibrary) (input : FeedInput) :
    (stepFeed library feed input).Inv := by
  cases input with
  | record record => exact h.accept library record
  | abort => exact h.abort

/-! ### A new feed -/

/-- A sorted list without equal neighbours has no element twice. -/
theorem nodup_of_adjacent {selection : List MarketId} (hsorted : selection.Pairwise (· ≤ ·))
    (hadjacent : adjacentDuplicate selection = false) : selection.Nodup := by
  induction selection with
  | nil => exact List.nodup_nil
  | cons first rest ih =>
    cases rest with
    | nil => exact List.nodup_singleton first
    | cons second rest =>
      simp only [adjacentDuplicate, Bool.or_eq_false_iff, beq_eq_false_iff_ne] at hadjacent
      obtain ⟨hfirst, hrest⟩ := List.pairwise_cons.mp hsorted
      refine List.nodup_cons.mpr ⟨fun hmem => ?_, ih hrest hadjacent.2⟩
      have hle := hfirst second List.mem_cons_self
      rcases List.mem_cons.mp hmem with heq | hmem
      · exact hadjacent.1 heq
      · have := (List.pairwise_cons.mp hrest).1 first hmem
        exact hadjacent.1 (Nat.le_antisymm hle this)

theorem length_of_mapM {α β ε : Type} {f : α → Except ε β} {items : List α} {results : List β}
    (h : items.mapM f = .ok results) : results.length = items.length := by
  induction items generalizing results with
  | nil =>
    obtain rfl := Except.ok.inj h
    rfl
  | cons item items ih =>
    rw [List.mapM_cons] at h
    obtain ⟨result, -, h⟩ := bind_eq_ok h
    obtain ⟨others, hothers, h⟩ := bind_eq_ok h
    obtain rfl := Except.ok.inj h
    rw [List.length_cons, List.length_cons, ih hothers]

/-- **A new feed satisfies the invariant.** -/
theorem inv_create {markets : MarketRegistry} {selection : List MarketId} {protocol : FeedProtocol}
    (h : create library markets selection protocol = .ok feed) :
    feed.Inv ∧ feed.attempting = false ∧ feed.opened = false ∧ feed.generation = 0 ∧
      feed.subscriptions = {} ∧ (∀ index : ℕ, feed.acknowledged[index]? ≠ some true) ∧
      feed.selection = selection.insertionSort (· ≤ ·) := by
  unfold create at h
  by_cases hcount : selection = [] ∨ 64 < selection.length
  · rw [if_pos hcount] at h
    cases h
  rw [if_neg hcount] at h
  dsimp only at h
  by_cases hduplicate : adjacentDuplicate (selection.insertionSort (· ≤ ·)) = true
  · rw [if_pos hduplicate] at h
    cases h
  rw [if_neg hduplicate] at h
  obtain ⟨tickers, htickers, h⟩ := bind_eq_ok h
  obtain rfl := Except.ok.inj h
  have hsorted := List.pairwise_insertionSort (· ≤ ·) selection
  refine ⟨?_, rfl, rfl, rfl, rfl,
    fun index hmarked => absurd (List.mem_of_getElem? hmarked) (by simp), rfl⟩
  exact {
    books := {
      current := fun hconnected => absurd hconnected Bool.false_ne_true
      last_le := fun last hlast => by simp [state] at hlast
      none_valid := fun _ marketId book hbook => by simp [state, MarketState.findBook] at hbook
      selected := fun marketId hbook => by simp [state, MarketState.findBook] at hbook }
    connected := rfl
    attempting := fun hopened => absurd hopened Bool.false_ne_true
    fresh := fun _ _ => rfl
    requested := fun marketId book hbook => by simp [state, MarketState.findBook] at hbook
    subscribed := fun sid marketId hsid => by simp at hsid
    selection_nodup := nodup_of_adjacent hsorted (by simpa using hduplicate)
    commands_length := fun hprotocol => by
      obtain rfl : protocol = .perMarketV1 := hprotocol
      have := length_of_mapM htickers
      simpa [commandsOf] using this
    sent_le := Nat.zero_le _
    acknowledged_length := by simp
    subscription_pos := fun sid marketId hsid => by simp at hsid
    trade_acknowledged := fun hne => absurd rfl hne }

theorem Inv.run (h : feed.Inv) (library : JsonLibrary) (inputs : List FeedInput) :
    (run (stepFeed library) feed inputs).Inv :=
  run_invariant (fun _ input _ h => h.step library input) h

/-! ### What every input keeps -/

/-- What no input changes. -/
structure SameSetup (feed next : ReadOnlyFeed) : Prop where
  protocol_eq : next.protocol = feed.protocol
  selection_eq : next.selection = feed.selection
  commands_eq : next.commands = feed.commands
  markets_eq : next.processor.markets = feed.processor.markets
  generation_le : feed.generation ≤ next.generation

theorem SameSetup.refl (feed : ReadOnlyFeed) : SameSetup feed feed :=
  ⟨rfl, rfl, rfl, rfl, Nat.le_refl _⟩

theorem SameSetup.trans {last : ReadOnlyFeed} (h : SameSetup feed next)
    (h' : SameSetup next last) : SameSetup feed last :=
  ⟨h'.protocol_eq.trans h.protocol_eq, h'.selection_eq.trans h.selection_eq,
    h'.commands_eq.trans h.commands_eq, h'.markets_eq.trans h.markets_eq,
    h.generation_le.trans h'.generation_le⟩

theorem Outcome.sameSetup (houtcome : Outcome library feed record next update) :
    SameSetup feed next := by
  cases houtcome with
  | attempted hchannel hidle hlt => exact ⟨rfl, rfl, rfl, rfl, hlt.le⟩
  | ignored | quiet | acknowledged | traded => exact ⟨rfl, rfl, rfl, rfl, Nat.le_refl _⟩
  | failed | closed | opened | sent | applied =>
    exact ⟨rfl, rfl, rfl, by assumption, Nat.le_refl _⟩

theorem Inv.sameSetup_step (h : feed.Inv) (library : JsonLibrary) (input : FeedInput) :
    SameSetup feed (stepFeed library feed input) := by
  cases input with
  | record record =>
    obtain ⟨time, houtcome⟩ := h.outcome_accept library record
    have := houtcome.sameSetup
    exact ⟨this.protocol_eq, this.selection_eq, this.commands_eq, this.markets_eq,
      this.generation_le⟩
  | abort =>
    obtain ⟨processor, heq, hmarkets, -⟩ := closeBooks_eq feed h.books
    rw [stepFeed, ReadOnlyFeed.abort, heq]
    exact ⟨rfl, rfl, rfl, hmarkets, Nat.le_refl _⟩

theorem Inv.sameSetup_run (h : feed.Inv) (library : JsonLibrary) (inputs : List FeedInput) :
    SameSetup feed (Foundations.run (stepFeed library) feed inputs) := by
  induction inputs generalizing feed with
  | nil => exact .refl feed
  | cons input inputs ih => exact (h.sameSetup_step library input).trans (ih (h.step library input))

/-! ### What an outcome can gain -/

/-- A control record on its channel was accepted. -/
structure AcceptsControl (library : JsonLibrary) (feed : ReadOnlyFeed) (channel : String)
    (record : RawMarketRecord) : Prop where
  channel_eq : record.channel = ascii channel
  event_eq : (feed.accept library record).2.event = .control

/-- A new snapshot was applied to the book of a market. -/
structure AcceptsSnapshot (library : JsonLibrary) (feed : ReadOnlyFeed) (marketId : MarketId)
    (record : RawMarketRecord) : Prop where
  channel_eq : record.channel = ascii "ws.receive.v1"
  kind : ∃ root, parseStrict library record.payload = .ok root ∧
    root.find "type" = some (.string "orderbook_snapshot")
  update_eq : (feed.accept library record).2 =
    { event := .market, marketId := some marketId, reason := "applied" }

/-- Only an accepted opening connects a feed. -/
theorem Outcome.gains_connection (houtcome : Outcome library feed record next update)
    {generation : ℕ} (hbefore : ¬(feed.healthy = true ∧ feed.generation = generation))
    (hafter : next.healthy = true ∧ next.generation = generation) :
    record.channel = ascii "ws.open.v1" ∧ update.event = .control ∧
      record.connectionGeneration.toNat = generation ∧ feed.generation = generation ∧
      feed.faulted = false ∧ feed.attempting = true ∧ feed.opened = false ∧
      next.sent = feed.sent ∧ NoneValid next.state := by
  cases houtcome with
  | failed hevent hmarkets hshut => simp [healthy] at hafter
  | ignored | quiet => exact absurd hafter hbefore
  | attempted hchannel hidle hlt => simp [healthy] at hafter
  | closed hmarkets hshut => simp [healthy] at hafter
  | opened hchannel hgeneration hattempting hopened hfaulted hmarkets hconnected hnone =>
    exact ⟨hchannel, rfl, hgeneration.trans hafter.2, hafter.2, hfaulted, hattempting, hopened,
      rfl, hnone⟩
  | sent | acknowledged | traded | applied => exact absurd hafter hbefore

/-- Only an accepted attempt clears a fault. -/
theorem Outcome.gains_attempt (houtcome : Outcome library feed record next update)
    {generation : ℕ} (hbefore : ¬(feed.generation = generation ∧ feed.faulted = false))
    (hafter : next.generation = generation ∧ next.faulted = false) :
    record.channel = ascii "ws.attempt.v1" ∧ update.event = .control ∧
      record.connectionGeneration.toNat = generation ∧ feed.generation < generation := by
  cases houtcome with
  | failed hevent hmarkets hshut => exact absurd hafter.2.symm Bool.false_ne_true
  | attempted hchannel hidle hlt =>
    obtain rfl := hafter.1
    exact ⟨hchannel, rfl, rfl, hlt⟩
  | ignored | quiet | closed | opened | sent | acknowledged | traded | applied =>
    exact absurd hafter hbefore

/-- Only a subscription command requests the book of a market. -/
theorem Outcome.gains_request (houtcome : Outcome library feed record next update)
    {marketId : MarketId} (hselected : marketId ∈ feed.selection)
    (hbefore : ¬feed.Requested marketId) (hafter : next.Requested marketId) :
    record.channel = ascii "ws.send.v1" ∧ update.event = .control ∧
      feed.commands[feed.sent]? = some record.payload ∧ marketId ∈ feed.requestedMarkets ∧
      ∀ book, next.state.findBook marketId = some book → book.state = .valid →
        feed.state.findBook marketId = some book := by
  cases houtcome with
  | sent hchannel hgeneration hhealthy hpayload hmarkets hconnected hvalid hbooks =>
    refine ⟨hchannel, rfl, hpayload, ?_, hvalid marketId⟩
    unfold Requested at hbefore hafter
    dsimp only at hbefore hafter
    unfold requestedMarkets
    split_ifs at hbefore hafter ⊢ with hprotocol hsent
    · obtain ⟨index, hlt, hindex⟩ := hafter
      obtain rfl | hlt := Nat.lt_succ_iff_lt_or_eq.mp hlt |>.symm
      · simp [hindex]
      · exact absurd ⟨index, hlt, hindex⟩ hbefore
    · exact hselected
    · exact absurd (Nat.pos_of_ne_zero hsent) hbefore
  | attempted hchannel hidle hlt =>
    unfold Requested at hafter
    dsimp only at hafter
    split_ifs at hafter
    · obtain ⟨index, hlt, -⟩ := hafter
      exact absurd hlt (Nat.not_lt_zero _)
    · exact absurd hafter (Nat.lt_irrefl 0)
  | failed | ignored | quiet | closed | opened | acknowledged | traded | applied =>
    exact absurd hafter hbefore

/-- Only a snapshot makes a book valid. -/
theorem Outcome.gains_book (houtcome : Outcome library feed record next update)
    {marketId : MarketId} (hbefore : ¬InState feed.state marketId .valid)
    (hafter : InState next.state marketId .valid) :
    record.channel = ascii "ws.receive.v1" ∧
      (∃ root, parseStrict library record.payload = .ok root ∧
        root.find "type" = some (.string "orderbook_snapshot")) ∧
      update = { event := .market, marketId := some marketId, reason := "applied" } := by
  obtain ⟨book, hbook, hstate⟩ := hafter
  cases houtcome with
  | failed hevent hmarkets hshut => exact absurd hstate (hshut.none_valid _ _ hbook)
  | closed hmarkets hshut => exact absurd hstate (hshut.none_valid _ _ hbook)
  | opened hchannel hgeneration hattempting hopened hfaulted hmarkets hconnected hnone =>
    exact absurd hstate (hnone _ _ hbook)
  | sent hchannel hgeneration hhealthy hpayload hmarkets hconnected hvalid =>
    exact absurd ⟨book, hvalid _ _ hbook hstate, hstate⟩ hbefore
  | applied hchannel hgeneration hhealthy hroot hkind hsid hsubscribed htrade hper hselected
      hmarkets hconnected hvalid hfresh =>
    rcases hvalid _ _ hbook hstate with rfl | hold
    · rcases hfresh with rfl | ⟨old, hold, hwas⟩
      · exact ⟨hchannel, ⟨_, hroot, hkind⟩, rfl⟩
      · exact absurd ⟨old, hold, hwas⟩ hbefore
    · exact absurd ⟨book, hold, hstate⟩ hbefore
  | ignored | quiet | attempted | acknowledged | traded =>
    exact absurd ⟨book, hbook, hstate⟩ hbefore

/-! ### The way back after a failure -/

/-- An input is a record with its outcome, or a demand to stop, which faults the feed. -/
theorem Inv.step_cases (h : feed.Inv) (library : JsonLibrary) (input : FeedInput) :
    (∃ record time, input = .record record ∧
      Outcome library { feed with lastTime := time } record (stepFeed library feed input)
        (feed.accept library record).2) ∨
    ∃ processor, stepFeed library feed input = { feed with processor, faulted := true } ∧
      NoneValid processor.state := by
  cases input with
  | record record =>
    obtain ⟨time, houtcome⟩ := h.outcome_accept library record
    exact Or.inl ⟨record, time, rfl, houtcome⟩
  | abort =>
    obtain ⟨processor, heq, -, hshut⟩ := closeBooks_eq feed h.books
    exact Or.inr ⟨processor, by rw [stepFeed, ReadOnlyFeed.abort, heq], hshut.none_valid⟩

/-- After a failure a higher generation was attempted and opened, and it stays open. -/
def Reopening (library : JsonLibrary) (failed : ReadOnlyFeed) (later : List FeedInput)
    (reopened : ReadOnlyFeed) (after : List FeedInput) : Prop :=
  ∃ before attempt between opening,
    later = before ++ .record attempt :: (between ++ .record opening :: after) ∧
    reopened = Foundations.run (stepFeed library) failed
      (before ++ .record attempt :: (between ++ [.record opening])) ∧
    failed.generation < attempt.connectionGeneration.toNat ∧
    AcceptsControl library (Foundations.run (stepFeed library) failed before)
      "ws.attempt.v1" attempt ∧
    AcceptsControl library
      (Foundations.run (stepFeed library) failed (before ++ .record attempt :: between))
      "ws.open.v1" opening ∧
    opening.connectionGeneration.toNat = attempt.connectionGeneration.toNat ∧
    ∀ more, more <+: after →
      (Foundations.run (stepFeed library) reopened more).state.connected = true ∧
      (Foundations.run (stepFeed library) reopened more).generation =
        attempt.connectionGeneration.toNat

/-- The subscription command of a market was sent, and then a new snapshot was applied to its
book, which stays valid. -/
def Resubscription (library : JsonLibrary) (reopened : ReadOnlyFeed) (after : List FeedInput)
    (marketId : MarketId) : Prop :=
  ∃ before command between snapshot rest,
    after = before ++ .record command :: (between ++ .record snapshot :: rest) ∧
    AcceptsControl library (Foundations.run (stepFeed library) reopened before)
      "ws.send.v1" command ∧
    reopened.commands[(Foundations.run (stepFeed library) reopened before).sent]? =
      some command.payload ∧
    marketId ∈ (Foundations.run (stepFeed library) reopened before).requestedMarkets ∧
    AcceptsSnapshot library
      (Foundations.run (stepFeed library) reopened (before ++ .record command :: between))
      marketId snapshot ∧
    ∀ more, more <+: rest → InState (Foundations.run (stepFeed library) reopened
      (before ++ .record command :: (between ++ .record snapshot :: more))).state marketId .valid

theorem run_snoc (library : JsonLibrary) (feed : ReadOnlyFeed) (inputs : List FeedInput)
    (input : FeedInput) :
    Foundations.run (stepFeed library) feed (inputs ++ [input]) =
      stepFeed library (Foundations.run (stepFeed library) feed inputs) input :=
  run_append _ _ _ _

/-- **A failed feed is connected again only by a higher generation**, attempted and opened. -/
theorem Inv.reopening (h : feed.Inv) (hfaulted : feed.faulted = true) {later : List FeedInput}
    (hconnected : (Foundations.run (stepFeed library) feed later).state.connected = true) :
    ∃ reopened after, Reopening library feed later reopened after ∧ reopened.Inv ∧
      reopened.sent = 0 ∧ NoneValid reopened.state ∧
      Foundations.run (stepFeed library) reopened after =
        Foundations.run (stepFeed library) feed later := by
  set generation := (Foundations.run (stepFeed library) feed later).generation with hgeneration
  have hhealthy := (h.run library later).connected.symm.trans hconnected
  -- The opening after which the last generation stays open.
  obtain ⟨past, input, after, rfl, hclosed, hopen⟩ :=
    run_last_change
      (P := fun feed : ReadOnlyFeed => feed.healthy = true ∧ feed.generation = generation)
      (by simp [healthy, hfaulted]) ⟨hhealthy, hgeneration.symm⟩
  have hpast := h.run library past
  have hinput := hopen [] List.nil_prefix
  rw [run_snoc] at hinput
  rcases hpast.step_cases library input with ⟨opening, time, rfl, houtcome⟩ | ⟨_, hstop, -⟩
  swap
  · simp [hstop, healthy] at hinput
  obtain ⟨hchannel, hcontrol, hrecord, hcurrent, hsound, hattempting, hnotOpen, hsent, hnone⟩ :=
    houtcome.gains_connection hclosed hinput
  -- The attempt of this generation.
  obtain ⟨before, input, between, rfl, hother, hsame⟩ :=
    run_last_change
      (P := fun feed : ReadOnlyFeed => feed.generation = generation ∧ feed.faulted = false)
      (by simp [hfaulted]) ⟨hcurrent, hsound⟩
  have hbefore := h.run library before
  have hattempt := hsame [] List.nil_prefix
  rw [run_snoc] at hattempt
  rcases hbefore.step_cases library input with ⟨attempt, time', rfl, houtcome'⟩ |
    ⟨_, hstop, -⟩
  swap
  · simp [hstop] at hattempt
  obtain ⟨hchannel', hcontrol', hrecord', hlt⟩ := houtcome'.gains_attempt hother hattempt
  have hreopened := run_snoc library feed (before ++ .record attempt :: between) (.record opening)
  rw [List.append_assoc, List.cons_append] at hreopened
  have hrun (more : List FeedInput) : Foundations.run (stepFeed library)
      (Foundations.run (stepFeed library) feed
        (before ++ .record attempt :: (between ++ [.record opening]))) more =
      Foundations.run (stepFeed library) feed
        ((before ++ .record attempt :: between) ++ .record opening :: more) := by
    rw [hreopened, run_append _ _ _ (_ :: more), run_cons]
  refine ⟨_, after, ⟨before, attempt, between, opening, by simp, rfl, ?_, ⟨hchannel', hcontrol'⟩,
    ⟨hchannel, hcontrol⟩, hrecord.trans hrecord'.symm, fun more hmore => ?_⟩, h.run library _, ?_,
    ?_, hrun after⟩
  · rw [hrecord']
    exact (h.sameSetup_run library before).generation_le.trans_lt hlt
  · rw [hrun, hrecord']
    obtain ⟨hhealthy, hcurrent⟩ := hopen more hmore
    exact ⟨(h.run library _).connected.trans hhealthy, hcurrent⟩
  · rw [hreopened]
    exact hsent.trans (hpast.fresh hattempting hnotOpen)
  · rw [hreopened]
    exact hnone

/-- **A book is valid again only after its subscription command and a new snapshot.** -/
theorem Inv.resubscription (h : feed.Inv) (hsent : feed.sent = 0) {after : List FeedInput}
    {marketId : MarketId}
    (hvalid : InState (Foundations.run (stepFeed library) feed after).state marketId .valid) :
    Resubscription library feed after marketId := by
  have hend := h.run library after
  have hselected : marketId ∈ feed.selection := by
    obtain ⟨book, hbook, -⟩ := hvalid
    rw [← (h.sameSetup_run library after).selection_eq]
    exact hend.books.selected marketId (by rw [hbook]; rfl)
  have hrequested : (Foundations.run (stepFeed library) feed after).Requested marketId := by
    obtain ⟨book, hbook, hstate⟩ := hvalid
    exact hend.requested marketId book hbook hstate
  have hunrequested : ¬feed.Requested marketId := by
    unfold Requested
    split_ifs
    · rintro ⟨index, hlt, -⟩
      omega
    · omega
  -- The command after which the book stays requested.
  obtain ⟨before, input, rest, rfl, hnotYet, hfromNow⟩ :=
    run_last_change (P := fun feed : ReadOnlyFeed =>
      feed.Requested marketId) hunrequested hrequested
  have hbefore := h.run library before
  have hinput := hfromNow [] List.nil_prefix
  rw [run_snoc] at hinput
  have hsame := h.sameSetup_run library before
  rcases hbefore.step_cases library input with ⟨command, time, rfl, houtcome⟩ | ⟨_, hstop, -⟩
  swap
  · rw [hstop] at hinput
    exact absurd hinput hnotYet
  obtain ⟨hchannel, hcontrol, hpayload, hasked, hkept⟩ :=
    houtcome.gains_request (hsame.selection_eq ▸ hselected) hnotYet hinput
  rw [run_append, run_cons] at hvalid
  set sent := stepFeed library (Foundations.run (stepFeed library) feed before) (.record command)
    with hsentFeed
  have hsentInv : sent.Inv := hbefore.step library _
  have hinvalid : ¬InState sent.state marketId .valid := by
    rintro ⟨book, hbook, hstate⟩
    exact hnotYet (hbefore.requested marketId book (hkept book hbook hstate) hstate)
  -- The snapshot after which the book stays valid.
  obtain ⟨between, input, rest, rfl, hnotValid, hvalidFrom⟩ :=
    run_last_change (P := fun feed : ReadOnlyFeed => InState feed.state marketId .valid)
      hinvalid hvalid
  have hsnapshot := hvalidFrom [] List.nil_prefix
  rw [run_snoc] at hsnapshot
  rcases (hsentInv.run library between).step_cases library input with
    ⟨snapshot, time', rfl, houtcome'⟩ | ⟨_, hstop, hnone⟩
  swap
  · rw [hstop] at hsnapshot
    obtain ⟨book, hbook, hstate⟩ := hsnapshot
    exact absurd hstate (hnone _ _ hbook)
  obtain ⟨hchannel', hkind, hupdate⟩ := houtcome'.gains_book hnotValid hsnapshot
  refine ⟨before, command, between, snapshot, rest, rfl, ⟨hchannel, hcontrol⟩,
    hsame.commands_eq ▸ hpayload, hasked, ?_, fun more hmore => ?_⟩
  · rw [run_append, run_cons]
    exact ⟨hchannel', hkind, hupdate⟩
  · rw [run_append, run_cons]
    exact hvalidFrom more hmore

/-! ### Acknowledgements -/

/-- An acknowledgement of a command with its subscription was accepted. -/
structure AcceptsAcknowledgement (library : JsonLibrary) (feed : ReadOnlyFeed) (id sid : ℕ)
    (channel : String) (record : RawMarketRecord) : Prop
    extends AcceptsControl library feed "ws.receive.v1" record where
  message : ∃ root msg, parseStrict library record.payload = .ok root ∧
    root.find "type" = some (.string "subscribed") ∧ root.find "id" = some (.unsigned id) ∧
    root.find "msg" = some msg ∧ msg.find "sid" = some (.unsigned sid) ∧
    msg.find "channel" = some (.string channel)

/-- A command was acknowledged in a generation. -/
def Acknowledged (library : JsonLibrary) (start : ReadOnlyFeed) (inputs : List FeedInput)
    (generation id sid : ℕ) (channel : String) : Prop :=
  ∃ past record later, inputs = past ++ .record record :: later ∧
    (Foundations.run (stepFeed library) start past).generation = generation ∧
    AcceptsAcknowledgement library (Foundations.run (stepFeed library) start past) id sid channel
      record

/-- Only an acknowledgement on the channel of the books adds a subscription to a book. -/
theorem Outcome.gains_subscription (h : feed.Inv)
    (houtcome : Outcome library feed record next update) {generation sid : ℕ}
    (hbefore : ¬(feed.generation = generation ∧ (feed.subscriptions[sid]?).isSome ∧
      sid ≠ feed.tradeSid))
    (hafter : next.generation = generation ∧ (next.subscriptions[sid]?).isSome ∧
      sid ≠ next.tradeSid) :
    record.channel = ascii "ws.receive.v1" ∧ update.event = .control ∧
      feed.generation = generation ∧ ∃ id root msg,
        parseStrict library record.payload = .ok root ∧
        root.find "type" = some (.string "subscribed") ∧ root.find "id" = some (.unsigned id) ∧
        root.find "msg" = some msg ∧ msg.find "sid" = some (.unsigned sid) ∧
        msg.find "channel" = some (.string "orderbook_delta") := by
  cases houtcome with
  | attempted => simp at hafter
  | @acknowledged root msg id other trade _ hchannel hgeneration hhealthy hroot hkind hid hmsg hsid
      hsent hpos hunacknowledged htrade hbook hnew =>
    obtain ⟨hgen, hsome, hnotTrade⟩ := hafter
    dsimp only at hgen hsome hnotTrade
    rw [Std.TreeMap.getElem?_insert] at hsome
    by_cases heq : compare other sid = .eq
    · obtain rfl := Std.LawfulEqCmp.eq_of_compare heq
      by_cases htradeIs : trade
      · rw [if_pos htradeIs] at hnotTrade
        exact absurd rfl hnotTrade
      · rw [if_neg htradeIs] at hbook
        exact ⟨hchannel, rfl, hgen, id, root, msg, hroot, hkind, hid, hmsg, hsid, hbook⟩
    · rw [if_neg heq] at hsome
      obtain ⟨marketId, hmarket⟩ := Option.isSome_iff_exists.mp hsome
      by_cases htradeIs : trade
      · -- A second acknowledgement of the trades is refused.
        refine absurd ⟨hgen, hsome, fun hsame => hunacknowledged ?_⟩ hbefore
        have hne := (h.subscription_pos sid marketId hmarket).ne'
        rw [hsame] at hne
        rw [(htrade.mp htradeIs).2]
        exact h.trade_acknowledged hne
      · rw [if_neg htradeIs] at hnotTrade
        exact absurd ⟨hgen, hsome, hnotTrade⟩ hbefore
  | failed | ignored | quiet | closed | opened | sent | traded | applied =>
    exact absurd hafter hbefore

/-- Only an acknowledgement of a command marks it. -/
theorem Outcome.gains_acknowledged (houtcome : Outcome library feed record next update)
    {generation index : ℕ}
    (hbefore : ¬(feed.generation = generation ∧ feed.acknowledged[index]? = some true))
    (hafter : next.generation = generation ∧ next.acknowledged[index]? = some true) :
    record.channel = ascii "ws.receive.v1" ∧ update.event = .control ∧
      feed.generation = generation ∧ ∃ sid channel root msg,
        parseStrict library record.payload = .ok root ∧
        root.find "type" = some (.string "subscribed") ∧
        root.find "id" = some (.unsigned (index + 1)) ∧
        root.find "msg" = some msg ∧ msg.find "sid" = some (.unsigned sid) ∧
        msg.find "channel" = some (.string channel) := by
  cases houtcome with
  | attempted => exact absurd (List.mem_of_getElem? hafter.2) (by simp)
  | @acknowledged root msg id other trade _ hchannel hgeneration hhealthy hroot hkind hid hmsg hsid
      hsent hpos hunacknowledged htrade hbook hnew =>
    obtain ⟨hgen, hmarked⟩ := hafter
    dsimp only at hgen hmarked
    rw [List.getElem?_set] at hmarked
    by_cases heq : id - 1 = index
    · obtain rfl : id = index + 1 := by omega
      exact ⟨hchannel, rfl, hgen, other, _, root, msg, hroot, hkind, hid, hmsg, hsid, hbook⟩
    · rw [if_neg heq] at hmarked
      exact absurd ⟨hgen, hmarked⟩ hbefore
  | failed | ignored | quiet | closed | opened | sent | traded | applied =>
    exact absurd hafter hbefore

/-- The subscription to a book was acknowledged. -/
theorem Inv.acknowledged_subscription (h : feed.Inv) (hempty : feed.subscriptions = {})
    {inputs : List FeedInput} {sid : ℕ}
    (hsid : ((Foundations.run (stepFeed library) feed inputs).subscriptions[sid]?).isSome)
    (htrade : sid ≠ (Foundations.run (stepFeed library) feed inputs).tradeSid) :
    ∃ id, Acknowledged library feed inputs
      (Foundations.run (stepFeed library) feed inputs).generation id sid "orderbook_delta" := by
  set generation := (Foundations.run (stepFeed library) feed inputs).generation with hgeneration
  obtain ⟨past, input, later, rfl, hbefore, hafter⟩ := run_last_change
    (P := fun feed : ReadOnlyFeed => feed.generation = generation ∧
      (feed.subscriptions[sid]?).isSome ∧ sid ≠ feed.tradeSid)
    (by simp [hempty]) ⟨hgeneration.symm, hsid, htrade⟩
  have hinput := hafter [] List.nil_prefix
  rw [run_snoc] at hinput
  have hpast := h.run library past
  rcases hpast.step_cases library input with ⟨record, time, rfl, houtcome⟩ | ⟨_, hstop, -⟩
  · obtain ⟨hchannel, hcontrol, hcurrent, id, hmessage⟩ :=
      houtcome.gains_subscription (hpast.withTime time) hbefore hinput
    exact ⟨id, past, record, later, rfl, hcurrent, ⟨⟨hchannel, hcontrol⟩, hmessage⟩⟩
  · rw [hstop] at hinput
    exact absurd hinput hbefore

/-- A marked command was acknowledged. -/
theorem Inv.acknowledged_command (h : feed.Inv)
    (hnone : ∀ index : ℕ, feed.acknowledged[index]? ≠ some true) {inputs : List FeedInput}
    {index : ℕ}
    (hmarked : (Foundations.run (stepFeed library) feed inputs).acknowledged[index]? = some true) :
    ∃ sid channel, Acknowledged library feed inputs
      (Foundations.run (stepFeed library) feed inputs).generation (index + 1) sid channel := by
  set generation := (Foundations.run (stepFeed library) feed inputs).generation with hgeneration
  obtain ⟨past, input, later, rfl, hbefore, hafter⟩ := run_last_change
    (P := fun feed : ReadOnlyFeed => feed.generation = generation ∧
      feed.acknowledged[index]? = some true)
    (by simp [hnone]) ⟨hgeneration.symm, hmarked⟩
  have hinput := hafter [] List.nil_prefix
  rw [run_snoc] at hinput
  have hpast := h.run library past
  rcases hpast.step_cases library input with ⟨record, time, rfl, houtcome⟩ | ⟨_, hstop, -⟩
  · obtain ⟨hchannel, hcontrol, hcurrent, sid, channel, hmessage⟩ :=
      houtcome.gains_acknowledged hbefore hinput
    exact ⟨sid, channel, past, record, later, rfl, hcurrent, ⟨⟨hchannel, hcontrol⟩, hmessage⟩⟩
  · rw [hstop] at hinput
    exact absurd hinput hbefore

/-! ### Updates -/

/-- What a market event says. -/
structure MarketEvent (library : JsonLibrary) (feed next : ReadOnlyFeed) (record : RawMarketRecord)
    (update : FeedUpdate) (marketId sid : ℕ) : Prop where
  update_eq : update.marketId = some marketId
  before : feed.state.connected = true
  after : next.state.connected = true
  selected : marketId ∈ feed.selection
  message : ∃ root, parseStrict library record.payload = .ok root ∧
    root.find "sid" = some (.unsigned sid)
  subscribed : ∃ subscription, feed.subscriptions[sid]? = some subscription ∧
    (feed.protocol = .perMarketV1 → marketId = subscription)
  not_trade : sid ≠ feed.tradeSid

theorem Outcome.market_event (h : feed.Inv) (houtcome : Outcome library feed record next update)
    (hevent : update.event = .market) :
    ∃ marketId sid, MarketEvent library feed next record update marketId sid := by
  cases houtcome with
  | failed hfailed => simp [hevent] at hfailed
  | traded _ _ _ _ _ _ _ _ htrade => exact absurd (hevent.symm.trans htrade) (by simp)
  | applied hchannel hgeneration hhealthy hroot hkind hsid hsubscribed htrade hper
    hselected hmarkets
      hconnected =>
    exact ⟨_, _, rfl, h.connected.trans hhealthy, hconnected, hselected, ⟨_, hroot, hsid⟩,
      ⟨_, hsubscribed, hper⟩, htrade⟩
  | ignored | quiet | attempted | closed | opened | sent | acknowledged =>
    exact absurd hevent (by simp)

/-- A failed update leaves no connection and no valid book. -/
theorem Outcome.shut (h : feed.Inv) (houtcome : Outcome library feed record next update)
    (hevent : update.event = .invalidated ∨ update.event = .invalidHistory) :
    next.state.connected = false ∧ NoneValid next.state := by
  cases houtcome with
  | failed _ _ hshut => exact ⟨hshut.disconnected, hshut.none_valid⟩
  | ignored hhealthy => exact ⟨h.connected.trans hhealthy, h.none_valid hhealthy⟩
  | traded _ _ _ _ _ _ _ _ htrade => simp [htrade] at hevent
  | quiet | attempted | closed | opened | sent | acknowledged | applied => simp at hevent

theorem Outcome.faulted (houtcome : Outcome library feed record next update)
    (hevent : update.event = .invalidated) : next.faulted = true := by
  cases houtcome with
  | failed => rfl
  | traded _ _ _ _ _ _ _ _ htrade => exact absurd (hevent.symm.trans htrade) (by simp)
  | ignored | quiet | attempted | closed | opened | sent | acknowledged | applied =>
    exact absurd hevent (by simp)

/-- A trade changes no book, and its sequence is that of the message and follows the one before. -/
theorem Outcome.trade (houtcome : Outcome library feed record next update)
    (hevent : update.event = .publicTrade) :
    next.processor = feed.processor ∧ next.generation = feed.generation ∧
      0 < next.tradeSequence ∧
      (feed.tradeSequence ≠ 0 → next.tradeSequence = feed.tradeSequence + 1) ∧
      ∃ root, parseStrict library record.payload = .ok root ∧
        root.find "seq" = some (.unsigned next.tradeSequence) := by
  cases houtcome with
  | failed hfailed => simp [hevent] at hfailed
  | traded hchannel hgeneration hhealthy hroot hsequence hpos hnext =>
    exact ⟨rfl, rfl, hpos, hnext, _, hroot, hsequence⟩
  | ignored | quiet | attempted | closed | opened | sent | acknowledged | applied =>
    exact absurd hevent (by simp)

/-- Without a trade the sequence of the trades stays, or a higher generation starts. -/
theorem Outcome.not_trade (houtcome : Outcome library feed record next update)
    (hevent : update.event ≠ .publicTrade) :
    next.tradeSequence = feed.tradeSequence ∧ next.generation = feed.generation ∨
      feed.generation < next.generation := by
  cases houtcome with
  | attempted _ _ hlt => exact Or.inr hlt
  | traded _ _ _ _ _ _ _ _ htrade => exact absurd htrade hevent
  | failed | ignored | quiet | closed | opened | sent | acknowledged | applied =>
    exact Or.inl ⟨rfl, rfl⟩

end ReadOnlyFeed

/-! ### The emitted trades -/

/-- The generation and the sequence of the trade that an input emits. -/
def emittedTrade (library : JsonLibrary) (feed : ReadOnlyFeed) : FeedInput → Option (ℕ × ℕ)
  | .record record =>
    if (feed.accept library record).2.event = .publicTrade then
      some ((feed.accept library record).1.generation, (feed.accept library record).1.tradeSequence)
    else none
  | .abort => none

/-- The generation and the sequence of every trade that is emitted. -/
def tradeLog (library : JsonLibrary) : ReadOnlyFeed → List FeedInput → List (ℕ × ℕ)
  | _, [] => []
  | feed, input :: inputs =>
    (emittedTrade library feed input).toList ++
      tradeLog library (stepFeed library feed input) inputs

/-- Trades of one generation follow one another. -/
def Contiguous (first second : ℕ × ℕ) : Prop :=
  first.1 ≤ second.1 ∧ (first.1 = second.1 → second.2 = first.2 + 1)

/-- The first trade of a log goes on from the state of the feed. -/
def Continues (feed : ReadOnlyFeed) (trade : ℕ × ℕ) : Prop :=
  feed.generation ≤ trade.1 ∧
    (feed.generation = trade.1 → feed.tradeSequence ≠ 0 → trade.2 = feed.tradeSequence + 1)

theorem ReadOnlyFeed.Inv.emittedTrade_cases {library : JsonLibrary} {feed : ReadOnlyFeed}
    (h : feed.Inv) (input : FeedInput) :
    (∃ trade, emittedTrade library feed input = some trade ∧ Continues feed trade ∧
      trade = ((stepFeed library feed input).generation,
        (stepFeed library feed input).tradeSequence) ∧
      (stepFeed library feed input).tradeSequence ≠ 0) ∨
    emittedTrade library feed input = none ∧
      ((stepFeed library feed input).tradeSequence = feed.tradeSequence ∧
        (stepFeed library feed input).generation = feed.generation ∨
        feed.generation < (stepFeed library feed input).generation) := by
  cases input with
  | record record =>
    obtain ⟨time, houtcome⟩ := h.outcome_accept library record
    by_cases hevent : (feed.accept library record).2.event = .publicTrade
    · obtain ⟨-, hgeneration, hpos, hnext, -⟩ := houtcome.trade hevent
      exact Or.inl ⟨_, if_pos hevent, ⟨hgeneration.ge, fun _ => hnext⟩, rfl, hpos.ne'⟩
    · exact Or.inr ⟨if_neg hevent, houtcome.not_trade hevent⟩
  | abort =>
    obtain ⟨processor, heq, -⟩ := ReadOnlyFeed.closeBooks_eq feed h.books
    refine Or.inr ⟨rfl, Or.inl ?_⟩
    rw [stepFeed, ReadOnlyFeed.abort, heq]
    exact ⟨rfl, rfl⟩

/-- **The emitted trades are contiguous**, and they go on from the state of the feed. -/
theorem ReadOnlyFeed.Inv.tradeLog_contiguous {library : JsonLibrary} {feed : ReadOnlyFeed}
    (h : feed.Inv) (inputs : List FeedInput) :
    (tradeLog library feed inputs).IsChain Contiguous ∧
      ∀ trade ∈ (tradeLog library feed inputs).head?, Continues feed trade := by
  induction inputs generalizing feed with
  | nil => exact ⟨.nil, fun trade htrade => absurd htrade (by simp [tradeLog])⟩
  | cons input inputs ih =>
    obtain ⟨hchain, hhead⟩ := ih (h.step library input)
    unfold tradeLog
    rcases @ReadOnlyFeed.Inv.emittedTrade_cases library feed h input with
      ⟨trade, hemitted, hcontinues, htrade, hpos⟩ | ⟨hnone, hsame⟩
    · rw [hemitted]
      refine ⟨List.isChain_cons.mpr ⟨fun next hnext => ?_, hchain⟩, fun other hother => ?_⟩
      · obtain ⟨hle, hsucc⟩ := hhead next hnext
        rw [htrade]
        exact ⟨hle, fun heq => hsucc heq hpos⟩
      · obtain rfl : trade = other := by simpa using hother
        exact hcontinues
    · rw [hnone]
      refine ⟨hchain, fun trade htrade => ?_⟩
      obtain ⟨hle, hsucc⟩ := hhead trade htrade
      rcases hsame with ⟨hsequence, hgeneration⟩ | hlt
      · rw [hsequence, hgeneration] at hsucc
        exact ⟨hgeneration ▸ hle, hsucc⟩
      · exact ⟨hlt.le.trans hle, fun heq => by omega⟩

/-! ### The feed fails closed -/

/-- An input that fails the feed: a demand to stop, or a record that is answered with an
invalidation. -/
def Fails (library : JsonLibrary) (feed : ReadOnlyFeed) : FeedInput → Prop
  | .record record => (feed.accept library record).2.event = .invalidated
  | .abort => True

theorem ReadOnlyFeed.Inv.faulted_of_fails {library : JsonLibrary} {feed : ReadOnlyFeed}
    (h : feed.Inv) {input : FeedInput} (hfails : Fails library feed input) :
    (stepFeed library feed input).faulted = true := by
  cases input with
  | record record =>
    obtain ⟨time, houtcome⟩ := h.outcome_accept library record
    exact houtcome.faulted hfails
  | abort => rfl

/-- Connected exactly while healthy, which needs an attempt; and without a connection no book is
valid. -/
theorem ReadOnlyFeed.Inv.connected_iff {feed : ReadOnlyFeed} (h : feed.Inv) :
    (feed.state.connected = true ↔ feed.opened = true ∧ feed.faulted = false) ∧
      (feed.state.connected = true → feed.attempting = true) ∧
      (feed.state.connected = false → NoneValid feed.state) := by
  have hiff : feed.state.connected = true ↔ feed.opened = true ∧ feed.faulted = false := by
    rw [h.connected, healthy, Bool.and_eq_true, Bool.not_eq_true']
  exact ⟨hiff, fun hconnected => h.attempting (hiff.mp hconnected).1, h.books.none_valid⟩

/-- A ready feed has a valid book for every selected market and no command without an
acknowledgement. -/
theorem ReadOnlyFeed.Inv.ready_spec {feed : ReadOnlyFeed} (h : feed.Inv)
    (hready : feed.ready = true) :
    (∀ marketId ∈ feed.selection, InState feed.state marketId .valid) ∧
      ∀ index < feed.commands.length, feed.acknowledged[index]? = some true := by
  simp only [ready, Bool.and_eq_true, beq_iff_eq, List.all_eq_true] at hready
  refine ⟨fun marketId hmem => ?_, fun index hlt => ?_⟩
  · exact MarketState.forall_valid_of_count
      (fun m book hbook => h.books.selected m (by rw [hbook]; rfl)) hready.1.2 hmem
  · rw [← h.acknowledged_length] at hlt
    rw [List.getElem?_eq_getElem hlt, hready.2 _ (List.getElem_mem hlt)]

/-- **The read-only feed fails closed.** After every sequence of records and aborts:

* the books are connected exactly while the feed is opened and not faulted, and then an attempt is
  in progress;
* an update that reports an invalidation or an invalid history, and an abort, leave no connection
  and no valid book;
* after an invalidation or an abort this stays so until a higher generation is attempted and
  opened, and each book stays invalid until its command was sent and a new snapshot applied;
* a market event is for a selected market on a connection, with the subscription of a book that
  was acknowledged in this generation;
* a feed is ready only with all books valid and all commands acknowledged;
* a trade changes no book, and the trades of a generation have contiguous sequences. -/
theorem feed_fails_closed {library : JsonLibrary} {markets : MarketRegistry}
    {selection : List MarketId} {protocol : FeedProtocol} {start : ReadOnlyFeed}
    (hcreate : ReadOnlyFeed.create library markets selection protocol = .ok start)
    (inputs : List FeedInput) :
    let feed := run (stepFeed library) start inputs
    (feed.state.connected = true ↔ feed.opened = true ∧ feed.faulted = false) ∧
    (feed.state.connected = true → feed.attempting = true) ∧
    (feed.state.connected = false → NoneValid feed.state) ∧
    (∀ record, (feed.accept library record).2.event = .invalidated ∨
        (feed.accept library record).2.event = .invalidHistory →
      (feed.accept library record).1.state.connected = false ∧
        NoneValid (feed.accept library record).1.state) ∧
    (feed.abort.state.connected = false ∧ NoneValid feed.abort.state) ∧
    (∀ input later, Fails library feed input →
      let failed := stepFeed library feed input
      let last := run (stepFeed library) failed later
      last.state.connected = false ∧ NoneValid last.state ∨
      ∃ reopened after, ReadOnlyFeed.Reopening library failed later reopened after ∧
        ∀ marketId, InState last.state marketId .valid →
          ReadOnlyFeed.Resubscription library reopened after marketId) ∧
    (∀ record, (feed.accept library record).2.event = .market →
      ∃ marketId ∈ selection, ∃ sid id,
        ReadOnlyFeed.MarketEvent library feed (feed.accept library record).1 record
          (feed.accept library record).2 marketId sid ∧
        ReadOnlyFeed.Acknowledged library start inputs feed.generation id sid "orderbook_delta") ∧
    (feed.ready = true →
      (∀ marketId ∈ selection, InState feed.state marketId .valid) ∧
      ∀ index < feed.commands.length, ∃ sid channel,
        ReadOnlyFeed.Acknowledged library start inputs feed.generation (index + 1) sid channel) ∧
    (∀ record, (feed.accept library record).2.event = .publicTrade →
      (feed.accept library record).1.processor = feed.processor) ∧
    (tradeLog library start inputs).IsChain Contiguous := by
  obtain ⟨hstart, -, -, -, hempty, hnone, hselection⟩ := ReadOnlyFeed.inv_create hcreate
  intro feed
  have h : feed.Inv := hstart.run library inputs
  have hsame := hstart.sameSetup_run library inputs
  have hmem (marketId : MarketId) : marketId ∈ feed.selection ↔ marketId ∈ selection := by
    rw [hsame.selection_eq, hselection, List.mem_insertionSort]
  obtain ⟨hiff, hattempting, hclosed⟩ := h.connected_iff
  refine ⟨hiff, hattempting, hclosed, fun record hevent => ?_, ?_, fun input later hfails => ?_,
    fun record hevent => ?_, fun hready => ?_, fun record hevent => ?_,
    (hstart.tradeLog_contiguous inputs).1⟩
  · obtain ⟨time, houtcome⟩ := h.outcome_accept library record
    exact houtcome.shut (h.withTime time) hevent
  · obtain ⟨processor, heq, -, hshut⟩ := ReadOnlyFeed.closeBooks_eq feed h.books
    rw [ReadOnlyFeed.abort, heq]
    exact ⟨hshut.disconnected, hshut.none_valid⟩
  · have hfailed := h.step library input
    have hlast := hfailed.run library later
    intro failed last
    cases hconnected : last.state.connected with
    | false => exact Or.inl ⟨rfl, hlast.connected_iff.2.2 hconnected⟩
    | true =>
      obtain ⟨reopened, after, hpath, hreopened, hsent, -, hrun⟩ :=
        hfailed.reopening (h.faulted_of_fails hfails) hconnected
      refine Or.inr ⟨reopened, after, hpath, fun marketId hvalid => ?_⟩
      exact hreopened.resubscription hsent (hrun.symm ▸ hvalid)
  · obtain ⟨time, houtcome⟩ := h.outcome_accept library record
    obtain ⟨marketId, sid, hmarket⟩ := houtcome.market_event (h.withTime time) hevent
    obtain ⟨subscription, hsubscription, -⟩ := hmarket.subscribed
    obtain ⟨id, hacknowledged⟩ := hstart.acknowledged_subscription hempty
      (Option.isSome_of_eq_some hsubscription) hmarket.not_trade
    exact ⟨marketId, (hmem marketId).mp hmarket.selected, sid, id, { hmarket with },
      hacknowledged⟩
  · obtain ⟨hvalid, hmarked⟩ := h.ready_spec hready
    exact ⟨fun marketId hselected => hvalid marketId ((hmem marketId).mpr hselected),
      fun index hlt => hstart.acknowledged_command hnone (hmarked index hlt)⟩
  · obtain ⟨time, houtcome⟩ := h.outcome_accept library record
    exact (houtcome.trade hevent).1

/-! ### A small session -/

/-- One market. -/
def sampleMarkets : MarketRegistry :=
  (MarketRegistry.registerMarket { metadataVersion := 1 } 7 "RAIN").1

/-- A library on the texts of the session: it prints the subscription command of the market, and
no message can be read. -/
def sampleLibrary : JsonLibrary where
  parse _ := { events := [], value := none }
  dump _ := ascii ("\x7b\"cmd\":\"subscribe\",\"id\":1,\"params\":\x7b\"channels\":" ++
    "[\"orderbook_delta\"],\"market_ticker\":\"RAIN\",\"use_yes_price\":true\x7d\x7d")

def sampleRecord (channel : String) (receivedAt : Int64) (payload : List UInt8) :
    RawMarketRecord where
  schemaVersion := currentSchemaVersion
  metadataVersion := 1
  connectionGeneration := 1
  receivedAt := receivedAt
  observedAt := receivedAt
  sequence := 0
  exchangeTimeNs := none
  channel := ascii channel
  payload := payload

/-- A session that subscribes to the market and receives a message that cannot be read. -/
def sampleInputs : List FeedInput :=
  [.record (sampleRecord "ws.attempt.v1" 1 (ascii "attempt")),
    .record (sampleRecord "ws.open.v1" 2 (ascii "open")),
    .record (sampleRecord "ws.send.v1" 3 (sampleLibrary.dump .null)),
    .record (sampleRecord "ws.receive.v1" 4 (ascii "?"))]

theorem feed_fails_closed_sample :
    ∃ start, ReadOnlyFeed.create sampleLibrary sampleMarkets [7] .perMarketV1 = .ok start ∧
      let feed := run (stepFeed sampleLibrary) start sampleInputs
      (feed.state.connected = true ↔ feed.opened = true ∧ feed.faulted = false) ∧
      feed.abort.state.connected = false ∧
      (tradeLog sampleLibrary start sampleInputs).IsChain Contiguous := by
  refine ⟨_, rfl, ?_⟩
  obtain ⟨hiff, -, -, -, habort, -, -, -, -, htrades⟩ :=
    @feed_fails_closed sampleLibrary sampleMarkets [7] .perMarketV1 _ rfl sampleInputs
  exact ⟨hiff, habort.1, htrades⟩

end EventMarket.Session
