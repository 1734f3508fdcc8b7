import EventMarket.Foundations.Run
import EventMarket.Market.MarketState

/-!
# The books replicate the venue

In each generation of the connection the venue assigns every market to a stream and emits
messages with consecutive sequence numbers on each stream: snapshots, which report the book of a
market, and deltas, which change it. The network may lose, repeat and reorder them. This file
states what the venue's books are after each message and proves that a book which calls itself
valid equals the venue's book at its own last sequence, and, when streams are shared, also at the
last sequence recorded for its stream.

## Main definitions

* `Venue`, `Venue.bookAfter`, `Venue.bookAt`: the history of the venue and its books.
* `Venue.WellFormed`: snapshots report the current book, and quantities never fall below zero.
* `ReplicaInput`, `stepReplica`: what happens to the receiver.
* `Replicates`: the levels of a book are those of a venue book.
* `Synchronized`: the simulation between the venue's history and the receiver.

## Main results

* `synchronized_step`: every input preserves the simulation.
* `replica_correct`: valid books are right after every run.
-/

namespace EventMarket.Market

open Core Book Foundations

/-! ### The venue -/

/-- The book of one market at the venue: the quantity at each side and price. -/
abbrev VenueBook : Type := Side → Price → ℤ

inductive VenueMessage where
  | snapshot (marketId : MarketId) (bids asks : List Level)
  | delta (marketId : MarketId) (side : Side) (price : Price) (change : QuantityDelta)
  deriving DecidableEq, Repr

def VenueMessage.marketId : VenueMessage → MarketId
  | .snapshot marketId .. => marketId
  | .delta marketId .. => marketId

/-- What a message does to the book of a market: only a delta of that market changes it. -/
def VenueMessage.applyTo (marketId : MarketId) (book : VenueBook) : VenueMessage → VenueBook
  | .snapshot .. => book
  | .delta market side price change => fun other level =>
    if market = marketId ∧ other = side ∧ level = price then book other level + change.raw
    else book other level

/-- The history of a venue. The `i`-th message of a stream has the sequence of the first one
plus `i`. -/
structure Venue where
  stream : (generation : ℕ) → MarketId → ℕ
  firstSequence : (generation stream : ℕ) → ℕ
  initial : (generation : ℕ) → MarketId → VenueBook
  messages : (generation stream : ℕ) → List VenueMessage

namespace Venue

/-- The book of a market after the first messages of a stream. -/
def bookAfter (venue : Venue) (generation stream : ℕ) (marketId : MarketId) (count : ℕ) :
    VenueBook :=
  ((venue.messages generation stream).take count).foldl (VenueMessage.applyTo marketId)
    (venue.initial generation marketId)

/-- The book of a market as of a sequence of the stream it is assigned to. -/
def bookAt (venue : Venue) (generation : ℕ) (marketId : MarketId) (sequence : ℕ) : VenueBook :=
  venue.bookAfter generation (venue.stream generation marketId) marketId
    (sequence + 1 - venue.firstSequence generation (venue.stream generation marketId))

end Venue

/-- A list of levels reports one side of a venue book. -/
structure Reports (levels : List Level) (side : Price → ℤ) : Prop where
  quantity_eq : ∀ level ∈ levels, side level.price = level.quantity.raw
  complete : ∀ price, side price ≠ 0 → ∃ level ∈ levels, level.price = price

/-- Every market stays on its stream, snapshots report the current book, and quantities are never
negative. -/
structure Venue.WellFormed (venue : Venue) : Prop where
  stream_eq : ∀ (generation stream i : ℕ) (message : VenueMessage),
    (venue.messages generation stream)[i]? = some message →
    venue.stream generation message.marketId = stream
  reports : ∀ (generation stream i : ℕ) (marketId : MarketId) (bids asks : List Level),
    (venue.messages generation stream)[i]? = some (.snapshot marketId bids asks) →
    Reports bids (venue.bookAfter generation stream marketId i .bid) ∧
      Reports asks (venue.bookAfter generation stream marketId i .ask)
  nonneg : ∀ (generation stream : ℕ) (marketId : MarketId) (count : ℕ) (side : Side)
    (price : Price), 0 ≤ venue.bookAfter generation stream marketId count side price

/-- The venue sent this update, as the message at its place in its stream. -/
def Venue.Emits (venue : Venue) : NormalizedMarketEvent → Prop
  | .snapshot snapshot => ∃ i : ℕ,
    (venue.messages snapshot.connectionGeneration snapshot.streamId)[i]? =
      some (.snapshot snapshot.marketId snapshot.bids snapshot.asks) ∧
    snapshot.sequence =
      venue.firstSequence snapshot.connectionGeneration snapshot.streamId + i
  | .delta delta => ∃ i : ℕ,
    (venue.messages delta.connectionGeneration delta.streamId)[i]? =
      some (.delta delta.marketId delta.side delta.price delta.quantityDelta) ∧
    delta.sequence = venue.firstSequence delta.connectionGeneration delta.streamId + i

/-! ### The receiver -/

/-- What happens to the receiver. -/
inductive ReplicaInput where
  | openConnection (generation : ℕ)
  | closeConnection (generation : ℕ)
  | beginRecovery (marketId : MarketId)
  | deliver (event : NormalizedMarketEvent)

def stepReplica (state : MarketState) : ReplicaInput → MarketState
  | .openConnection generation => (state.openConnection generation).1
  | .closeConnection generation => (state.closeConnection generation).1
  | .beginRecovery marketId => (state.beginRecovery marketId).1
  | .deliver event => (state.apply event).1

/-- The levels of a book are exactly those of a venue book, empty ones left out. -/
def Replicates (book : OrderBook) (venueBook : VenueBook) : Prop :=
  ∀ (side : Side) (price : Price) (quantity : Quantity),
    (book.levelsFor side)[price]? = some quantity ↔
      (quantity.raw : ℤ) = venueBook side price ∧ 0 < quantity.raw

/-- The working form of `Replicates`: equal quantities, and no empty level stored. -/
structure Mirrors (book : OrderBook) (venueBook : VenueBook) : Prop where
  stored_eq : ∀ side price, (OrderBook.stored (book.levelsFor side) price : ℤ) =
    venueBook side price
  positive : ∀ side, OrderBook.Positive (book.levelsFor side)

theorem Mirrors.replicates {book : OrderBook} {venueBook : VenueBook}
    (h : Mirrors book venueBook) : Replicates book venueBook := by
  intro side price quantity
  rw [(h.positive side).getElem?_eq_some_iff, ← h.stored_eq side price, Nat.cast_inj]

/-! ### Books along the history -/

section History

variable {venue : Venue} {generation stream i : ℕ} {marketId : MarketId}

theorem Venue.bookAfter_succ {message : VenueMessage}
    (h : (venue.messages generation stream)[i]? = some message) :
    venue.bookAfter generation stream marketId (i + 1) =
      message.applyTo marketId (venue.bookAfter generation stream marketId i) := by
  simp only [bookAfter, List.take_add_one, h, Option.toList_some, List.foldl_append,
    List.foldl_cons,
    List.foldl_nil]

theorem VenueMessage.applyTo_of_ne {message : VenueMessage} (h : message.marketId ≠ marketId)
    (book : VenueBook) : message.applyTo marketId book = book := by
  cases message with
  | snapshot => rfl
  | delta market side price change =>
    funext other level
    exact if_neg fun hsame => h hsame.1

/-- **A snapshot mirrors the venue.** -/
theorem mirrors_of_snapshot {bids asks : List Level} {nextBids nextAsks : Levels}
    {venueBook : VenueBook} (hbids : OrderBook.loadLevels bids {} = some nextBids)
    (hasks : OrderBook.loadLevels asks {} = some nextAsks) (hrb : Reports bids (venueBook .bid))
    (hra : Reports asks (venueBook .ask)) (state : BookState) (streamId lastSequence : Option ℕ) :
    Mirrors ⟨state, streamId, lastSequence, nextBids, nextAsks⟩ venueBook := by
  -- One side at a time.
  have hside {levels : List Level} {loaded : Levels} {side : Price → ℤ}
      (hload : OrderBook.loadLevels levels {} = some loaded) (hr : Reports levels side)
      (price : Price) : (OrderBook.stored loaded price : ℤ) = side price := by
    rcases OrderBook.stored_loadLevels hload price with
      ⟨level, hmem, rfl, hstored⟩ | ⟨hnone, hstored⟩
    · rw [hstored, hr.quantity_eq level hmem]
    · rw [hstored, OrderBook.stored_empty]
      by_contra hne
      obtain ⟨level, hmem, hprice⟩ := hr.complete price (fun h => hne (by simp [h]))
      exact hnone level hmem hprice
  refine ⟨fun side price => ?_, fun side => ?_⟩
  · cases side with
    | bid => exact hside hbids hrb price
    | ask => exact hside hasks hra price
  · cases side with
    | bid => exact OrderBook.positive_loadLevels hbids OrderBook.positive_empty
    | ask => exact OrderBook.positive_loadLevels hasks OrderBook.positive_empty

/-- **A delta keeps the mirror.** -/
theorem Mirrors.changeLevel {book : OrderBook} {venueBook : VenueBook} (h : Mirrors book venueBook)
    {side : Side} {price : Price} {change : QuantityDelta} {levels : Levels}
    (hlevels : OrderBook.changeLevel (book.levelsFor side) price change.raw = some levels)
    (lastSequence : Option ℕ) :
    Mirrors { book.setLevels side levels with lastSequence }
      ((VenueMessage.delta marketId side price change).applyTo marketId venueBook) := by
  have hset (other : Side) :
      OrderBook.levelsFor { book.setLevels side levels with lastSequence } other =
        (book.setLevels side levels).levelsFor other := by
    cases other <;> rfl
  obtain ⟨-, hstored⟩ := OrderBook.stored_changeLevel hlevels
  refine ⟨fun other level => ?_, fun other => ?_⟩
  · rw [hset, OrderBook.levelsFor_setLevels]
    simp only [VenueMessage.applyTo, true_and]
    by_cases hother : other = side
    · subst hother
      simp only [if_true, true_and]
      rw [hstored level]
      split_ifs with hprice
      · rw [hprice, h.stored_eq]
      · exact h.stored_eq other level
    · simp only [if_neg hother]
      rw [if_neg fun hsame => hother hsame.1]
      exact h.stored_eq other level
  · rw [hset, OrderBook.levelsFor_setLevels]
    split_ifs
    · exact OrderBook.positive_changeLevel hlevels (h.positive side)
    · exact h.positive other

end History

/-! ### The simulation -/

/-- What a valid book knows: it mirrors the venue after a message of its stream, and on a shared
stream the messages since then, up to the recorded one, have not touched its market. -/
structure Tracked (venue : Venue) (state : MarketState) (marketId : MarketId) (book : OrderBook)
    (generation last : ℕ) : Prop where
  generation_eq : state.connectionGeneration = some generation
  connected : state.connected = true
  stream_eq : book.streamId = some (venue.stream generation marketId)
  sequence_eq : book.lastSequence =
    some (venue.firstSequence generation (venue.stream generation marketId) + last)
  mirrors : Mirrors book
    (venue.bookAfter generation (venue.stream generation marketId) marketId (last + 1))
  recorded : state.scope = .sharedStream → ∃ recorded, last ≤ recorded ∧
    state.streamSequences[venue.stream generation marketId]? =
      some (venue.firstSequence generation (venue.stream generation marketId) + recorded) ∧
    venue.bookAfter generation (venue.stream generation marketId) marketId (recorded + 1) =
      venue.bookAfter generation (venue.stream generation marketId) marketId (last + 1)

/-- **The simulation.** Every valid book is tracked. -/
def Synchronized (venue : Venue) (state : MarketState) : Prop :=
  ∀ marketId book, state.findBook marketId = some book → book.state = .valid →
    ∃ generation last, Tracked venue state marketId book generation last

section Simulation

variable {venue : Venue} {state next : MarketState}

/-- Losing validity keeps the simulation. -/
theorem Synchronized.degrades (h : Synchronized venue state) (hd : state.Degrades next) :
    Synchronized venue next := by
  intro marketId book hbook hvalid
  obtain ⟨generation, last, ht⟩ := h marketId book (hd.valid marketId book hbook hvalid) hvalid
  refine ⟨generation, last, { ht with
    generation_eq := hd.generation_eq.trans ht.generation_eq
    connected := ?_
    recorded := ?_ }⟩
  · rcases hd.closed with hsame | ⟨-, hnone⟩
    · exact hsame.trans ht.connected
    · exact absurd hvalid (hnone marketId book hbook)
  · rw [hd.scope_eq, hd.sequences_eq]
    exact ht.recorded

theorem synchronized_openConnection (h : Synchronized venue state) (generation : ℕ) :
    Synchronized venue (state.openConnection generation).1 := by
  rcases state.openConnection_cases generation with hrefused | ⟨next, hopened, -, -, -, -,
    -, -, hvalid⟩
  · rw [hrefused]
    exact h
  · rw [hopened]
    intro marketId book hbook hbookvalid
    -- A valid book would already have been connected.
    obtain ⟨hnone, hold⟩ := hvalid marketId book hbook hbookvalid
    obtain ⟨_, _, ht⟩ := h marketId book hold hbookvalid
    exact absurd (hnone.symm.trans ht.generation_eq) (by simp)

/-- **One more message of a stream.** Replacing the book of the message's market by a mirror of the
venue after that message keeps the simulation: on a shared stream the message is the next one, and
it touches no other market. -/
theorem Synchronized.deliver (hv : venue.WellFormed) (h : Synchronized venue state)
    {generation stream i : ℕ} {message : VenueMessage} {book : OrderBook}
    (hmessage : (venue.messages generation stream)[i]? = some message)
    (hgeneration : state.connectionGeneration = some generation)
    (hconnected : state.connected = true) (hstream : book.streamId = some stream)
    (hsequence : book.lastSequence = some (venue.firstSequence generation stream + i))
    (hmirrors : Mirrors book
      (venue.bookAfter generation stream message.marketId (i + 1)))
    (hnext : state.scope = .sharedStream → ∀ previous,
      state.streamSequences[stream]? = some previous →
        venue.firstSequence generation stream + i = previous + 1) :
    Synchronized venue { state with
      books := state.books.insert message.marketId book
      streamSequences := if state.scope = .sharedStream then
          state.streamSequences.insert stream (venue.firstSequence generation stream + i)
        else state.streamSequences } := by
  have hassigned := hv.stream_eq generation stream i message hmessage
  intro marketId other hother hvalid
  have hfind : MarketState.findBook { state with
      books := state.books.insert message.marketId book } marketId = some other := hother
  rw [MarketState.findBook_insert] at hfind
  split_ifs at hfind with hsame
  · -- The market of the message.
    obtain rfl := Option.some.inj hfind
    subst hsame
    refine ⟨generation, i, ⟨hgeneration, hconnected, ?_, ?_, ?_, fun hshared =>
      ⟨i, le_rfl, ?_, rfl⟩⟩⟩
    · rw [hassigned, hstream]
    · rw [hassigned, hsequence]
    · rw [hassigned]
      exact hmirrors
    · simp only [hassigned]
      rw [if_pos hshared, Std.TreeMap.getElem?_insert_self]
  · -- Another market.
    obtain ⟨generation', last, ht⟩ := h marketId other hfind hvalid
    obtain rfl : generation' = generation :=
      Option.some.inj (ht.generation_eq.symm.trans hgeneration)
    refine ⟨generation', last, { ht with recorded := fun hshared => ?_ }⟩
    obtain ⟨recorded, hle, hrecorded, hunchanged⟩ := ht.recorded hshared
    simp only [if_pos hshared]
    by_cases hstreams : venue.stream generation' marketId = stream
    · rw [hstreams] at hrecorded hunchanged ⊢
      have hsucc := hnext hshared _ hrecorded
      obtain rfl : i = recorded + 1 := by omega
      refine ⟨recorded + 1, by omega, Std.TreeMap.getElem?_insert_self, ?_⟩
      rw [Venue.bookAfter_succ hmessage,
        VenueMessage.applyTo_of_ne (fun heq => hsame heq.symm), hunchanged]
    · refine ⟨recorded, hle, ?_, hunchanged⟩
      rw [Std.TreeMap.getElem?_insert, if_neg fun heq =>
        hstreams (Std.LawfulEqCmp.eq_of_compare heq).symm]
      exact hrecorded

/-- **Every input preserves the simulation.** -/
theorem synchronized_step (hv : venue.WellFormed) (h : Synchronized venue state)
    {input : ReplicaInput} (hinput : ∀ event, input = .deliver event → venue.Emits event) :
    Synchronized venue (stepReplica state input) := by
  cases input with
  | openConnection generation => exact synchronized_openConnection h generation
  | closeConnection generation => exact h.degrades (state.degrades_closeConnection generation)
  | beginRecovery marketId => exact h.degrades (state.degrades_beginRecovery marketId)
  | deliver event =>
    have hemits := hinput event rfl
    cases event with
    | snapshot snapshot =>
      obtain ⟨i, hmessage, hsequence⟩ := hemits
      rcases state.applySnapshot_cases snapshot with
        ⟨bids, asks, hbids, hasks, haccepts, hnext, -, happlied⟩ | hrefused
      · obtain ⟨hconnected, hgeneration⟩ := MarketState.accepts_eq_true haccepts
        obtain ⟨hrb, hra⟩ := hv.reports _ _ _ _ _ _ hmessage
        simp only [stepReplica, MarketState.apply, happlied, hsequence]
        refine h.deliver hv hmessage hgeneration hconnected rfl rfl ?_
          fun hshared previous hprev => ?_
        · rw [Venue.bookAfter_succ hmessage]
          exact mirrors_of_snapshot hbids hasks hrb hra _ _ _
        · rw [← hsequence]
          exact MarketState.acceptsSequence_eq_true (hnext hshared) previous hprev
      · exact h.degrades hrefused.degrades
    | delta delta =>
      obtain ⟨i, hmessage, hsequence⟩ := hemits
      rcases state.applyDelta_cases delta with
        ⟨book, last, predecessor, levels, hbook, hvalid, hstream, hlast, hle, hsucc, hper, hshared,
          hlevels, haccepts, happlied⟩ | hrefused
      · obtain ⟨hconnected, hgeneration⟩ := MarketState.accepts_eq_true haccepts
        obtain ⟨generation, index, ht⟩ := h _ book hbook hvalid
        obtain rfl : generation = delta.connectionGeneration :=
          Option.some.inj (ht.generation_eq.symm.trans hgeneration)
        have hassigned : venue.stream delta.connectionGeneration delta.marketId =
            delta.streamId :=
          Option.some.inj (ht.stream_eq.symm.trans hstream)
        -- The delta is the message after the state that the book mirrors.
        have hbefore : venue.bookAfter delta.connectionGeneration delta.streamId delta.marketId
            (index + 1) = venue.bookAfter delta.connectionGeneration delta.streamId
              delta.marketId i := by
          cases hscope : state.scope with
          | perBook =>
            have hindex := ht.sequence_eq
            rw [hassigned, hlast, Option.some.injEq] at hindex
            have := hper hscope
            congr 1
            omega
          | sharedStream =>
            obtain ⟨recorded, -, hrecorded, hunchanged⟩ := ht.recorded hscope
            rw [hassigned, hshared hscope, Option.some.injEq] at hrecorded
            rw [hassigned] at hunchanged
            rw [← hunchanged]
            congr 1
            omega
        simp only [stepReplica, MarketState.apply, happlied, hsequence]
        refine h.deliver hv hmessage hgeneration hconnected (by simp [hstream]) rfl ?_
          fun hscope previous hprev => ?_
        · rw [Venue.bookAfter_succ hmessage, VenueMessage.marketId, ← hbefore]
          refine Mirrors.changeLevel ?_ hlevels _
          have hmirrors := ht.mirrors
          rwa [hassigned] at hmirrors
        · rw [← hsequence, hsucc]
          rw [hshared hscope, Option.some.injEq] at hprev
          rw [hprev]
      · exact h.degrades hrefused.degrades

theorem stepReplica_scope (state : MarketState) (input : ReplicaInput) :
    (stepReplica state input).scope = state.scope := by
  cases input with
  | openConnection generation =>
    rcases state.openConnection_cases generation with h | ⟨next, h, hscope, -⟩ <;>
      simp only [stepReplica, h]
    exact hscope
  | closeConnection generation => exact (state.degrades_closeConnection generation).scope_eq
  | beginRecovery marketId => exact (state.degrades_beginRecovery marketId).scope_eq
  | deliver event =>
    cases event with
    | snapshot snapshot =>
      rcases state.applySnapshot_cases snapshot with ⟨bids, asks, -, -, -, -, -, h⟩ | h
      · simp only [stepReplica, MarketState.apply, h]
      · exact h.degrades.scope_eq
    | delta delta =>
      rcases state.applyDelta_cases delta with
        ⟨book, last, predecessor, levels, -, -, -, -, -, -, -, -, -, -, h⟩ | h
      · simp only [stepReplica, MarketState.apply, h]
      · exact h.degrades.scope_eq

/-- The count of messages up to a sequence. -/
theorem Venue.bookAt_eq (venue : Venue) (generation : ℕ) (marketId : MarketId) (last : ℕ) :
    venue.bookAt generation marketId
      (venue.firstSequence generation (venue.stream generation marketId) + last) =
      venue.bookAfter generation (venue.stream generation marketId) marketId (last + 1) := by
  unfold bookAt
  congr 1
  omega

end Simulation

/-- **Order-book replica correctness.** Whatever the network does to the messages of a well-formed
venue, and however connections are opened and closed and recoveries begun in between, a book that
is valid has the levels of the venue's book as of its last applied sequence, and on a shared
stream as of the last sequence recorded for its stream. -/
theorem replica_correct {venue : Venue} (hv : venue.WellFormed) (scope : SequenceScope)
    {inputs : List ReplicaInput}
    (hinputs : ∀ event, ReplicaInput.deliver event ∈ inputs → venue.Emits event)
    {marketId : MarketId} {book : OrderBook}
    (hbook : (run stepReplica { scope } inputs).findBook marketId = some book)
    (hvalid : book.state = .valid) :
    ∃ generation sequence,
      (run stepReplica { scope } inputs).connectionGeneration = some generation ∧
      book.streamId = some (venue.stream generation marketId) ∧
      book.lastSequence = some sequence ∧
      Replicates book (venue.bookAt generation marketId sequence) ∧
      (scope = .sharedStream → ∃ recorded,
        (run stepReplica { scope } inputs).streamSequences[venue.stream generation marketId]? =
          some recorded ∧
        Replicates book (venue.bookAt generation marketId recorded)) := by
  have hsync : Synchronized venue (run stepReplica { scope } inputs) ∧
      (run stepReplica { scope } inputs).scope = scope := by
    refine run_invariant (P := fun state => Synchronized venue state ∧ state.scope = scope)
      (fun state input hmem h => ⟨synchronized_step hv h.1 ?_, ?_⟩) ⟨?_, rfl⟩
    · rintro event rfl
      exact hinputs event hmem
    · exact (stepReplica_scope state input).trans h.2
    · intro marketId book hbook
      simp [MarketState.findBook] at hbook
  obtain ⟨generation, last, ht⟩ := hsync.1 marketId book hbook hvalid
  have hmirrors := ht.mirrors.replicates
  refine ⟨generation, _, ht.generation_eq, ht.stream_eq, ht.sequence_eq, ?_, fun hshared => ?_⟩
  · rwa [venue.bookAt_eq]
  · obtain ⟨recorded, -, hrecorded, hunchanged⟩ := ht.recorded (hsync.2.trans hshared)
    refine ⟨_, hrecorded, ?_⟩
    rwa [venue.bookAt_eq, hunchanged]

/-! ### A small history -/

/-- One market with one bid level, reported once and then raised. -/
def sampleVenue : Venue where
  stream _ _ := 1
  firstSequence _ _ := 10
  initial _ _ side price := if side = .bid ∧ price.raw = 4000 then 100 else 0
  messages generation stream :=
    if generation = 1 ∧ stream = 1 then
      [.snapshot 7 [⟨.capped 4000, .capped 100⟩] [],
       .delta 7 .bid (.capped 4000) ⟨50⟩]
    else []

theorem sampleVenue_wellFormed : sampleVenue.WellFormed where
  stream_eq generation stream i message h := by
    simp only [sampleVenue] at h ⊢
    split_ifs at h with hstream
    · exact hstream.2.symm
    · simp at h
  reports generation stream i marketId bids asks h := by
    simp only [sampleVenue] at h
    split_ifs at h with hstream
    · obtain ⟨rfl, rfl⟩ := hstream
      rcases i with _ | _ | i
      · simp only [List.getElem?_cons_zero, Option.some.injEq, VenueMessage.snapshot.injEq] at h
        obtain ⟨rfl, rfl, rfl⟩ := h
        refine ⟨⟨by simp [Venue.bookAfter, sampleVenue], fun price hne => ?_⟩,
          ⟨by simp, fun price hne => ?_⟩⟩
        · simp only [Venue.bookAfter, sampleVenue, List.take_zero, List.foldl_nil, true_and] at hne
          refine ⟨_, List.mem_singleton_self _, ?_⟩
          cases price
          simp_all [Price.capped, Price.scale]
        · simp [Venue.bookAfter, sampleVenue] at hne
      · simp at h
      · simp at h
    · simp at h
  nonneg generation stream marketId count side price := by
    have hinitial : 0 ≤ sampleVenue.initial generation marketId side price := by
      simp only [sampleVenue]
      split_ifs <;> decide
    have hchange (book : VenueBook) (hbook : 0 ≤ book side price) (message : VenueMessage)
        (hmessage : message ∈ sampleVenue.messages generation stream) :
        0 ≤ message.applyTo marketId book side price := by
      simp only [sampleVenue] at hmessage
      split_ifs at hmessage
      · simp only [List.mem_cons, List.not_mem_nil, or_false] at hmessage
        rcases hmessage with rfl | rfl
        · exact hbook
        · simp only [VenueMessage.applyTo]
          split_ifs <;> omega
      · simp at hmessage
    unfold Venue.bookAfter
    exact run_invariant (P := fun book : VenueBook => 0 ≤ book side price)
      (fun book message hmem hbook => hchange book hbook message (List.mem_of_mem_take hmem))
      hinitial

/-- The snapshot and then the delta. -/
def sampleInputs : List ReplicaInput :=
  let snapshot : BookSnapshot :=
    { marketId := 7, connectionGeneration := 1, streamId := 1, sequence := 10, receivedAt := 0
      bids := [⟨.capped 4000, .capped 100⟩], asks := [] }
  let delta : BookDelta :=
    { marketId := 7, connectionGeneration := 1, streamId := 1, sequence := 11, receivedAt := 0
      side := .bid, price := .capped 4000, quantityDelta := ⟨50⟩ }
  [.openConnection 1, .deliver (.snapshot snapshot), .deliver (.delta delta)]

/-- After the delta the replica is valid and has the raised level. -/
theorem replica_correct_sample :
    ∃ book, (run stepReplica { scope := .sharedStream } sampleInputs).findBook 7 = some book ∧
      Replicates book (sampleVenue.bookAt 1 7 11) := by
  have hstate : ((run stepReplica { scope := .sharedStream } sampleInputs).findBook 7).map
      (fun book => (book.state, book.lastSequence)) = some (.valid, some 11) := by decide
  have hemits (event : NormalizedMarketEvent) (hmem : ReplicaInput.deliver event ∈ sampleInputs) :
      sampleVenue.Emits event := by
    simp only [sampleInputs, List.mem_cons, ReplicaInput.deliver.injEq, List.not_mem_nil,
      or_false, reduceCtorEq, false_or] at hmem
    rcases hmem with rfl | rfl
    · exact ⟨0, rfl, rfl⟩
    · exact ⟨1, rfl, rfl⟩
  have hopen : (run stepReplica { scope := .sharedStream } sampleInputs).connectionGeneration =
      some 1 := by decide
  obtain ⟨book, hbook, hfields⟩ := Option.map_eq_some_iff.mp hstate
  obtain ⟨hvalid, hlast⟩ := Prod.mk.inj hfields
  obtain ⟨generation, sequence, hgeneration, -, hsequence, hreplicates, -⟩ :=
    replica_correct sampleVenue_wellFormed .sharedStream hemits hbook hvalid
  obtain rfl : generation = 1 := Option.some.inj (hgeneration.symm.trans hopen)
  obtain rfl : sequence = 11 := Option.some.inj (hsequence.symm.trans hlast)
  exact ⟨book, hbook, hreplicates⟩

end EventMarket.Market
