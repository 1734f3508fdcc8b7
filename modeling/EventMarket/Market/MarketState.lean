import EventMarket.Book.OrderBook

/-!
# The books of one connection

All replicas of a session with the venue. Updates are accepted only on the current generation of
the connection; closing it, or opening the next one, marks every book stale. Sequences are kept
for each book, or for a stream shared by several books: then any update that is not applied closes
the connection.

## Main definitions

* `BookSnapshot`, `BookDelta`, `NormalizedMarketEvent`: the updates.
* `MarketState`: the books with the connection and the stream sequences.
* `MarketState.openConnection`, `closeConnection`, `beginRecovery`, `apply`.

## Main results

* `MarketState.mem_invalidateAll`: invalidated books are not valid.
* `MarketState.applySnapshot_cases`, `MarketState.applyDelta_cases`: everything an update can do.
-/

namespace EventMarket.Market

open Core Book

/-- Identifiers are unsigned numbers. -/
abbrev MarketId : Type := ℕ

structure BookSnapshot where
  marketId : MarketId
  connectionGeneration : ℕ
  streamId : ℕ
  sequence : ℕ
  receivedAt : ℤ
  bids : List Level
  asks : List Level
  deriving DecidableEq, Repr

structure BookDelta where
  marketId : MarketId
  connectionGeneration : ℕ
  streamId : ℕ
  sequence : ℕ
  receivedAt : ℤ
  side : Side
  price : Price
  quantityDelta : QuantityDelta
  deriving DecidableEq, Repr

inductive NormalizedMarketEvent where
  | snapshot (snapshot : BookSnapshot)
  | delta (delta : BookDelta)
  deriving DecidableEq, Repr

/-- Whether sequences count the updates of one book or of a shared stream. -/
inductive SequenceScope where
  | perBook
  | sharedStream
  deriving DecidableEq, Repr

/-- The result of an update: that of the book, or a refused generation. -/
inductive MarketApplyResult where
  | book (result : BookUpdateResult)
  | connectionMismatch
  deriving DecidableEq, Repr

structure MarketState where
  scope : SequenceScope := .perBook
  connectionGeneration : Option ℕ := none
  connected : Bool := false
  books : Std.TreeMap MarketId OrderBook := {}
  streamSequences : Std.TreeMap ℕ ℕ := {}

namespace MarketState

/-! ### The connection -/

def invalidateAll (state : MarketState) : MarketState :=
  { state with books := state.books.map fun _ book => book.markStale }

/-- Open a generation higher than any before; whether it could be opened. -/
def openConnection (state : MarketState) (generation : ℕ) : MarketState × Bool :=
  if generation = 0 ∨ (∃ last ∈ state.connectionGeneration, generation ≤ last) then (state, false)
  else
    let state := if state.connectionGeneration.isSome then state.invalidateAll else state
    ({ state with
      connectionGeneration := some generation
      streamSequences := {}
      connected := true }, true)

/-- Close the current generation; whether it was open. -/
def closeConnection (state : MarketState) (generation : ℕ) : MarketState × Bool :=
  if !state.connected ∨ state.connectionGeneration ≠ some generation then (state, false)
  else ({ state with connected := false }.invalidateAll, true)

def beginRecovery (state : MarketState) (marketId : MarketId) : MarketState × Bool :=
  if !state.connected then (state, false)
  else
    match state.books[marketId]? with
    | none => (state, false)
    | some book =>
      let (book, begun) := book.beginRecovery
      ({ state with books := state.books.insert marketId book }, begun)

/-! ### Updates -/

def accepts (state : MarketState) (generation : ℕ) : Bool :=
  state.connected && state.connectionGeneration == some generation

/-- A new stream may start anywhere; a known one goes on at the next sequence. -/
def acceptsSequence (state : MarketState) (stream sequence : ℕ) : Bool :=
  match state.streamSequences[stream]? with
  | none => true
  | some previous => previous < sequence && sequence - previous == 1

/-- On a shared stream an applied update is recorded, and any other result closes the
connection. -/
def finishShared (state : MarketState) (stream sequence : ℕ) (result : BookUpdateResult) :
    MarketState × MarketApplyResult :=
  if result = .applied then
    ({ state with streamSequences := state.streamSequences.insert stream sequence }, .book result)
  else
    ((state.closeConnection (state.connectionGeneration.getD 0)).1, .book result)

/-- The result of an update in the scope of the state. -/
def finish (state : MarketState) (stream sequence : ℕ) (result : BookUpdateResult) :
    MarketState × MarketApplyResult :=
  if state.scope = .sharedStream then state.finishShared stream sequence result
  else (state, .book result)

def applySnapshot (state : MarketState) (snapshot : BookSnapshot) :
    MarketState × MarketApplyResult :=
  if !state.accepts snapshot.connectionGeneration then (state, .connectionMismatch)
  else if state.scope = .sharedStream ∧
      !state.acceptsSequence snapshot.streamId snapshot.sequence then
    state.finishShared snapshot.streamId snapshot.sequence .sequenceGap
  else
    let book := state.books[snapshot.marketId]?.getD {}
    let (book, result) :=
      book.applySnapshot snapshot.streamId snapshot.sequence snapshot.bids snapshot.asks
    finish { state with books := state.books.insert snapshot.marketId book }
      snapshot.streamId snapshot.sequence result

def applyDelta (state : MarketState) (delta : BookDelta) : MarketState × MarketApplyResult :=
  if !state.accepts delta.connectionGeneration then (state, .connectionMismatch)
  else
    match state.books[delta.marketId]? with
    | none => state.finish delta.streamId delta.sequence .requiresSnapshot
    | some book =>
      if state.scope = .sharedStream then
        match state.streamSequences[delta.streamId]? with
        | none => state.finishShared delta.streamId delta.sequence .sequenceGap
        | some previous =>
          if !state.acceptsSequence delta.streamId delta.sequence then
            state.finishShared delta.streamId delta.sequence .sequenceGap
          else
            let (book, result) := book.applyDeltaAfter delta.streamId previous delta.sequence
              delta.side delta.price delta.quantityDelta
            finishShared { state with books := state.books.insert delta.marketId book }
              delta.streamId delta.sequence result
      else
        let (book, result) :=
          book.applyDelta delta.streamId delta.sequence delta.side delta.price delta.quantityDelta
        ({ state with books := state.books.insert delta.marketId book }, .book result)

def apply (state : MarketState) : NormalizedMarketEvent → MarketState × MarketApplyResult
  | .snapshot snapshot => state.applySnapshot snapshot
  | .delta delta => state.applyDelta delta

/-! ### Queries -/

def findBook (state : MarketState) (marketId : MarketId) : Option OrderBook :=
  state.books[marketId]?

def validBookCount (state : MarketState) : ℕ :=
  state.books.foldl (fun count _ book => if book.state = .valid then count + 1 else count) 0

/-! ### What the operations do -/

variable {state : MarketState} {marketId : MarketId} {book : OrderBook}

theorem findBook_invalidateAll :
    state.invalidateAll.findBook marketId = (state.findBook marketId).map OrderBook.markStale := by
  simp only [findBook, invalidateAll, Std.TreeMap.getElem?_map]

/-- **Invalidated books are not valid.** -/
theorem state_ne_valid_of_invalidateAll (state : MarketState)
    (h : state.invalidateAll.findBook marketId = some book) :
    book.state ≠ .valid := by
  rw [findBook_invalidateAll, Option.map_eq_some_iff] at h
  obtain ⟨other, -, rfl⟩ := h
  simp

/-- **Nothing is gained.** The connection and its sequences are as before or closed, and every
book that is still valid is as before. -/
structure Degrades (state next : MarketState) : Prop where
  scope_eq : next.scope = state.scope
  generation_eq : next.connectionGeneration = state.connectionGeneration
  sequences_eq : next.streamSequences = state.streamSequences
  valid : ∀ marketId book, next.findBook marketId = some book → book.state = .valid →
    state.findBook marketId = some book
  closed : next.connected = state.connected ∨ next.connected = false ∧
    ∀ marketId book, next.findBook marketId = some book → book.state ≠ .valid

theorem Degrades.refl (state : MarketState) : state.Degrades state :=
  ⟨rfl, rfl, rfl, fun _ _ h _ => h, Or.inl rfl⟩

theorem Degrades.trans {next last : MarketState} (h : state.Degrades next)
    (h' : next.Degrades last) : state.Degrades last where
  scope_eq := h'.scope_eq.trans h.scope_eq
  generation_eq := h'.generation_eq.trans h.generation_eq
  sequences_eq := h'.sequences_eq.trans h.sequences_eq
  valid := fun m book hbook hvalid => h.valid m book (h'.valid m book hbook hvalid) hvalid
  closed := by
    rcases h'.closed with hsame | hclosed
    · rcases h.closed with hsame' | ⟨hfalse, hnone⟩
      · exact Or.inl (hsame.trans hsame')
      · exact Or.inr ⟨hsame.trans hfalse, fun m book hbook hvalid =>
          hnone m book (h'.valid m book hbook hvalid) hvalid⟩
    · exact Or.inr hclosed

/-- Replacing a book by one that is not valid, or by itself, gains nothing. -/
theorem degrades_insert (hbook : book.state = .valid → state.findBook marketId = some book) :
    state.Degrades { state with books := state.books.insert marketId book } where
  scope_eq := rfl
  generation_eq := rfl
  sequences_eq := rfl
  valid := by
    intro m other hother hvalid
    simp only [findBook, Std.TreeMap.getElem?_insert] at hother
    split_ifs at hother with heq
    · obtain rfl := Option.some.inj hother
      rw [Std.LawfulEqCmp.eq_of_compare heq] at hbook
      exact hbook hvalid
    · exact hother
  closed := Or.inl rfl

theorem findBook_insert (state : MarketState) (marketId other : MarketId) (book : OrderBook) :
    findBook { state with books := state.books.insert marketId book } other =
      if other = marketId then some book else state.findBook other := by
  simp only [findBook, Std.TreeMap.getElem?_insert]
  by_cases h : other = marketId
  · subst h
    simp
  · rw [if_neg fun heq => h (Std.LawfulEqCmp.eq_of_compare heq).symm, if_neg h]

/-- Closing the connection leaves no valid book and no connection. -/
theorem closeConnection_cases (state : MarketState) (generation : ℕ) :
    (state.closeConnection generation = (state, false) ∧
      (state.connected = false ∨ state.connectionGeneration ≠ some generation)) ∨
    state.closeConnection generation = ({ state with connected := false }.invalidateAll, true) ∧
      state.connected = true ∧ state.connectionGeneration = some generation := by
  unfold closeConnection
  split_ifs with h
  · refine Or.inl ⟨rfl, ?_⟩
    simpa using h
  · refine Or.inr ⟨rfl, ?_⟩
    simpa using h

theorem degrades_closed (state : MarketState) :
    state.Degrades ({ state with connected := false } : MarketState).invalidateAll where
  scope_eq := rfl
  generation_eq := rfl
  sequences_eq := rfl
  valid := fun _ _ hbook hvalid => absurd hvalid (state_ne_valid_of_invalidateAll _ hbook)
  closed := Or.inr ⟨rfl, fun _ _ hbook => state_ne_valid_of_invalidateAll _ hbook⟩

theorem degrades_closeConnection (state : MarketState) (generation : ℕ) :
    state.Degrades (state.closeConnection generation).1 := by
  rcases state.closeConnection_cases generation with ⟨h, -⟩ | ⟨h, -⟩
  · rw [h]
    exact .refl state
  · rw [h]
    exact state.degrades_closed

theorem degrades_beginRecovery (state : MarketState) (marketId : MarketId) :
    state.Degrades (state.beginRecovery marketId).1 := by
  unfold beginRecovery
  split_ifs
  · exact .refl state
  · cases hbook : state.books[marketId]? with
    | none => exact .refl state
    | some book =>
      refine degrades_insert fun hvalid => ?_
      unfold OrderBook.beginRecovery at hvalid ⊢
      split_ifs at hvalid ⊢
      exact hbook

/-- **Opening a connection.** It is refused and nothing changes, or it is for a higher generation,
no stream has a sequence yet, and no book that was known before is valid. -/
theorem openConnection_cases (state : MarketState) (generation : ℕ) :
    state.openConnection generation = (state, false) ∨
    ∃ next, state.openConnection generation = (next, true) ∧ next.scope = state.scope ∧
      next.connectionGeneration = some generation ∧ next.connected = true ∧
      next.streamSequences = {} ∧ 0 < generation ∧
      (∀ last, state.connectionGeneration = some last → last < generation) ∧
      ∀ marketId book, next.findBook marketId = some book → book.state = .valid →
        state.connectionGeneration = none ∧ state.findBook marketId = some book := by
  unfold openConnection
  split_ifs with hrefused hknown
  · exact Or.inl rfl
  all_goals
    refine Or.inr ⟨_, rfl, rfl, rfl, rfl, rfl, by omega, fun last hlast => ?_,
      fun m book hbook hvalid => ?_⟩
  · by_contra hle
    exact hrefused (Or.inr ⟨last, hlast, by omega⟩)
  · exact absurd hvalid (state.state_ne_valid_of_invalidateAll hbook)
  · by_contra hle
    exact hrefused (Or.inr ⟨last, hlast, by omega⟩)
  · exact ⟨by simpa using hknown, hbook⟩

/-! ### What an update does -/

theorem accepts_eq_true {generation : ℕ} (h : state.accepts generation = true) :
    state.connected = true ∧ state.connectionGeneration = some generation := by
  simpa [accepts] using h

theorem acceptsSequence_eq_true {stream sequence : ℕ}
    (h : state.acceptsSequence stream sequence = true) :
    ∀ previous, state.streamSequences[stream]? = some previous → sequence = previous + 1 := by
  intro previous hprevious
  simp only [acceptsSequence, hprevious, Bool.and_eq_true, decide_eq_true_eq, beq_iff_eq] at h
  omega

/-- A shared update that is not applied closes the connection. -/
theorem finishShared_of_ne {stream sequence : ℕ} {result : BookUpdateResult} {generation : ℕ}
    (hresult : result ≠ .applied) (hconnected : state.connected = true)
    (hgeneration : state.connectionGeneration = some generation) :
    state.finishShared stream sequence result =
      (({ state with connected := false } : MarketState).invalidateAll, .book result) := by
  simp [finishShared, hresult, hgeneration, closeConnection, hconnected]

/-- What a refused update leaves: nothing is gained, and on a shared stream an accepted generation
is closed. -/
structure Refused (state : MarketState) (generation : ℕ)
    (outcome : MarketState × MarketApplyResult) : Prop where
  degrades : state.Degrades outcome.1
  not_applied : outcome.2 ≠ .book .applied
  closes : state.accepts generation = true → state.scope = .sharedStream →
    outcome.1.connected = false

/-- An update that a book or the stream refused. -/
theorem refused_finish {next : MarketState} {stream sequence generation : ℕ}
    {result : BookUpdateResult} (hresult : result ≠ .applied) (hnext : state.Degrades next)
    (hsame : next.connected = state.connected) (haccepts : state.accepts generation = true) :
    state.Refused generation (next.finish stream sequence result) := by
  obtain ⟨hconnected, hgeneration⟩ := accepts_eq_true haccepts
  unfold finish
  split_ifs with hscope
  · rw [finishShared_of_ne hresult (hsame.trans hconnected)
      (hnext.generation_eq.trans hgeneration)]
    exact ⟨hnext.trans next.degrades_closed, by simpa using hresult, fun _ _ => rfl⟩
  · exact ⟨hnext, by simpa using hresult, fun _ hshared =>
      absurd (hnext.scope_eq.trans hshared) hscope⟩

/-- An applied update with its new book. -/
theorem finish_applied (state : MarketState) (stream sequence : ℕ) :
    state.finish stream sequence .applied = ({ state with
      streamSequences := if state.scope = .sharedStream then
          state.streamSequences.insert stream sequence
        else state.streamSequences }, .book .applied) := by
  unfold finish finishShared
  split_ifs <;> first | rfl | contradiction

theorem refused_finishShared {stream sequence generation : ℕ} {result : BookUpdateResult}
    (hscope : state.scope = .sharedStream) (hresult : result ≠ .applied)
    (haccepts : state.accepts generation = true) :
    state.Refused generation (state.finishShared stream sequence result) := by
  have h : state.Refused generation (state.finish stream sequence result) :=
    refused_finish hresult (.refl state) rfl haccepts
  rwa [finish, if_pos hscope] at h

/-- **Snapshots.** A snapshot replaces the book of its market and is recorded on a shared stream,
or it is refused. -/
theorem applySnapshot_cases (state : MarketState) (snapshot : BookSnapshot) :
    (∃ bids asks, OrderBook.loadLevels snapshot.bids {} = some bids ∧
      OrderBook.loadLevels snapshot.asks {} = some asks ∧
      state.accepts snapshot.connectionGeneration = true ∧
      (state.scope = .sharedStream →
        state.acceptsSequence snapshot.streamId snapshot.sequence = true) ∧
      (∀ book, state.findBook snapshot.marketId = some book → book.state ≠ .stale) ∧
      state.applySnapshot snapshot = ({ state with
        books := state.books.insert snapshot.marketId
          { state := .valid, streamId := some snapshot.streamId,
            lastSequence := some snapshot.sequence, bids, asks }
        streamSequences := if state.scope = .sharedStream then
            state.streamSequences.insert snapshot.streamId snapshot.sequence
          else state.streamSequences }, .book .applied)) ∨
    state.Refused snapshot.connectionGeneration (state.applySnapshot snapshot) := by
  unfold applySnapshot
  by_cases haccepts : state.accepts snapshot.connectionGeneration = true
  swap
  · simp only [Bool.not_eq_true] at haccepts
    simp only [haccepts, Bool.not_false, if_true]
    exact Or.inr ⟨.refl state, by simp, fun h => absurd (haccepts.symm.trans h) (by simp)⟩
  simp only [haccepts, Bool.not_true, Bool.false_eq_true, if_false]
  by_cases hgap : state.scope = .sharedStream ∧
      (!state.acceptsSequence snapshot.streamId snapshot.sequence) = true
  · rw [if_pos hgap]
    exact Or.inr (refused_finishShared hgap.1 (by simp) haccepts)
  rw [if_neg hgap]
  have hsequence (hscope : state.scope = .sharedStream) :
      state.acceptsSequence snapshot.streamId snapshot.sequence = true := by
    simpa [hscope] using hgap
  set book := state.books[snapshot.marketId]?.getD {} with hbook
  have hfind (other) (h : state.findBook snapshot.marketId = some other) : book = other := by
    rw [hbook, ← findBook.eq_def state, h, Option.getD_some]
  rcases book.applySnapshot_cases snapshot.streamId snapshot.sequence snapshot.bids snapshot.asks
    with ⟨bids, asks, hbids, hasks, hstale, -, happlied⟩ | ⟨result, hresult, hsame⟩ |
      ⟨result, hresult, hmarked⟩
  · refine Or.inl ⟨bids, asks, hbids, hasks, trivial, hsequence,
      fun other hother => hfind other hother ▸ hstale, ?_⟩
    rw [happlied, finish_applied]
  · rw [hsame]
    refine Or.inr (refused_finish hresult (degrades_insert fun hvalid => ?_) rfl haccepts)
    cases hknown : state.findBook snapshot.marketId with
    | none =>
      rw [hbook, ← findBook.eq_def state, hknown] at hvalid
      exact absurd hvalid (by simp)
    | some other => rw [hfind other hknown]
  · rw [hmarked]
    exact Or.inr (refused_finish hresult (degrades_insert fun hvalid => absurd hvalid (by simp))
      rfl haccepts)

/-- **Deltas.** A delta changes one level of a valid book in sequence and is recorded on a shared
stream, or it is refused. -/
theorem applyDelta_cases (state : MarketState) (delta : BookDelta) :
    (∃ book last predecessor levels, state.findBook delta.marketId = some book ∧
      book.state = .valid ∧ book.streamId = some delta.streamId ∧ book.lastSequence = some last ∧
      last ≤ predecessor ∧ delta.sequence = predecessor + 1 ∧
      (state.scope = .perBook → predecessor = last) ∧
      (state.scope = .sharedStream → state.streamSequences[delta.streamId]? = some predecessor) ∧
      OrderBook.changeLevel (book.levelsFor delta.side) delta.price delta.quantityDelta.raw =
        some levels ∧
      state.accepts delta.connectionGeneration = true ∧
      state.applyDelta delta = ({ state with
        books := state.books.insert delta.marketId
          { book.setLevels delta.side levels with lastSequence := some delta.sequence }
        streamSequences := if state.scope = .sharedStream then
            state.streamSequences.insert delta.streamId delta.sequence
          else state.streamSequences }, .book .applied)) ∨
    state.Refused delta.connectionGeneration (state.applyDelta delta) := by
  unfold applyDelta
  by_cases haccepts : state.accepts delta.connectionGeneration = true
  swap
  · simp only [Bool.not_eq_true] at haccepts
    simp only [haccepts, Bool.not_false, if_true]
    exact Or.inr ⟨.refl state, by simp, fun h => absurd (haccepts.symm.trans h) (by simp)⟩
  simp only [haccepts, Bool.not_true, Bool.false_eq_true, if_false]
  cases hbook : state.books[delta.marketId]? with
  | none => exact Or.inr (refused_finish (by simp) (.refl state) rfl haccepts)
  | some book =>
    -- A delta that the book refuses leaves it as it was or stale.
    have hrefused {outcome : OrderBook × BookUpdateResult}
        (h : outcome = (book, .requiresSnapshot) ∨
          ∃ result, result ≠ .applied ∧ outcome = (book.markStale, result)) :
        outcome.2 ≠ .applied ∧
          state.Degrades { state with books := state.books.insert delta.marketId outcome.1 } := by
      rcases h with rfl | ⟨result, hresult, rfl⟩
      · exact ⟨by simp, degrades_insert fun _ => hbook⟩
      · exact ⟨hresult, degrades_insert fun hvalid => absurd hvalid (by simp)⟩
    dsimp only
    by_cases hscope : state.scope = .sharedStream
    · rw [if_pos hscope]
      cases hprevious : state.streamSequences[delta.streamId]? with
      | none => exact Or.inr (refused_finishShared hscope (by simp) haccepts)
      | some previous =>
        dsimp only
        by_cases hgap : (!state.acceptsSequence delta.streamId delta.sequence) = true
        · rw [if_pos hgap]
          exact Or.inr (refused_finishShared hscope (by simp) haccepts)
        rw [if_neg hgap]
        have hfinish (books) (result) :
            finishShared { state with books } delta.streamId delta.sequence result =
              finish { state with books } delta.streamId delta.sequence result := by
          rw [finish, if_pos hscope]
        rw [hfinish]
        rcases book.applyDeltaAfter_cases delta.streamId previous delta.sequence delta.side
          delta.price delta.quantityDelta with
          ⟨last, levels, hvalid, hstream, hlast, hle, hsucc, hlevels, happlied⟩ | hrefusal
        · refine Or.inl ⟨book, last, previous, levels, hbook, hvalid, hstream, hlast, hle, hsucc,
            fun h => absurd (hscope.symm.trans h) (by simp), fun _ => rfl, hlevels, trivial, ?_⟩
          rw [happlied, finish_applied]
        · obtain ⟨hresult, hdegrades⟩ := hrefused hrefusal
          exact Or.inr (refused_finish hresult hdegrades rfl haccepts)
    · rw [if_neg hscope]
      have hfinish (books) (result) :
          (({ state with books } : MarketState), MarketApplyResult.book result) =
            finish { state with books } delta.streamId delta.sequence result := by
        rw [finish, if_neg hscope]
      dsimp only [OrderBook.applyDelta]
      rw [hfinish]
      rcases book.applyDeltaAfter_cases delta.streamId (book.lastSequence.getD 0) delta.sequence
        delta.side delta.price delta.quantityDelta with
        ⟨last, levels, hvalid, hstream, hlast, hle, hsucc, hlevels, happlied⟩ | hrefusal
      · refine Or.inl ⟨book, last, _, levels, hbook, hvalid, hstream, hlast, hle, hsucc,
          fun _ => by rw [hlast, Option.getD_some], fun h => absurd h hscope, hlevels, trivial, ?_⟩
        rw [happlied, finish_applied]
      · obtain ⟨hresult, hdegrades⟩ := hrefused hrefusal
        exact Or.inr (refused_finish hresult hdegrades rfl haccepts)

/-! ### Which books there are -/

theorem isSome_findBook_closeConnection (state : MarketState) (generation : ℕ)
    (marketId : MarketId) :
    ((state.closeConnection generation).1.findBook marketId).isSome =
      (state.findBook marketId).isSome := by
  rcases state.closeConnection_cases generation with ⟨h, -⟩ | ⟨h, -⟩
  · rw [h]
  · rw [h, findBook_invalidateAll, Option.isSome_map]
    rfl

theorem isSome_findBook_openConnection (state : MarketState) (generation : ℕ)
    (marketId : MarketId) :
    ((state.openConnection generation).1.findBook marketId).isSome =
      (state.findBook marketId).isSome := by
  unfold openConnection
  split_ifs
  · rfl
  · exact (congrArg Option.isSome findBook_invalidateAll).trans Option.isSome_map
  · rfl

theorem isSome_findBook_beginRecovery (state : MarketState) (other marketId : MarketId) :
    ((state.beginRecovery other).1.findBook marketId).isSome =
      (state.findBook marketId).isSome := by
  unfold beginRecovery
  split_ifs
  · rfl
  · cases hbook : state.books[other]? with
    | none => rfl
    | some book =>
      simp only
      rw [findBook_insert]
      split_ifs with heq
      · rw [heq, findBook, hbook]
        rfl
      · rfl

theorem isSome_findBook_finish (state : MarketState) (stream sequence : ℕ)
    (result : BookUpdateResult) (marketId : MarketId) :
    ((state.finish stream sequence result).1.findBook marketId).isSome =
      (state.findBook marketId).isSome := by
  unfold finish finishShared
  split_ifs
  · rfl
  · exact isSome_findBook_closeConnection _ _ _
  · rfl

theorem isSome_findBook_finishShared (state : MarketState) (stream sequence : ℕ)
    (result : BookUpdateResult) (marketId : MarketId) :
    ((state.finishShared stream sequence result).1.findBook marketId).isSome =
      (state.findBook marketId).isSome := by
  unfold finishShared
  split_ifs
  · rfl
  · exact isSome_findBook_closeConnection _ _ _

theorem findBook_of_insert {other : MarketId}
    (h : (findBook { state with books := state.books.insert other book } marketId).isSome) :
    marketId = other ∨ (state.findBook marketId).isSome := by
  rw [findBook_insert] at h
  split_ifs at h with heq
  · exact Or.inl heq
  · exact Or.inr h

/-- A snapshot adds no book but that of its market. -/
theorem findBook_of_applySnapshot {snapshot : BookSnapshot}
    (h : ((state.applySnapshot snapshot).1.findBook marketId).isSome) :
    marketId = snapshot.marketId ∨ (state.findBook marketId).isSome := by
  unfold applySnapshot at h
  split_ifs at h
  · exact Or.inr h
  · rw [isSome_findBook_finishShared] at h
    exact Or.inr h
  · rw [isSome_findBook_finish] at h
    exact findBook_of_insert h

/-- A delta adds no book but that of its market. -/
theorem findBook_of_applyDelta {delta : BookDelta}
    (h : ((state.applyDelta delta).1.findBook marketId).isSome) :
    marketId = delta.marketId ∨ (state.findBook marketId).isSome := by
  unfold applyDelta at h
  split_ifs at h
  · exact Or.inr h
  · split at h
    · rw [isSome_findBook_finish] at h
      exact Or.inr h
    · split at h <;> rw [isSome_findBook_finishShared] at h <;> exact Or.inr h
  · split at h
    · rw [isSome_findBook_finish] at h
      exact Or.inr h
    · split at h <;> rw [isSome_findBook_finishShared] at h
      · exact Or.inr h
      · exact findBook_of_insert h
  · split at h
    · rw [isSome_findBook_finish] at h
      exact Or.inr h
    · exact findBook_of_insert h

/-! ### Counting valid books -/

/-- The markets of the valid books. -/
def validMarkets (state : MarketState) : List MarketId :=
  (state.books.toList.filter fun entry => entry.2.state = .valid).map Prod.fst

theorem validBookCount_eq (state : MarketState) :
    state.validBookCount = state.validMarkets.length := by
  have hfold (entries : List (MarketId × OrderBook)) (count : ℕ) :
      entries.foldl (fun count entry => if entry.2.state = .valid then count + 1 else count) count =
        count + (entries.filter fun entry => entry.2.state = .valid).length := by
    induction entries generalizing count with
    | nil => rfl
    | cons entry entries ih =>
      rw [List.foldl_cons, ih]
      by_cases hvalid : entry.2.state = .valid
      · simp [hvalid, Nat.add_assoc, Nat.add_comm 1]
      · simp [hvalid]
  rw [validBookCount, Std.TreeMap.foldl_eq_foldl_toList, hfold, validMarkets, List.length_map,
    Nat.zero_add]

theorem mem_validMarkets :
    marketId ∈ state.validMarkets ↔
      ∃ book, state.findBook marketId = some book ∧ book.state = .valid := by
  simp only [validMarkets, List.mem_map, List.mem_filter, decide_eq_true_eq, Prod.exists,
    exists_and_right, exists_eq_right, Std.TreeMap.mem_toList_iff_getElem?_eq_some, findBook]

theorem nodup_validMarkets (state : MarketState) : state.validMarkets.Nodup := by
  have hdistinct := Std.TreeMap.distinct_keys_toList (t := state.books)
  rw [validMarkets, List.Nodup, List.pairwise_map]
  exact (hdistinct.imp fun hne heq => hne (by simp [heq])).filter _

/-- When there are no valid books but those of a selection, and as many as it has markets, the
book of each of its markets is valid. -/
theorem forall_valid_of_count {selection : List MarketId}
    (hselected : ∀ marketId book, state.findBook marketId = some book → marketId ∈ selection)
    (hcount : state.validBookCount = selection.length) (hmem : marketId ∈ selection) :
    ∃ book, state.findBook marketId = some book ∧ book.state = .valid := by
  rw [← mem_validMarkets]
  have hsubset : state.validMarkets ⊆ selection := fun m hm => by
    obtain ⟨book, hbook, -⟩ := mem_validMarkets.mp hm
    exact hselected m book hbook
  have hperm := ((nodup_validMarkets state).subperm hsubset).perm_of_length_le
    (by rw [← validBookCount_eq, hcount])
  exact hperm.mem_iff.mpr hmem

end MarketState

end EventMarket.Market
