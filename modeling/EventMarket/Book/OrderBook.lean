import EventMarket.Core.FixedPoint
import Std.Data.TreeMap.Lemmas

/-!
# One order book

The replica of the book of one market on one venue stream. A snapshot replaces both sides, a
delta changes one level, and anything out of sequence marks the book stale until a recovery has
begun and a new snapshot arrives. Invalid books expose no liquidity.

## Main definitions

* `OrderBook`, `BookState`, `BookUpdateResult`.
* `OrderBook.applySnapshot`, `OrderBook.applyDeltaAfter`, `OrderBook.applyDelta`.
* `OrderBook.visibleLevels`: the levels from best to worst.

## Main results

* `OrderBook.applySnapshot_cases`, `OrderBook.applyDeltaAfter_cases`: everything an update can do.
-/

namespace EventMarket.Book

open Core

/-- Prices are ordered by their raw value. -/
instance : Ord Price := ⟨compareOn Price.raw⟩

instance : Std.TransOrd Price := inferInstanceAs (Std.TransCmp (compareOn Price.raw))

instance : Std.LawfulEqOrd Price where
  eq_of_compare {a b} h := by
    have : a.raw = b.raw := Std.LawfulEqOrd.eq_of_compare (α := ℕ) h
    cases a
    cases b
    simpa using this

/-- A side of the book. -/
inductive Side where
  | bid
  | ask
  deriving DecidableEq, Repr

inductive BookState where
  | empty
  | valid
  | stale
  | recovering
  deriving DecidableEq, Repr

inductive BookUpdateResult where
  | applied
  | requiresSnapshot
  | streamMismatch
  | sequenceGap
  | invalidLevel
  | recoveryNotStarted
  | staleSnapshot
  deriving DecidableEq, Repr

/-- A price with the quantity displayed there. -/
structure Level where
  price : Price
  quantity : Quantity
  deriving DecidableEq, Repr

/-- The levels of a side by price. -/
abbrev Levels : Type := Std.TreeMap Price Quantity compare

structure OrderBook where
  state : BookState := .empty
  streamId : Option ℕ := none
  lastSequence : Option ℕ := none
  bids : Levels := {}
  asks : Levels := {}

namespace OrderBook

/-! ### Updates -/

/-- Fill a side from the levels of a snapshot; empty and repeated levels are refused. -/
def loadLevels : List Level → Levels → Option Levels
  | [], levels => some levels
  | level :: source, levels =>
    if level.quantity.raw = 0 then none
    else if level.price ∈ levels then none
    else loadLevels source (levels.insert level.price level.quantity)

def markStale (book : OrderBook) : OrderBook := { book with state := .stale }

/-- Whether recovery of a stale book could begin. -/
def beginRecovery (book : OrderBook) : OrderBook × Bool :=
  if book.state ≠ .stale then (book, false) else ({ book with state := .recovering }, true)

/-- What stands against a snapshot before its levels are read: a stale book, a valid book on
another stream, or a valid book that is not older. -/
def snapshotObstacle (book : OrderBook) (streamId sequence : ℕ) :
    Option (OrderBook × BookUpdateResult) :=
  if book.state = .stale then some (book, .recoveryNotStarted)
  else match book.state, book.streamId, book.lastSequence with
  | .valid, some stream, some last =>
    if streamId ≠ stream then some (book.markStale, .streamMismatch)
    else if sequence ≤ last then some (book, .staleSnapshot)
    else none
  | _, _, _ => none

def applySnapshot (book : OrderBook) (streamId sequence : ℕ) (bids asks : List Level) :
    OrderBook × BookUpdateResult :=
  match book.snapshotObstacle streamId sequence with
  | some refused => refused
  | none =>
    match loadLevels bids {}, loadLevels asks {} with
    | some nextBids, some nextAsks =>
      ({ state := .valid, streamId := some streamId, lastSequence := some sequence,
         bids := nextBids, asks := nextAsks }, .applied)
    | _, _ => (book.markStale, .invalidLevel)

def levelsFor (book : OrderBook) : Side → Levels
  | .bid => book.bids
  | .ask => book.asks

def setLevels (book : OrderBook) (side : Side) (levels : Levels) : OrderBook :=
  match side with
  | .bid => { book with bids := levels }
  | .ask => { book with asks := levels }

/-- The quantity stored at a price, `0` without a level. -/
def stored (levels : Levels) (price : Price) : ℕ :=
  match levels[price]? with
  | some quantity => quantity.raw
  | none => 0

/-- One level after a signed change; a level that becomes empty is erased. -/
def changeLevel (levels : Levels) (price : Price) (change : ℤ) : Option Levels :=
  if h : (0 < change ∧ (int64Max : ℤ) - change < stored levels price) ∨ change = int64Min ∨
      (change < 0 ∧ (stored levels price : ℤ) < -change) then none
  else
    let updated : Quantity := ⟨((stored levels price : ℤ) + change).toNat, by
      have hle : stored levels price ≤ int64Max := by
        unfold stored
        cases levels[price]? with
        | none => exact Nat.zero_le _
        | some quantity => exact quantity.le_max
      omega⟩
    some (if updated.raw = 0 then levels.erase price else levels.insert price updated)

/-- A delta after a predecessor that the caller has verified. -/
def applyDeltaAfter (book : OrderBook) (streamId predecessor sequence : ℕ) (side : Side)
    (price : Price) (quantityDelta : QuantityDelta) : OrderBook × BookUpdateResult :=
  match book.state, book.streamId, book.lastSequence with
  | .valid, some stream, some last =>
    if streamId ≠ stream then (book.markStale, .streamMismatch)
    else if predecessor < last ∨ sequence ≤ predecessor ∨ sequence - predecessor ≠ 1 then
      (book.markStale, .sequenceGap)
    else
      match changeLevel (book.levelsFor side) price quantityDelta.raw with
      | none => (book.markStale, .invalidLevel)
      | some levels =>
        ({ book.setLevels side levels with lastSequence := some sequence }, .applied)
  | _, _, _ => (book, .requiresSnapshot)

def applyDelta (book : OrderBook) (streamId sequence : ℕ) (side : Side) (price : Price)
    (quantityDelta : QuantityDelta) : OrderBook × BookUpdateResult :=
  book.applyDeltaAfter streamId (book.lastSequence.getD 0) sequence side price quantityDelta

/-! ### Queries -/

def quantityAt (book : OrderBook) (side : Side) (price : Price) : ℕ :=
  if book.state ≠ .valid then 0 else stored (book.levelsFor side) price

/-- The levels of a side from best to worst; an invalid book shows none. -/
def visibleLevels (book : OrderBook) (side : Side) : List Level :=
  if book.state ≠ .valid then []
  else match side with
  | .bid => (book.bids.toList.map fun (price, quantity) => ⟨price, quantity⟩).reverse
  | .ask => book.asks.toList.map fun (price, quantity) => ⟨price, quantity⟩

def bestBid (book : OrderBook) : Option Price := (book.visibleLevels .bid).head?.map Level.price

def bestAsk (book : OrderBook) : Option Price := (book.visibleLevels .ask).head?.map Level.price

def levelCount (book : OrderBook) (side : Side) : ℕ := (book.levelsFor side).size

/-! ### What an update can do -/

@[simp] theorem markStale_state (book : OrderBook) : book.markStale.state = .stale := rfl

theorem beginRecovery_state_ne_valid {book : OrderBook} (h : book.state ≠ .valid) :
    book.beginRecovery.1.state ≠ .valid := by
  unfold beginRecovery
  split_ifs <;> simp_all

/-- **Snapshots.** A snapshot is applied, or the book is left as it was, or it is marked stale. -/
theorem applySnapshot_cases (book : OrderBook) (streamId sequence : ℕ) (bids asks : List Level) :
    (∃ nextBids nextAsks, loadLevels bids {} = some nextBids ∧ loadLevels asks {} = some nextAsks ∧
      book.state ≠ .stale ∧
      (book.state = .valid → ∀ last ∈ book.lastSequence, book.streamId = some streamId →
        last < sequence) ∧
      book.applySnapshot streamId sequence bids asks =
        ({ state := .valid, streamId := some streamId, lastSequence := some sequence,
           bids := nextBids, asks := nextAsks }, .applied)) ∨
    (∃ result, result ≠ .applied ∧
      book.applySnapshot streamId sequence bids asks = (book, result)) ∨
    ∃ result, result ≠ .applied ∧
      book.applySnapshot streamId sequence bids asks = (book.markStale, result) := by
  unfold applySnapshot
  cases hobstacle : book.snapshotObstacle streamId sequence with
  | some refused =>
    right
    unfold snapshotObstacle at hobstacle
    split_ifs at hobstacle
    · exact Or.inl ⟨_, by simp, (Option.some.inj hobstacle).symm⟩
    · split at hobstacle
      · split_ifs at hobstacle
        · exact Or.inr ⟨_, by simp, (Option.some.inj hobstacle).symm⟩
        · exact Or.inl ⟨_, by simp, (Option.some.inj hobstacle).symm⟩
      · exact absurd hobstacle (by simp)
  | none =>
    cases hbids : loadLevels bids {} with
    | none => exact Or.inr (Or.inr ⟨_, by simp, rfl⟩)
    | some nextBids =>
      cases hasks : loadLevels asks {} with
      | none => exact Or.inr (Or.inr ⟨_, by simp, rfl⟩)
      | some nextAsks =>
        refine Or.inl ⟨nextBids, nextAsks, rfl, rfl, fun hstale => ?_, ?_, rfl⟩
        · simp [snapshotObstacle, hstale] at hobstacle
        · intro hvalid last hlast hstream
          rw [Option.mem_def] at hlast
          simpa [snapshotObstacle, hvalid, hlast, hstream] using hobstacle

/-- **Deltas.** A delta is applied to a valid book in sequence, or the book is left as it was and
is not valid, or it is marked stale. -/
theorem applyDeltaAfter_cases (book : OrderBook) (streamId predecessor sequence : ℕ) (side : Side)
    (price : Price) (quantityDelta : QuantityDelta) :
    (∃ last levels, book.state = .valid ∧ book.streamId = some streamId ∧
      book.lastSequence = some last ∧ last ≤ predecessor ∧ sequence = predecessor + 1 ∧
      changeLevel (book.levelsFor side) price quantityDelta.raw = some levels ∧
      book.applyDeltaAfter streamId predecessor sequence side price quantityDelta =
        ({ book.setLevels side levels with lastSequence := some sequence }, .applied)) ∨
    (book.applyDeltaAfter streamId predecessor sequence side price quantityDelta =
      (book, .requiresSnapshot)) ∨
    ∃ result, result ≠ .applied ∧
      book.applyDeltaAfter streamId predecessor sequence side price quantityDelta =
        (book.markStale, result) := by
  unfold applyDeltaAfter
  split
  case h_2 => exact Or.inr (Or.inl rfl)
  case h_1 stream last hstate hstream hlast =>
    split_ifs with hmismatch hgap
    · exact Or.inr (Or.inr ⟨_, by simp, rfl⟩)
    · exact Or.inr (Or.inr ⟨_, by simp, rfl⟩)
    · cases hlevels : changeLevel (book.levelsFor side) price quantityDelta.raw with
      | none => exact Or.inr (Or.inr ⟨_, by simp, rfl⟩)
      | some levels =>
        refine Or.inl ⟨last, levels, hstate, ?_, hlast, by omega, by omega, rfl, rfl⟩
        rw [hstream, not_not.mp hmismatch]

/-! ### What the levels store -/

/-- The side of a book as a function of the price. -/
@[simp] theorem stored_empty (price : Price) : stored {} price = 0 := by
  simp [stored]

theorem stored_insert (levels : Levels) (price other : Price) (quantity : Quantity) :
    stored (levels.insert price quantity) other =
      if other = price then quantity.raw else stored levels other := by
  unfold stored
  rw [Std.TreeMap.getElem?_insert]
  by_cases h : other = price
  · subst h
    simp
  · rw [if_neg fun heq => h (Std.LawfulEqCmp.eq_of_compare heq).symm, if_neg h]

theorem stored_erase (levels : Levels) (price other : Price) :
    stored (levels.erase price) other = if other = price then 0 else stored levels other := by
  unfold stored
  rw [Std.TreeMap.getElem?_erase]
  by_cases h : other = price
  · subst h
    simp
  · rw [if_neg fun heq => h (Std.LawfulEqCmp.eq_of_compare heq).symm, if_neg h]

/-- **A changed level.** The change is added at its price, where it does not fall below zero, and
nothing else moves. -/
theorem stored_changeLevel {levels changed : Levels} {price : Price} {change : ℤ}
    (h : changeLevel levels price change = some changed) :
    0 ≤ (stored levels price : ℤ) + change ∧ ∀ other, (stored changed other : ℤ) =
      if other = price then stored levels price + change else stored levels other := by
  unfold changeLevel at h
  split_ifs at h with hrefused
  obtain rfl := Option.some.inj h
  refine ⟨by omega, fun other => ?_⟩
  dsimp only
  split_ifs with hempty hother hother
  · rw [stored_erase, if_pos hother]
    omega
  · rw [stored_erase, if_neg hother]
  · rw [stored_insert, if_pos hother]
    dsimp only
    omega
  · rw [stored_insert, if_neg hother]

/-- **Loaded levels.** A side loaded from a snapshot stores exactly the listed quantities. -/
theorem stored_loadLevels {source : List Level} {levels loaded : Levels}
    (h : loadLevels source levels = some loaded) (price : Price) :
    (∃ level ∈ source, level.price = price ∧ stored loaded price = level.quantity.raw) ∨
      (∀ level ∈ source, level.price ≠ price) ∧ stored loaded price = stored levels price := by
  induction source generalizing levels with
  | nil =>
    obtain rfl := Option.some.inj h
    simp
  | cons level source ih =>
    unfold loadLevels at h
    split_ifs at h with hzero hmem
    rcases ih h with ⟨other, hother, hprice, hstored⟩ | ⟨hnone, hstored⟩
    · exact Or.inl ⟨other, List.mem_cons_of_mem _ hother, hprice, hstored⟩
    · rw [stored_insert] at hstored
      by_cases heq : price = level.price
      · rw [if_pos heq] at hstored
        exact Or.inl ⟨level, List.mem_cons_self, heq.symm, hstored⟩
      · rw [if_neg heq] at hstored
        refine Or.inr ⟨fun other hother => ?_, hstored⟩
        rcases List.mem_cons.mp hother with rfl | hother
        · exact fun h => heq h.symm
        · exact hnone other hother

/-- No level is empty. -/
def Positive (levels : Levels) : Prop :=
  ∀ (price : Price) (quantity : Quantity), levels[price]? = some quantity → 0 < quantity.raw

theorem positive_empty : Positive {} := by simp [Positive]

theorem Positive.insert {levels : Levels} (h : Positive levels) (price : Price)
    {quantity : Quantity} (hpos : 0 < quantity.raw) : Positive (levels.insert price quantity) := by
  intro other stored hstored
  rw [Std.TreeMap.getElem?_insert] at hstored
  split_ifs at hstored
  · obtain rfl := Option.some.inj hstored
    exact hpos
  · exact h other stored hstored

theorem Positive.erase {levels : Levels} (h : Positive levels) (price : Price) :
    Positive (levels.erase price) := by
  intro other stored hstored
  rw [Std.TreeMap.getElem?_erase] at hstored
  split_ifs at hstored
  exact h other stored hstored

theorem positive_loadLevels {source : List Level} {levels loaded : Levels}
    (h : loadLevels source levels = some loaded) (hpos : Positive levels) : Positive loaded := by
  induction source generalizing levels with
  | nil =>
    obtain rfl := Option.some.inj h
    exact hpos
  | cons level source ih =>
    unfold loadLevels at h
    split_ifs at h with hzero hmem
    exact ih h (hpos.insert level.price (Nat.pos_of_ne_zero hzero))

theorem positive_changeLevel {levels changed : Levels} {price : Price} {change : ℤ}
    (h : changeLevel levels price change = some changed) (hpos : Positive levels) :
    Positive changed := by
  unfold changeLevel at h
  split_ifs at h
  obtain rfl := Option.some.inj h
  dsimp only
  split_ifs with hempty
  · exact hpos.erase price
  · exact hpos.insert price (Nat.pos_of_ne_zero hempty)

/-- On positive levels the stored quantity says whether there is a level. -/
theorem Positive.getElem?_eq_some_iff {levels : Levels} (h : Positive levels) {price : Price}
    {quantity : Quantity} :
    levels[price]? = some quantity ↔ quantity.raw = stored levels price ∧ 0 < quantity.raw := by
  unfold stored
  constructor
  · intro hsome
    rw [hsome]
    exact ⟨rfl, h price quantity hsome⟩
  · rintro ⟨heq, hpos⟩
    cases hlevel : levels[price]? with
    | none => simp [hlevel] at heq; omega
    | some other =>
      rw [hlevel] at heq
      cases quantity
      cases other
      simpa using heq.symm

@[simp] theorem levelsFor_setLevels (book : OrderBook) (side other : Side) (levels : Levels) :
    (book.setLevels side levels).levelsFor other =
      if other = side then levels else book.levelsFor other := by
  cases side <;> cases other <;> rfl

@[simp] theorem setLevels_state (book : OrderBook) (side : Side) (levels : Levels) :
    (book.setLevels side levels).state = book.state := by
  cases side <;> rfl

@[simp] theorem setLevels_streamId (book : OrderBook) (side : Side) (levels : Levels) :
    (book.setLevels side levels).streamId = book.streamId := by
  cases side <;> rfl

end OrderBook

end EventMarket.Book
