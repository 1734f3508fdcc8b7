import EventMarket.Book.OrderBook

/-!
# The integrity of a book

Whatever operations a book goes through, its levels are never empty, a valid book knows its stream
and its last sequence number, and an update that is refused changes nothing but the state.

## Main definitions

* `BookOperation`, `OrderBook.perform`, `OrderBook.after`: the books that can be reached.
* `OrderBook.visitLevels`: show the levels of a side to a visitor.
* `OrderBook.Intact`: the invariant of a book.

## Main results

* `OrderBook.Intact.perform`: every operation keeps the invariant.
* `OrderBook.bestBid_eq_some_iff`, `OrderBook.bestAsk_eq_some_iff`: the best prices.
* `OrderBook.reached_integrity`: the integrity of all reached books.
-/

namespace EventMarket.Book

open EventMarket.Core

/-- What can be done to a book; a predecessor is given on a shared stream only. -/
inductive BookOperation where
  | applySnapshot (streamId sequence : ℕ) (bids asks : List Level)
  | applyDelta (streamId sequence : ℕ) (side : Side) (price : Price)
      (quantityDelta : QuantityDelta)
  | applyDeltaAfter (streamId predecessor sequence : ℕ) (side : Side) (price : Price)
      (quantityDelta : QuantityDelta)
  | markStale
  | beginRecovery

namespace OrderBook

/-- An operation, with its result when it is an update. -/
def perform (book : OrderBook) : BookOperation → OrderBook × Option BookUpdateResult
  | .applySnapshot streamId sequence bids asks =>
    (book.applySnapshot streamId sequence bids asks).map id some
  | .applyDelta streamId sequence side price quantityDelta =>
    (book.applyDelta streamId sequence side price quantityDelta).map id some
  | .applyDeltaAfter streamId predecessor sequence side price quantityDelta =>
    (book.applyDeltaAfter streamId predecessor sequence side price quantityDelta).map id some
  | .markStale => (book.markStale, none)
  | .beginRecovery => (book.beginRecovery.1, none)

/-- The book after some operations. -/
def after (operations : List BookOperation) : OrderBook :=
  operations.foldl (fun book operation => (book.perform operation).1) {}

/-! ### Visiting levels -/

/-- Show levels to a visitor until it stops the traversal. -/
def visit {σ : Type*} (visitor : σ → Level → σ × Bool) : List Level → σ → σ
  | [], state => state
  | level :: levels, state =>
    let shown := visitor state level
    if shown.2 then visit visitor levels shown.1 else shown.1

/-- Show the levels of a side to a visitor, from best to worst. -/
def visitLevels {σ : Type*} (book : OrderBook) (side : Side) (visitor : σ → Level → σ × Bool)
    (start : σ) : σ :=
  visit visitor (book.visibleLevels side) start

/-- A visitor sees the first levels, and all of them unless it stops. -/
theorem visit_eq_foldl {σ : Type*} (visitor : σ → Level → σ × Bool) (levels : List Level)
    (start : σ) : ∃ count,
      visit visitor levels start =
        (levels.take count).foldl (fun state level => (visitor state level).1) start ∧
      ((∀ state level, (visitor state level).2 = true) → count = levels.length) := by
  induction levels generalizing start with
  | nil => exact ⟨0, rfl, fun _ => rfl⟩
  | cons level levels ih =>
    by_cases hmore : (visitor start level).2 = true
    · obtain ⟨count, hvisit, hall⟩ := ih (visitor start level).1
      refine ⟨count + 1, ?_, fun h => congrArg (· + 1) (hall h)⟩
      rw [visit, if_pos hmore, hvisit, List.take_succ_cons, List.foldl_cons]
    · refine ⟨1, ?_, fun h => absurd (h start level) hmore⟩
      rw [visit, if_neg hmore, List.take_succ_cons, List.foldl_cons, List.take_zero, List.foldl_nil]

/-- The levels that a side stores, in ascending order. -/
def storedLevels (levels : Levels) : List Level :=
  levels.toList.map fun (price, quantity) => ⟨price, quantity⟩

theorem storedLevels_ascending (levels : Levels) :
    (storedLevels levels).Pairwise fun first second => first.price.raw < second.price.raw := by
  have hkeys : levels.toList.Pairwise fun first second => compare first.1 second.1 = .lt :=
    Std.TreeMap.ordered_keys_toList
  rw [storedLevels, List.pairwise_map]
  exact hkeys.imp fun h => compare_lt_iff_lt.mp h

theorem mem_storedLevels {levels : Levels} {level : Level} :
    level ∈ storedLevels levels ↔ levels[level.price]? = some level.quantity := by
  rw [storedLevels, List.mem_map, ← Std.TreeMap.mem_toList_iff_getElem?_eq_some]
  constructor
  · rintro ⟨⟨price, quantity⟩, hmem, rfl⟩
    exact hmem
  · exact fun hmem => ⟨(level.price, level.quantity), hmem, rfl⟩

theorem visibleLevels_eq (book : OrderBook) (side : Side) :
    book.visibleLevels side =
      if book.state ≠ .valid then []
      else match side with
      | .bid => (storedLevels book.bids).reverse
      | .ask => storedLevels book.asks :=
  rfl

/-- A price is better than another one on a side. -/
def Side.better : Side → Price → Price → Prop
  | .bid, price, other => other.raw < price.raw
  | .ask, price, other => price.raw < other.raw

/-- The levels are shown from best to worst. -/
theorem visibleLevels_best_first (book : OrderBook) (side : Side) :
    (book.visibleLevels side).Pairwise fun first second =>
      Side.better side first.price second.price := by
  rw [visibleLevels_eq]
  split_ifs with hstate
  · exact List.Pairwise.nil
  · cases side with
    | bid => exact List.pairwise_reverse.mpr (storedLevels_ascending book.bids)
    | ask => exact storedLevels_ascending book.asks

/-- A valid book shows what it stores. -/
theorem mem_visibleLevels {book : OrderBook} (hstate : book.state = .valid) {side : Side}
    {level : Level} :
    level ∈ book.visibleLevels side ↔
      (book.levelsFor side)[level.price]? = some level.quantity := by
  rw [visibleLevels_eq, if_neg (not_not.mpr hstate)]
  cases side with
  | bid => exact List.mem_reverse.trans mem_storedLevels
  | ask => exact mem_storedLevels

/-- The first level of a side is the best one. -/
theorem head_visibleLevels {book : OrderBook} {side : Side} {price : Price} :
    (book.visibleLevels side).head?.map Level.price = some price ↔
      book.state = .valid ∧ price ∈ book.levelsFor side ∧
        ∀ other ∈ book.levelsFor side, other = price ∨ Side.better side price other := by
  by_cases hstate : book.state = .valid
  case neg =>
    have hnone : book.visibleLevels side = [] := by
      rw [visibleLevels_eq, if_pos hstate]
    simp [hnone, hstate]
  have hmem (other : Price) :
      other ∈ book.levelsFor side ↔ ∃ level ∈ book.visibleLevels side, level.price = other := by
    rw [Std.TreeMap.mem_iff_isSome_getElem?, Option.isSome_iff_exists]
    constructor
    · exact fun ⟨quantity, hquantity⟩ =>
        ⟨⟨other, quantity⟩, (mem_visibleLevels hstate).mpr hquantity, rfl⟩
    · rintro ⟨level, hlevel, rfl⟩
      exact ⟨level.quantity, (mem_visibleLevels hstate).mp hlevel⟩
  have hordered := book.visibleLevels_best_first side
  simp only [hmem, hstate, true_and]
  cases hlevels : book.visibleLevels side with
  | nil => simp
  | cons best rest =>
    rw [hlevels, List.pairwise_cons] at hordered
    simp only [List.head?_cons, Option.map_some, Option.some.injEq]
    constructor
    · rintro rfl
      refine ⟨⟨best, List.mem_cons_self, rfl⟩, ?_⟩
      rintro _ ⟨level, hlevel, rfl⟩
      rcases List.mem_cons.mp hlevel with rfl | hrest
      · exact Or.inl rfl
      · exact Or.inr (hordered.1 level hrest)
    · rintro ⟨⟨level, hlevel, rfl⟩, hbest⟩
      rcases List.mem_cons.mp hlevel with rfl | hrest
      · rfl
      · rcases hbest best.price ⟨best, List.mem_cons_self, rfl⟩ with heq | hworse
        · exact heq
        · have hbetter := hordered.1 level hrest
          cases side <;> simp only [Side.better] at hworse hbetter <;> omega

theorem price_eq_iff (price other : Price) : price = other ↔ price.raw = other.raw := by
  cases price
  cases other
  exact Price.mk.injEq .. ▸ Iff.rfl

theorem bestBid_eq_some_iff {book : OrderBook} {price : Price} :
    book.bestBid = some price ↔ book.state = .valid ∧ price ∈ book.bids ∧
      ∀ other ∈ book.bids, other.raw ≤ price.raw := by
  rw [bestBid, head_visibleLevels]
  refine and_congr_right fun _ => and_congr_right fun _ => forall₂_congr fun other _ => ?_
  rw [price_eq_iff, Side.better]
  omega

theorem bestAsk_eq_some_iff {book : OrderBook} {price : Price} :
    book.bestAsk = some price ↔ book.state = .valid ∧ price ∈ book.asks ∧
      ∀ other ∈ book.asks, price.raw ≤ other.raw := by
  rw [bestAsk, head_visibleLevels]
  refine and_congr_right fun _ => and_congr_right fun _ => forall₂_congr fun other _ => ?_
  rw [price_eq_iff, Side.better]
  omega

/-! ### The invariant -/

/-- The invariant of a book. -/
structure Intact (book : OrderBook) : Prop where
  positive : ∀ side, Positive (book.levelsFor side)
  known : book.state = .valid → book.streamId.isSome ∧ book.lastSequence.isSome

theorem intact_empty : Intact {} where
  positive side := by cases side <;> exact positive_empty
  known h := nomatch h

theorem Intact.markStale {book : OrderBook} (h : book.Intact) : book.markStale.Intact where
  positive side := by cases side <;> [exact h.positive .bid; exact h.positive .ask]
  known := nofun

theorem Intact.applySnapshot {book : OrderBook} (h : book.Intact) (streamId sequence : ℕ)
    (bids asks : List Level) : (book.applySnapshot streamId sequence bids asks).1.Intact := by
  rcases book.applySnapshot_cases streamId sequence bids asks with
    ⟨nextBids, nextAsks, hbids, hasks, -, -, happlied⟩ | ⟨result, -, hkept⟩ | ⟨result, -, hstale⟩
  · rw [happlied]
    refine ⟨fun side => ?_, fun _ => ⟨rfl, rfl⟩⟩
    cases side with
    | bid => exact positive_loadLevels hbids positive_empty
    | ask => exact positive_loadLevels hasks positive_empty
  · rw [hkept]
    exact h
  · rw [hstale]
    exact h.markStale

theorem Intact.applyDeltaAfter {book : OrderBook} (h : book.Intact)
    (streamId predecessor sequence : ℕ) (side : Side) (price : Price)
    (quantityDelta : QuantityDelta) :
    (book.applyDeltaAfter streamId predecessor sequence side price quantityDelta).1.Intact := by
  rcases book.applyDeltaAfter_cases streamId predecessor sequence side price quantityDelta with
    ⟨last, levels, hstate, hstream, -, -, -, hlevels, happlied⟩ | hkept | ⟨result, -, hstale⟩
  · rw [happlied]
    refine ⟨fun other => ?_, fun _ => ⟨?_, rfl⟩⟩
    · have hside := levelsFor_setLevels book side other levels
      have hpositive : Positive ((book.setLevels side levels).levelsFor other) := by
        rw [hside]
        split_ifs
        · exact positive_changeLevel hlevels (h.positive side)
        · exact h.positive other
      cases other <;> exact hpositive
    · simp [hstream]
  · rw [hkept]
    exact h
  · rw [hstale]
    exact h.markStale

/-- **Every operation keeps the invariant.** -/
theorem Intact.perform {book : OrderBook} (h : book.Intact) (operation : BookOperation) :
    (book.perform operation).1.Intact := by
  cases operation with
  | applySnapshot streamId sequence bids asks => exact h.applySnapshot streamId sequence bids asks
  | applyDelta streamId sequence side price quantityDelta =>
    exact h.applyDeltaAfter streamId _ sequence side price quantityDelta
  | applyDeltaAfter streamId predecessor sequence side price quantityDelta =>
    exact h.applyDeltaAfter streamId predecessor sequence side price quantityDelta
  | markStale => exact h.markStale
  | beginRecovery =>
    unfold OrderBook.perform beginRecovery
    split_ifs
    · exact h
    · exact ⟨fun side => by cases side <;> [exact h.positive .bid; exact h.positive .ask], nofun⟩

theorem intact_after (operations : List BookOperation) : (after operations).Intact := by
  unfold after
  generalize hstart : ({} : OrderBook) = start
  have hintact : start.Intact := hstart ▸ intact_empty
  clear hstart
  induction operations generalizing start with
  | nil => exact hintact
  | cons operation operations ih => exact ih _ (hintact.perform operation)

/-! ### Refused updates -/

/-- Two books differ at most in that the second one is stale. -/
def SameOrStale (book next : OrderBook) : Prop :=
  next.bids = book.bids ∧ next.asks = book.asks ∧ next.streamId = book.streamId ∧
    next.lastSequence = book.lastSequence ∧ (next.state = book.state ∨ next.state = .stale)

theorem sameOrStale_refl (book : OrderBook) : book.SameOrStale book :=
  ⟨rfl, rfl, rfl, rfl, Or.inl rfl⟩

theorem sameOrStale_markStale (book : OrderBook) : book.SameOrStale book.markStale :=
  ⟨rfl, rfl, rfl, rfl, Or.inr rfl⟩

theorem applySnapshot_refused {book : OrderBook} {streamId sequence : ℕ} {bids asks : List Level}
    (h : (book.applySnapshot streamId sequence bids asks).2 ≠ .applied) :
    book.SameOrStale (book.applySnapshot streamId sequence bids asks).1 := by
  rcases book.applySnapshot_cases streamId sequence bids asks with
    ⟨nextBids, nextAsks, -, -, -, -, happlied⟩ | ⟨result, -, hkept⟩ | ⟨result, -, hstale⟩
  · exact absurd (by rw [happlied]) h
  · rw [hkept]
    exact book.sameOrStale_refl
  · rw [hstale]
    exact book.sameOrStale_markStale

theorem applyDeltaAfter_refused {book : OrderBook} {streamId predecessor sequence : ℕ} {side : Side}
    {price : Price} {quantityDelta : QuantityDelta}
    (h : (book.applyDeltaAfter streamId predecessor sequence side price quantityDelta).2
      ≠ .applied) :
    book.SameOrStale
      (book.applyDeltaAfter streamId predecessor sequence side price quantityDelta).1 := by
  rcases book.applyDeltaAfter_cases streamId predecessor sequence side price quantityDelta with
    ⟨last, levels, -, -, -, -, -, -, happlied⟩ | hkept | ⟨result, -, hstale⟩
  · exact absurd (by rw [happlied]) h
  · rw [hkept]
    exact book.sameOrStale_refl
  · rw [hstale]
    exact book.sameOrStale_markStale

/-- **A refused update changes at most the state.** -/
theorem perform_refused {book : OrderBook} {operation : BookOperation} {result : BookUpdateResult}
    (hresult : (book.perform operation).2 = some result) (hrefused : result ≠ .applied) :
    book.SameOrStale (book.perform operation).1 := by
  cases operation with
  | applySnapshot streamId sequence bids asks =>
    obtain rfl := Option.some.inj hresult
    exact applySnapshot_refused hrefused
  | applyDelta streamId sequence side price quantityDelta =>
    obtain rfl := Option.some.inj hresult
    exact applyDeltaAfter_refused hrefused
  | applyDeltaAfter streamId predecessor sequence side price quantityDelta =>
    obtain rfl := Option.some.inj hresult
    exact applyDeltaAfter_refused hrefused
  | markStale => cases hresult
  | beginRecovery => cases hresult

/-- **The integrity of all reached books.** The stored levels are in range and not empty, a valid
book knows its stream and its sequence number, the best prices are the greatest bid and the least
ask, a visitor sees the stored levels once from best to worst until it stops, and refused updates
change at most the state. -/
theorem reached_integrity (operations : List BookOperation) :
    let book := after operations
    (∀ (side : Side) (price : Price) (quantity : Quantity),
      (book.levelsFor side)[price]? = some quantity →
      price.raw ≤ Price.scale ∧ 0 < quantity.raw ∧ quantity.raw ≤ int64Max) ∧
    (book.state = .valid → book.streamId.isSome ∧ book.lastSequence.isSome) ∧
    (∀ price : Price, book.bestBid = some price ↔ book.state = .valid ∧ price ∈ book.bids ∧
      ∀ other ∈ book.bids, other.raw ≤ price.raw) ∧
    (∀ price : Price, book.bestAsk = some price ↔ book.state = .valid ∧ price ∈ book.asks ∧
      ∀ other ∈ book.asks, price.raw ≤ other.raw) ∧
    (∀ side, ∃ levels : List Level,
      (levels.Pairwise fun first second => Side.better side first.price second.price) ∧
      (∀ level, level ∈ levels ↔
        book.state = .valid ∧ (book.levelsFor side)[level.price]? = some level.quantity) ∧
      ∀ (σ : Type) (visitor : σ → Level → σ × Bool) (start : σ), ∃ count,
        book.visitLevels side visitor start =
          (levels.take count).foldl (fun state level => (visitor state level).1) start ∧
        ((∀ state level, (visitor state level).2 = true) → count = levels.length)) ∧
    ∀ operation result, (book.perform operation).2 = some result → result ≠ .applied →
      book.SameOrStale (book.perform operation).1 := by
  intro book
  have hintact := intact_after operations
  refine ⟨fun side price quantity hquantity => ?_, hintact.known, fun _ => bestBid_eq_some_iff,
    fun _ => bestAsk_eq_some_iff, fun side => ?_, fun _ _ => perform_refused⟩
  · exact ⟨price.le_scale, hintact.positive side price quantity hquantity, quantity.le_max⟩
  · refine ⟨book.visibleLevels side, book.visibleLevels_best_first side, fun level => ?_,
      fun σ visitor start => visit_eq_foldl visitor _ start⟩
    by_cases hstate : book.state = .valid
    · rw [mem_visibleLevels hstate]
      exact (and_iff_right hstate).symm
    · rw [visibleLevels_eq, if_pos hstate]
      simp [hstate]

end OrderBook

end EventMarket.Book
