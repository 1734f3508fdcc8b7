import EventMarket.Core.CostPrefix
import Mathlib.Data.Fin.VecNotation

/-!
# Sizing a pair of buys

Two complementary contracts bought together pay one dollar a pair. `sizeBuyPair` looks for the
quantity with the largest guaranteed margin after all fees, on a quantity grid and within the
available cash. Two cursors walk the ladders; while both stay on one level the margin is linear
up to roundings, so an interval of quantities is pruned by an upper bound computed at one of its
ends, and halved otherwise.

A cursor keeps the levels that it has not passed. The result of a failed search is the error of
`Except`, so that each caller returns it at once.

## Main definitions

* `SizingLimits`, `SizingStatus`, `SizingResult`: the interface.
* `Cursor`: a ladder with the cost of the levels already passed.
* `Search.evaluate`, `Search.interval`, `Search.loop`, `Search.run`: the search.
* `sizeBuyPair`: the validated entry point.
-/

namespace EventMarket.Core

/-- The largest available cash and minimum margin. -/
def cashBound : ℕ := 1000000000000000

structure SizingLimits where
  cap : Quantity
  step : Quantity
  available : Cash
  minimumMargin : Cash
  maxEvaluations : ℕ
  deriving DecidableEq, Repr

structure SizedPair where
  quantity : ℕ
  legs : Fin 2 → SizedLeg
  payoutFloor : ℕ
  netMargin : ℤ

inductive SizingStatus where
  | optimal
  | noPositiveMargin
  | noDepth
  | insufficientCash
  | searchBudgetExceeded
  | invalidInput
  | arithmeticError
  deriving DecidableEq, Repr

structure SizingResult where
  status : SizingStatus := .invalidInput
  quote : Option SizedPair := none
  evaluatedQuantities : ℕ := 0
  intervalsPruned : ℕ := 0

/-! ### Cursors -/

/-- A ladder from the current level on, and the cost of the levels passed. -/
structure Cursor where
  fees : FeePolicy
  step : ℕ
  cap : ℕ
  levels : List BuyLevel
  passed : CostPrefix := {}
  deriving DecidableEq, Repr

namespace Cursor

def levelSize (step cap : ℕ) (level : BuyLevel) : ℕ := min level.quantity.raw cap / step * step

/-- The grid quantity of the current level. -/
def size (cursor : Cursor) : ℕ :=
  match cursor.levels with
  | [] => 0
  | level :: _ => levelSize cursor.step cursor.cap level

def price (cursor : Cursor) : Price :=
  match cursor.levels with
  | [] => ⟨0, Price.zero_le_scale⟩
  | level :: _ => level.price

/-- Pass the levels too small for the grid; whether a level is left. -/
def seek (cursor : Cursor) : Cursor × Bool :=
  let levels := cursor.levels.dropWhile fun level => levelSize cursor.step cursor.cap level = 0
  ({ cursor with levels }, !levels.isEmpty)

def stop (cursor : Cursor) : ℕ := cursor.passed.quantity + cursor.size

/-- Pass the current level whole. -/
def advance (cursor : Cursor) : Option Cursor := do
  let (charge, accumulator) ←
    chargeBuyFill cursor.size cursor.price cursor.fees cursor.passed.accumulator
  some { cursor with
    levels := cursor.levels.tail
    passed := cursor.passed.pass cursor.size charge accumulator }

end Cursor

/-! ### The search -/

/-- The pair at one quantity, with the bound that it gives for the margins around it. -/
structure Evaluation where
  q : ℕ
  legs : Fin 2 → SizedLeg
  margin : ℤ
  reserve : ℕ
  upper : ℤ

structure Search where
  limits : SizingLimits
  cursors : Fin 2 → Cursor
  evaluatedQuantities : ℕ := 0
  intervalsPruned : ℕ := 0
  best : Option Evaluation := none
  slope : ℤ := 0

namespace Search

/-- The result without a quote. -/
def failed (search : Search) (status : SizingStatus) : SizingResult where
  status
  evaluatedQuantities := search.evaluatedQuantities
  intervalsPruned := search.intervalsPruned

/-- The second cursor does not move when the first has no level left. -/
def seek (search : Search) : Search × Bool :=
  let (cursor0, found0) := (search.cursors 0).seek
  if !found0 then ({ search with cursors := ![cursor0, search.cursors 1] }, false)
  else
    let (cursor1, found1) := (search.cursors 1).seek
    ({ search with cursors := ![cursor0, cursor1] }, found1)

def legReservation (search : Search) (leg : Fin 2) (q : ℕ) : Option ℕ :=
  buyReservation q search.limits.step.raw (search.cursors leg).price (search.cursors leg).fees

def reservation (search : Search) (q : ℕ) : ℕ :=
  match search.legReservation 0 q, search.legReservation 1 q with
  | some reserve0, some reserve1 => reserve0 + reserve1
  | _, _ => int64Max

/-- The fee factor of a leg at its current price. -/
def feeFactor (cursor : Cursor) : ℕ :=
  cursor.fees.coefficientPpm * cursor.price.raw * (10000 - cursor.price.raw)

/-- The distance from the exact fee of a leg up to its ceiling, over the fee denominator. -/
def feeCeilError (cursor : Cursor) (q : ℕ) : ℕ :=
  let remainder :=
    (q - cursor.passed.quantity) * (feeFactor cursor % feeDenominator) % feeDenominator
  if remainder ≠ 0 then feeDenominator - remainder else 0

/-- One leg of an evaluation, with its rounding remainder. -/
def evaluateLeg (search : Search) (leg : Fin 2) (q : ℕ) : Option (SizedLeg × ℕ) := do
  let cursor := search.cursors leg
  let (charge, accumulator) ←
    chargeBuyFill (q - cursor.passed.quantity) cursor.price cursor.fees cursor.passed.accumulator
  let reserve ← search.legReservation leg q
  some (⟨cursor.price, cursor.passed.notional + charge.notional,
    cursor.passed.debit + charge.debit, reserve⟩, accumulator.roundingMicro)

/-- Whether a value beats the best one: a larger margin, then a smaller reserve, then a smaller
quantity. -/
def improves (best : Option Evaluation) (value : Evaluation) : Bool :=
  match best with
  | none => true
  | some best =>
    value.margin > best.margin ||
      (value.margin == best.margin &&
        (value.reserve < best.reserve || (value.reserve == best.reserve && value.q < best.q)))

/-- The pair at one quantity. Total debit is notional, ceiled fees and the remaining rounding;
taking out the remaining rounding and the fractions of the ceilings leaves the floor of the
continuous margin, which is the upper bound. -/
def evaluate (search : Search) (q : ℕ) : Except SizingResult (Evaluation × Search) :=
  if search.evaluatedQuantities = search.limits.maxEvaluations then
    .error (search.failed .searchBudgetExceeded)
  else
    let search := { search with evaluatedQuantities := search.evaluatedQuantities + 1 }
    match search.evaluateLeg 0 q, search.evaluateLeg 1 q with
    | some (leg0, rounding0), some (leg1, rounding1) =>
      let margin : ℤ := q * 10000 - leg0.debit - leg1.debit
      let error := feeCeilError (search.cursors 0) q + feeCeilError (search.cursors 1) q
      let value : Evaluation :=
        { q, margin
          legs := ![leg0, leg1]
          reserve := leg0.reservation + leg1.reservation
          upper := margin + (rounding0 + rounding1 : ℕ) + (error / feeDenominator : ℕ) }
      let best :=
        if margin > search.limits.minimumMargin.raw ∧ improves search.best value = true then
          some value
        else search.best
      .ok (value, { search with best })
    | _, _ => .error (search.failed .arithmeticError)

/-- Whether nothing strictly inside an interval can beat the best value: the bound is below it,
or meets it where a tie is lost. -/
def prunable (search : Search) (low : Evaluation) (upper : ℤ) : Bool :=
  match search.best with
  | none => upper ≤ search.limits.minimumMargin.raw
  | some best => upper < best.margin || (upper == best.margin && low.q ≥ best.q)

/-- The quantities strictly between two evaluated ones. -/
def interval : ℕ → Search → Evaluation → Evaluation → Except SizingResult Search
  | 0, search, _, _ => .ok search
  | fuel + 1, search, low, high =>
    let step := search.limits.step.raw
    if high.q - low.q ≤ step then .ok search
    else
      let upper := if search.slope ≥ 0 then high.upper else low.upper
      if search.prunable low upper then
        .ok { search with intervalsPruned := search.intervalsPruned + 1 }
      else do
        let steps := (high.q - low.q) / step
        let (mid, search) ← search.evaluate (low.q + steps / 2 * step)
        let search ← interval fuel search low mid
        interval fuel search mid high

/-- Binary search for the largest funded number of grid steps. -/
def fundedSteps (search : Search) : ℕ → ℕ → ℕ → ℕ
  | 0, low, _ => low
  | fuel + 1, low, high =>
    if low < high then
      let mid := low + (high - low + 1) / 2
      if search.reservation (mid * search.limits.step.raw) ≤ search.limits.available.raw then
        fundedSteps search fuel mid high
      else fundedSteps search fuel low (mid - 1)
    else low

/-- The slope of the continuous margin over the fee denominator. -/
def marginSlope (search : Search) : ℤ :=
  feeDenominator * (10000 - (search.cursors 0).price.raw - (search.cursors 1).price.raw) -
    feeFactor (search.cursors 0) - feeFactor (search.cursors 1)

/-- Pass the level of one cursor when it ends at a quantity. -/
def passLevel (search : Search) (stop : ℕ) (cursor : Cursor) : Except SizingResult Cursor :=
  if cursor.stop = stop then
    match cursor.advance with
    | some cursor => .ok cursor
    | none => .error (search.failed .arithmeticError)
  else .ok cursor

def advance (search : Search) (stop : ℕ) : Except SizingResult Search := do
  let cursor0 ← search.passLevel stop (search.cursors 0)
  let cursor1 ← search.passLevel stop (search.cursors 1)
  .ok { search with cursors := ![cursor0, cursor1] }

/-- The last funded quantity of a stretch that starts at `first` and stops at `stop`. -/
def lastFunded (search : Search) (first stop : ℕ) : ℕ :=
  let step := search.limits.step.raw
  if search.limits.available.raw < search.reservation stop then
    fundedSteps search (stop / step) (first / step - 1) (stop / step) * step
  else stop

/-- A stretch of one quantity is evaluated once. -/
def evaluateHigh (search : Search) (low : Evaluation) (first last : ℕ) :
    Except SizingResult (Evaluation × Search) :=
  if last = first then .ok (low, search) else search.evaluate last

/-- The quantities of a stretch, on which the margin without roundings is linear. -/
def stretch (search : Search) (first last : ℕ) : Except SizingResult Search := do
  let search := { search with slope := search.marginSlope }
  let (low, search) ← search.evaluate first
  let (high, search) ← search.evaluateHigh low first last
  interval ((high.q - low.q) / search.limits.step.raw + 1) search low high

/-- The loop over the stretches on which both cursors stay on one level, from the quantity
`first`. It also returns whether any stretch was funded. -/
def loop : ℕ → Search → ℕ → Bool → Except SizingResult (Search × Bool)
  | 0, search, _, funded => .ok (search, funded)
  | fuel + 1, search, first, funded =>
    let step := search.limits.step.raw
    let cap := search.limits.cap.raw / step * step
    if cap < first then .ok (search, funded)
    else
      let (search, found) := search.seek
      if !found then .ok (search, funded)
      else
        let stop := min cap (min (search.cursors 0).stop (search.cursors 1).stop)
        -- Funding is monotone even though rounded net profit need not be.
        let last := search.lastFunded first stop
        if last < first then .ok (search, funded)
        else do
          let search ← search.stretch first last
          if last < stop ∨ stop = cap then .ok (search, true)
          else do
            let search ← search.advance stop
            loop fuel search (stop + step) true

/-- The status of a search without a quote. -/
def emptyStatus (search : Search) (funded : Bool) : SizingStatus :=
  if funded then .noPositiveMargin
  else if (search.cursors 0).passed.quantity = 0 ∧ search.seek.2 = false then .noDepth
  else .insufficientCash

def finish (search : Search) (funded : Bool) : SizingResult :=
  match search.best with
  | some best =>
    { search.failed .optimal with
      quote := some ⟨best.q, best.legs, best.q * 10000, best.margin⟩ }
  | none => search.failed (search.emptyStatus funded)

/-- The search over all quantities. -/
def run (search : Search) : SizingResult :=
  let (search, found) := search.seek
  if !found then search.failed .noDepth
  -- Ascending prices and nonnegative fees: when the best pair costs a dollar before fees, no
  -- deeper quantity earns a positive margin.
  else if (search.cursors 0).price.raw + (search.cursors 1).price.raw ≥ 10000 then
    search.failed .noPositiveMargin
  else
    let levels := (search.cursors 0).levels.length + (search.cursors 1).levels.length
    match loop (levels + 1) search search.limits.step.raw false with
    | .error result => result
    | .ok (search, funded) => search.finish funded

end Search

/-! ### The entry point -/

/-- A ladder the search accepts. -/
def BuyDepth.Valid (depth : BuyDepth) : Prop :=
  depth.fees.Valid ∧ depth.levels.length ≤ 10001 ∧ Ascending depth.levels

instance (depth : BuyDepth) : Decidable depth.Valid :=
  inferInstanceAs (Decidable (_ ∧ _ ∧ List.Pairwise _ _))

/-- Limits the search accepts. -/
def SizingLimits.Valid (limits : SizingLimits) : Prop :=
  limits.cap.raw ≤ quantityBound ∧ (limits.step.raw = 1 ∨ limits.step.raw = 100) ∧
    limits.step.raw ≤ limits.cap.raw ∧ limits.available.raw ≤ cashBound ∧
    limits.minimumMargin.raw ≤ cashBound ∧ limits.maxEvaluations ≠ 0

instance (limits : SizingLimits) : Decidable limits.Valid :=
  inferInstanceAs (Decidable (_ ∧ _ ∧ _ ∧ _ ∧ _ ∧ _))

def Cursor.start (depth : BuyDepth) (limits : SizingLimits) : Cursor where
  fees := depth.fees
  step := limits.step.raw
  cap := limits.cap.raw
  levels := depth.levels

/-- Exact on the configured grid, or an explicit status with no quote. -/
def sizeBuyPair (depth : Fin 2 → BuyDepth) (limits : SizingLimits) : SizingResult :=
  if limits.Valid ∧ (depth 0).Valid ∧ (depth 1).Valid then
    Search.run { limits, cursors := ![.start (depth 0) limits, .start (depth 1) limits] }
  else {}

end EventMarket.Core
