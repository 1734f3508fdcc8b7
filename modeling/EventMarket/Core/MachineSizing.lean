import EventMarket.Core.BasketSizing
import EventMarket.Foundations.CheckedArithmetic

/-!
# The sizing code on machine words

The sizing code adds, multiplies and divides 64-bit words without checking the results. Here it is
written a second time with an operation in the place of every sum, difference, product, quotient
and remainder of the source that has no value when the result leaves the range of its type, when
an unsigned difference is negative or when a divisor is zero. A ladder is read only where it has
a level. The statements stand in the order of the source, one at a time.

Whole numbers are `int64Max` or `uint64Max` bounded as the expression is signed or unsigned; a
signed expression that the source takes for nonnegative is a natural, so that its difference must
not be negative either. The charge of a fill is the ledger's own arithmetic, which checks its
overflows itself.

## Main definitions

* `buyReservation64`: the reservation.
* `Cursor.size64`, `Cursor.advance64`, `Search.evaluate64`, `Search.loop64`, `Search.run64`,
  `sizeBuyPair64`: the pair search.
* `CostCursor.at64`, `BasketSearch.loop64`, `sizeBuyBasket64`: the basket enumeration.
-/

namespace EventMarket.Core

open EventMarket.Foundations

/-! ### Reservations -/

/-- The reservation; the inner `none` is the rejection of the source. -/
def buyReservation64 (quantity step : ℕ) (limit : Price) (fee : FeePolicy) :
    Option (Option ℕ) :=
  if quantityBound < quantity ∨ (step ≠ 1 ∧ step ≠ 100) then some none
  else do
    let remainder ← modIn quantity step
    if remainder ≠ 0 ∨ ¬fee.Valid then some none
    else if quantity = 0 then some (some 0)
    else
      match chargeBuyFill quantity Price.half fee {} with
      | none => some none
      | some (peak, _) => do
        let notional ← mulIn int64Max quantity limit.raw
        let amount ← addIn int64Max notional peak.tradeFee
        let steps ← divIn quantity step
        let quantum ← addIn int64Max fee.balanceQuantumMicro 1
        let rounding ← mulIn int64Max steps quantum
        let total ← addIn int64Max amount rounding
        some (some total)

/-- The prefix sums after a level passed whole. -/
def CostPrefix.pass64 (passed : CostPrefix) (count : ℕ) (charge : FillCharge)
    (accumulator : FeeAccumulator) : Option CostPrefix := do
  let quantity ← addIn int64Max passed.quantity count
  let notional ← addIn int64Max passed.notional charge.notional
  let debit ← addIn int64Max passed.debit charge.debit
  some { quantity, notional, debit, accumulator }

/-! ### Cursors of the pair search -/

namespace Cursor

def levelSize64 (step cap : ℕ) (level : BuyLevel) : Option ℕ := do
  let steps ← divIn (min level.quantity.raw cap) step
  mulIn int64Max steps step

def size64 (cursor : Cursor) : Option ℕ :=
  match cursor.levels with
  | [] => none
  | level :: _ => levelSize64 cursor.step cursor.cap level

def price64 (cursor : Cursor) : Option Price :=
  match cursor.levels with
  | [] => none
  | level :: _ => some level.price

/-- The levels from the first one that the grid can use. -/
def seekLevels64 (step cap : ℕ) : List BuyLevel → Option (List BuyLevel)
  | [] => some []
  | level :: levels => do
    let size ← levelSize64 step cap level
    if size = 0 then seekLevels64 step cap levels else some (level :: levels)

def seek64 (cursor : Cursor) : Option (Cursor × Bool) := do
  let levels ← seekLevels64 cursor.step cursor.cap cursor.levels
  some ({ cursor with levels }, !levels.isEmpty)

def stop64 (cursor : Cursor) : Option ℕ := do
  let size ← cursor.size64
  addIn int64Max cursor.passed.quantity size

def advance64 (cursor : Cursor) : Option (Option Cursor) := do
  let count ← cursor.size64
  let price ← cursor.price64
  match chargeBuyFill count price cursor.fees cursor.passed.accumulator with
  | none => some none
  | some (charge, accumulator) => do
    let passed ← cursor.passed.pass64 count charge accumulator
    some (some { cursor with levels := cursor.levels.tail, passed })

end Cursor

/-! ### The pair search -/

namespace Search

def seek64 (search : Search) : Option (Search × Bool) := do
  let (cursor0, found0) ← (search.cursors 0).seek64
  if !found0 then some ({ search with cursors := ![cursor0, search.cursors 1] }, false)
  else do
    let (cursor1, found1) ← (search.cursors 1).seek64
    some ({ search with cursors := ![cursor0, cursor1] }, found1)

def legReservation64 (search : Search) (leg : Fin 2) (q : ℕ) : Option (Option ℕ) := do
  let price ← (search.cursors leg).price64
  buyReservation64 q search.limits.step.raw price (search.cursors leg).fees

def reservation64 (search : Search) (q : ℕ) : Option ℕ := do
  match ← search.legReservation64 0 q with
  | none => some int64Max
  | some reserve0 =>
    match ← search.legReservation64 1 q with
    | none => some int64Max
    | some reserve1 => addIn int64Max reserve0 reserve1

/-- The fee factor of a price, signed in the slope and unsigned in an evaluation. -/
def feeFactor64 (bound : ℕ) (fees : FeePolicy) (price : Price) : Option ℕ := do
  let scaled ← mulIn bound fees.coefficientPpm price.raw
  let rest ← subIn 10000 price.raw
  mulIn bound scaled rest

def feeCeilError64 (cursor : Cursor) (price : Price) (q : ℕ) : Option ℕ := do
  let factor ← feeFactor64 uint64Max cursor.fees price
  let count ← subIn q cursor.passed.quantity
  let reduced ← modIn factor feeDenominator
  let product ← mulIn uint64Max count reduced
  let remainder ← modIn product feeDenominator
  if remainder ≠ 0 then subIn feeDenominator remainder else some 0

/-- The sums of an evaluation over the legs taken so far. -/
structure Totals where
  margin : ℤ
  reserve : ℕ := 0
  rounding : ℕ := 0
  error : ℕ := 0

/-- One leg of an evaluation and the sums with it. -/
def addLeg64 (search : Search) (leg : Fin 2) (q : ℕ) (totals : Totals) :
    Option (Option (SizedLeg × Totals)) := do
  let cursor := search.cursors leg
  let count ← subIn q cursor.passed.quantity
  let price ← cursor.price64
  let charged := chargeBuyFill count price cursor.fees cursor.passed.accumulator
  let reserved ← search.legReservation64 leg q
  match charged, reserved with
  | some (charge, accumulator), some reservation => do
    let debit ← addIn int64Max cursor.passed.debit charge.debit
    let notional ← addIn int64Max cursor.passed.notional charge.notional
    let margin ← inRange int64Min int64Max (totals.margin - debit)
    let reserve ← addIn int64Max totals.reserve reservation
    let rounding ← addIn int64Max totals.rounding accumulator.roundingMicro
    let ceiling ← feeCeilError64 cursor price q
    let error ← addIn uint64Max totals.error ceiling
    some (some (⟨price, notional, debit, reservation⟩, { margin, reserve, rounding, error }))
  | _, _ => some none

def evaluate64 (search : Search) (q : ℕ) : ExceptT SizingResult Option (Evaluation × Search) :=
  if search.evaluatedQuantities = search.limits.maxEvaluations then
    throw (search.failed .searchBudgetExceeded)
  else do
    let evaluatedQuantities ← addIn uint64Max search.evaluatedQuantities 1
    let search := { search with evaluatedQuantities }
    let gross ← mulIn int64Max q 10000
    match ← search.addLeg64 0 q { margin := gross } with
    | none => throw (search.failed .arithmeticError)
    | some (leg0, totals) =>
      match ← search.addLeg64 1 q totals with
      | none => throw (search.failed .arithmeticError)
      | some (leg1, totals) => do
        let rounded ← inRange int64Min int64Max (totals.margin + totals.rounding)
        let ceilings ← divIn totals.error feeDenominator
        let upper ← inRange int64Min int64Max (rounded + ceilings)
        let value : Evaluation :=
          { q, upper
            margin := totals.margin
            legs := ![leg0, leg1]
            reserve := totals.reserve }
        let best :=
          if value.margin > search.limits.minimumMargin.raw ∧ improves search.best value = true then
            some value
          else search.best
        pure (value, { search with best })

def interval64 : ℕ → Search → Evaluation → Evaluation → ExceptT SizingResult Option Search
  | 0, search, _, _ => pure search
  | fuel + 1, search, low, high => do
    let width ← subIn high.q low.q
    if width ≤ search.limits.step.raw then pure search
    else
      let upper := if search.slope ≥ 0 then high.upper else low.upper
      if search.prunable low upper then do
        let intervalsPruned ← addIn uint64Max search.intervalsPruned 1
        pure { search with intervalsPruned }
      else do
        let steps ← divIn width search.limits.step.raw
        let half ← divIn steps 2
        let offset ← mulIn int64Max half search.limits.step.raw
        let middle ← addIn int64Max low.q offset
        let (mid, search) ← search.evaluate64 middle
        let search ← interval64 fuel search low mid
        interval64 fuel search mid high

def fundedSteps64 (search : Search) : ℕ → ℕ → ℕ → Option ℕ
  | 0, low, _ => some low
  | fuel + 1, low, high =>
    if low < high then do
      let width ← subIn high low
      let rounded ← addIn int64Max width 1
      let half ← divIn rounded 2
      let mid ← addIn int64Max low half
      let quantity ← mulIn int64Max mid search.limits.step.raw
      let reserve ← search.reservation64 quantity
      if reserve ≤ search.limits.available.raw then fundedSteps64 search fuel mid high
      else do
        let below ← subIn mid 1
        fundedSteps64 search fuel low below
    else some low

def marginSlope64 (search : Search) : Option ℤ := do
  let price0 ← (search.cursors 0).price64
  let price1 ← (search.cursors 1).price64
  let left ← inRange int64Min int64Max (10000 - price0.raw)
  let left ← inRange int64Min int64Max (left - price1.raw)
  let slope ← inRange int64Min int64Max (feeDenominator * left)
  let factor0 ← feeFactor64 int64Max (search.cursors 0).fees price0
  let slope ← inRange int64Min int64Max (slope - factor0)
  let factor1 ← feeFactor64 int64Max (search.cursors 1).fees price1
  inRange int64Min int64Max (slope - factor1)

def passLevel64 (search : Search) (stop : ℕ) (cursor : Cursor) :
    ExceptT SizingResult Option Cursor := do
  let last ← cursor.stop64
  if last = stop then
    match ← cursor.advance64 with
    | some cursor => pure cursor
    | none => throw (search.failed .arithmeticError)
  else pure cursor

def advance64 (search : Search) (stop : ℕ) : ExceptT SizingResult Option Search := do
  let cursor0 ← search.passLevel64 stop (search.cursors 0)
  let cursor1 ← search.passLevel64 stop (search.cursors 1)
  pure { search with cursors := ![cursor0, cursor1] }

def lastFunded64 (search : Search) (first stop : ℕ) : Option ℕ := do
  let reserve ← search.reservation64 stop
  if search.limits.available.raw < reserve then do
    let steps ← divIn first search.limits.step.raw
    let low ← subIn steps 1
    let high ← divIn stop search.limits.step.raw
    let funded ← search.fundedSteps64 high low high
    mulIn int64Max funded search.limits.step.raw
  else some stop

def evaluateHigh64 (search : Search) (low : Evaluation) (first last : ℕ) :
    ExceptT SizingResult Option (Evaluation × Search) :=
  if last = first then pure (low, search) else search.evaluate64 last

def stretch64 (search : Search) (first last : ℕ) : ExceptT SizingResult Option Search := do
  let slope ← search.marginSlope64
  let search := { search with slope }
  let (low, search) ← search.evaluate64 first
  let (high, search) ← search.evaluateHigh64 low first last
  interval64 ((high.q - low.q) / search.limits.step.raw + 1) search low high

def loop64 : ℕ → Search → ℕ → Bool → ExceptT SizingResult Option (Search × Bool)
  | 0, search, _, funded => pure (search, funded)
  | fuel + 1, search, first, funded => do
    let steps ← divIn search.limits.cap.raw search.limits.step.raw
    let cap ← mulIn int64Max steps search.limits.step.raw
    if cap < first then pure (search, funded)
    else do
      let (search, found) ← search.seek64
      if !found then pure (search, funded)
      else do
        let stop0 ← (search.cursors 0).stop64
        let stop1 ← (search.cursors 1).stop64
        let stop := min cap (min stop0 stop1)
        let last ← search.lastFunded64 first stop
        if last < first then pure (search, funded)
        else do
          let search ← search.stretch64 first last
          if last < stop ∨ stop = cap then pure (search, true)
          else do
            let next ← addIn int64Max stop search.limits.step.raw
            let search ← search.advance64 stop
            loop64 fuel search next true

def emptyStatus64 (search : Search) (funded : Bool) : Option SizingStatus :=
  if funded then some .noPositiveMargin
  else if (search.cursors 0).passed.quantity = 0 then do
    let (_, found) ← search.seek64
    some (if found = false then .noDepth else .insufficientCash)
  else some .insufficientCash

def finish64 (search : Search) (funded : Bool) : Option SizingResult :=
  match search.best with
  | some best => do
    let payoutFloor ← mulIn int64Max best.q 10000
    let netMargin ← inRange 0 int64Max best.margin
    some { search.failed .optimal with
      quote := some ⟨best.q, best.legs, payoutFloor, netMargin⟩ }
  | none => do
    let status ← search.emptyStatus64 funded
    some (search.failed status)

def run64 (search : Search) : Option SizingResult := do
  let (search, found) ← search.seek64
  if !found then some (search.failed .noDepth)
  else do
    let price0 ← (search.cursors 0).price64
    let price1 ← (search.cursors 1).price64
    let prices ← addIn int64Max price0.raw price1.raw
    if prices ≥ 10000 then some (search.failed .noPositiveMargin)
    else do
      let levels := (search.cursors 0).levels.length + (search.cursors 1).levels.length
      match ← (search.loop64 (levels + 1) search.limits.step.raw false).run with
      | .error result => some result
      | .ok (search, funded) => search.finish64 funded

end Search

def sizeBuyPair64 (depth : Fin 2 → BuyDepth) (limits : SizingLimits) : Option SizingResult :=
  if limits.Valid ∧ (depth 0).Valid ∧ (depth 1).Valid then
    Search.run64 { limits, cursors := ![.start (depth 0) limits, .start (depth 1) limits] }
  else some {}

/-! ### The basket enumeration -/

namespace CostCursor

def complete64 (fees : FeePolicy) (quantity : ℕ) :
    List BuyLevel → CostPrefix → Option (Option (List BuyLevel × CostPrefix))
  | [], passed => some (some ([], passed))
  | level :: levels, passed => do
    let left ← subIn quantity passed.quantity
    if level.quantity.raw < left then
      match chargeBuyFill level.quantity.raw level.price fees passed.accumulator with
      | none => some none
      | some (charge, accumulator) => do
        let passed ← passed.pass64 level.quantity.raw charge accumulator
        complete64 fees quantity levels passed
    else some (some (level :: levels, passed))

/-- The last level at a quantity, with the prefix before it. -/
def last64 (cursor : CostCursor) (quantity : ℕ) (passed : CostPrefix) :
    List BuyLevel → Option (Option (SizedLeg × CostCursor))
  | [] => some none
  | level :: levels => do
    let count ← subIn quantity passed.quantity
    let charged := chargeBuyFill count level.price cursor.fees passed.accumulator
    let reserved ← buyReservation64 quantity 1 level.price cursor.fees
    match charged, reserved with
    | some (charge, _), some reserve => do
      let notional ← addIn int64Max passed.notional charge.notional
      let debit ← addIn int64Max passed.debit charge.debit
      some (some (⟨level.price, notional, debit, reserve⟩,
        { cursor with levels := level :: levels, passed }))
    | _, _ => some none

def at64 (cursor : CostCursor) (quantity : ℕ) : Option (Option (SizedLeg × CostCursor)) := do
  match ← complete64 cursor.fees quantity cursor.levels cursor.passed with
  | none => some none
  | some (levels, passed) => cursor.last64 quantity passed levels

end CostCursor

namespace BasketSearch

/-- The legs of a basket with their summed debits and reservations. -/
def evaluate64 (search : BasketSearch) (q : ℕ) :
    Option (Option ((Fin 3 → SizedLeg) × (Fin 3 → CostCursor) × ℕ × ℕ)) := do
  match ← (search.cursors 0).at64 q with
  | none => some none
  | some (leg0, cursor0) =>
    match ← (search.cursors 1).at64 q with
    | none => some none
    | some (leg1, cursor1) => do
      let debit ← addIn int64Max leg0.debit leg1.debit
      let reserve ← addIn int64Max leg0.reservation leg1.reservation
      match ← (search.cursors 2).at64 q with
      | none => some none
      | some (leg2, cursor2) => do
        let debit ← addIn int64Max debit leg2.debit
        let reserve ← addIn int64Max reserve leg2.reservation
        some (some (![leg0, leg1, leg2], ![cursor0, cursor1, cursor2], debit, reserve))

def loop64 : ℕ → BasketSearch → (available q : ℕ) →
    ExceptT BasketSizingResult Option BasketSearch
  | 0, search, _, _ => pure search
  | fuel + 1, search, available, q =>
    if available < q then pure search
    else if search.evaluatedQuantities = search.limits.maxEvaluations then
      throw (search.failed .searchBudgetExceeded)
    else do
      let evaluatedQuantities ← addIn uint64Max search.evaluatedQuantities 1
      let search := { search with evaluatedQuantities }
      let payoutFloor ← mulIn int64Max q 20000
      match ← search.evaluate64 q with
      | none => throw (search.failed .arithmeticError)
      | some (legs, cursors, debit, reserve) => do
        let netMarginMicro ← inRange int64Min int64Max (payoutFloor - debit)
        let value : SizedBasket := { quantity := q, legs, payoutFloor, netMarginMicro }
        let search := { search with
          cursors
          oneContractDiagnostic :=
            if q = basketQuantityStep then some value else search.oneContractDiagnostic }
        if search.limits.available.raw < reserve then pure search
        else do
          let next ← addIn int64Max q basketQuantityStep
          loop64 fuel (search.consider value reserve) available next

end BasketSearch

/-- The saturated quantity of a ladder, from the levels before. -/
def saturatedDepth64 (cap : ℕ) : List BuyLevel → ℕ → Option ℕ
  | [], total => some total
  | level :: levels, total => do
    let sum ← addIn int64Max total (min level.quantity.raw cap)
    saturatedDepth64 cap levels (min cap sum)

def basketAvailable64 (depth : Fin 3 → BuyDepth) (cap : ℕ) : Option ℕ := do
  let depth0 ← saturatedDepth64 cap (depth 0).levels 0
  let depth1 ← saturatedDepth64 cap (depth 1).levels 0
  let depth2 ← saturatedDepth64 cap (depth 2).levels 0
  some (min (min (min cap depth0) depth1) depth2)

def sizeBuyBasket64 (depth : Fin 3 → BuyDepth) (limits : SizingLimits) :
    Option BasketSizingResult :=
  if limits.ValidBasket ∧ (depth 0).ValidBasket ∧ (depth 1).ValidBasket ∧
      (depth 2).ValidBasket then do
    let available ← basketAvailable64 depth limits.cap.raw
    if available < basketQuantityStep then some { status := .noDepth }
    else do
      let search : BasketSearch := { limits, cursors := fun leg => .start (depth leg) }
      match ← (search.loop64 (available / basketQuantityStep) available basketQuantityStep).run with
      | .error result => some result
      | .ok search => some search.finish
  else some {}

end EventMarket.Core
