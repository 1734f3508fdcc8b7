import EventMarket.Constraint.Payoff
import EventMarket.Core.NetSizing
import EventMarket.Session.BasketFills

/-!
# Quotes and walks of the execution study

The study decides on a pair from the books of the moment and fills its orders from the books at
their arrival. Both read a side level by level, less what was filled there before: the quote
prepares a ladder for the pair search, a walk charges one fill after the other.

## Main definitions

* `StudyPolicy`: what the study assumes.
* `sizingLevels`, `optimalQuote`: the quote of a decision.
* `Walk`, `walkLevels`, `walk`: an order on its way through the levels of a book.
-/

namespace EventMarket.Constraint

def ContractOutcome.isYes : ContractOutcome → Bool
  | .yes => true
  | .no => false

def ContractOutcome.opposite : ContractOutcome → ContractOutcome
  | .yes => .no
  | .no => .yes

end EventMarket.Constraint

namespace EventMarket.Session

open Book Constraint Core Market

/-! ### The policy -/

structure Settlement where
  marketId : MarketId
  yesWins : Bool
  time : ℕ
  deriving DecidableEq, Repr

structure LifecyclePolicy where
  sequential : Bool
  reverseLegs : Bool
  responseLatency : Fin 2 → ℕ
  completionTimeout : ℕ
  completionLossLimit : ℕ
  maximumCompletionOrders : ℕ
  settlements : List Settlement

structure ResidualExitPolicy where
  reduce : Bool
  reject : Bool
  latency : ℕ
  responseLatency : ℕ
  timeout : ℕ
  minimumPrice : ℕ
  fillBps : ℕ

structure StudyPolicy where
  lifecycle : Option LifecyclePolicy := none
  residualExit : Option ResidualExitPolicy := none
  optimalSizing : Bool := false
  maxSizingEvaluations : ℕ := 0
  capital : Cash
  operatingCost : ℕ
  quantityCap : Quantity
  quantityStep : Quantity
  minMargin : Cash
  maxAge : ℕ
  latency : Fin 2 → ℕ
  reject : Fin 2 → Bool
  fillBps : ℕ
  fees : MarketId → FeePolicy

/-- The largest quantity that is taken from one level. -/
def quantityLimit : ℕ := 100000000

/-! ### Walks -/

/-- What an order has filled. -/
structure Execution where
  quantity : ℕ := 0
  notional : ℕ := 0
  debit : ℕ := 0
  credit : ℕ := 0
  worstPrice : ℕ := 0
  levels : ℕ := 0
  deriving DecidableEq, Repr

/-- A level by what buys there: the market, the outcome and the price of the outcome. -/
structure LiquidityKey where
  marketId : MarketId
  outcome : ContractOutcome
  price : ℕ
  deriving DecidableEq, Repr

/-- The row of one fill. -/
structure FillRow where
  sell : Bool
  leg : PayoffLegTemplate
  quantity : ℕ
  price : ℕ
  amounts : FillAmounts
  deriving DecidableEq, Repr

/-- An order that walks the levels of a book; only an executed walk leaves traces. -/
structure WalkOrder where
  leg : PayoffLegTemplate
  sell : Bool := false
  quantity : ℕ
  limit : ℕ
  execute : Bool

/-- A walk on its way. -/
structure Walk where
  execution : Execution := {}
  fees : FeeAccumulator := {}
  consumed : LiquidityKey → ℕ
  rows : List FillRow := []

/-- The price of a leg at a YES price. -/
def legPrice (leg : PayoffLegTemplate) (price : Price) : Price :=
  outcomePrice leg.outcome.isYes price

namespace WalkOrder

/-- Whether a price is beyond the limit. -/
def beyond (order : WalkOrder) (price : Price) : Bool :=
  if order.sell then decide (price.raw < order.limit) else decide (order.limit < price.raw)

/-- Selling an outcome takes the liquidity of buying its complement. -/
def key (order : WalkOrder) (price : Price) : LiquidityKey where
  marketId := order.leg.marketId
  outcome := if order.sell then order.leg.outcome.opposite else order.leg.outcome
  price := if order.sell then 10000 - price.raw else price.raw

/-- What a level offers to the order. -/
def available (policy : StudyPolicy) (order : WalkOrder) (shown used : ℕ) : ℕ :=
  let available := min (shown - used) quantityLimit
  if order.execute then
    available * (if order.sell then (policy.residualExit.elim 0 ResidualExitPolicy.fillBps)
      else policy.fillBps) / 10000
  else available

/-- What is filled at a level. -/
def fillable (policy : StudyPolicy) (order : WalkOrder) (shown used filled : ℕ) : ℕ :=
  min (order.available policy shown used) (order.quantity - filled) / policy.quantityStep.raw *
    policy.quantityStep.raw

/-- The amounts of a fill. -/
def charge (policy : StudyPolicy) (order : WalkOrder) (fill : ℕ) (price : Price)
    (fees : FeeAccumulator) : Except StudyException (FillAmounts × FeeAccumulator) :=
  let fee := policy.fees order.leg.marketId
  if order.sell then
    match creditSellFill fill price fee fees with
    | none => invalid "sale credit overflow"
    | some (credit, left) => .ok (⟨credit.notional, credit.tradeFee, credit.roundingFee,
        credit.rebate, credit.credit⟩, left)
  else
    match chargeBuyFill fill price fee fees with
    | none => invalid "fill charge overflow"
    | some (charge, left) => .ok (⟨charge.notional, charge.tradeFee, charge.roundingFee,
        charge.rebate, charge.debit⟩, left)

end WalkOrder

/-- The totals after one more fill. -/
def Execution.add (execution : Execution) (sell : Bool) (fill : ℕ) (price : Price)
    (amounts : FillAmounts) : Execution where
  quantity := execution.quantity + fill
  notional := execution.notional + amounts.notional
  debit := execution.debit + if sell then 0 else amounts.change
  credit := execution.credit + if sell then amounts.change else 0
  worstPrice := price.raw
  levels := execution.levels + 1

/-- Fill at one level. -/
def Walk.take (policy : StudyPolicy) (order : WalkOrder) (walk : Walk) (price : Price) (fill : ℕ) :
    Except StudyException Walk := do
  let (amounts, fees) ← order.charge policy fill price walk.fees
  let walk := { walk with execution := walk.execution.add order.sell fill price amounts, fees }
  if order.execute then
    let key := order.key price
    if int64Max < walk.consumed key + fill then invalid "liquidity overflow"
    else .ok { walk with
      consumed := Function.update walk.consumed key (walk.consumed key + fill)
      rows := walk.rows ++ [⟨order.sell, order.leg, fill, price.raw, amounts⟩] }
  else .ok walk

/-- Walk through the levels of a side. -/
def walkLevels (policy : StudyPolicy) (order : WalkOrder) :
    List Level → Walk → Except StudyException Walk
  | [], walk => .ok walk
  | level :: levels, walk =>
    let price := legPrice order.leg level.price
    if order.beyond price then .ok walk
    else
      let fill := order.fillable policy level.quantity.raw (walk.consumed (order.key price))
        walk.execution.quantity
      if fill = 0 then walkLevels policy order levels walk
      else do
        let walk ← walk.take policy order price fill
        if walk.execution.quantity < order.quantity then walkLevels policy order levels walk
        else .ok walk

/-- The side of a book that an order takes from. -/
def WalkOrder.side (order : WalkOrder) : Side :=
  if order.leg.outcome.isYes != order.sell then .ask else .bid

/-- The levels of a market. -/
def shownLevels (state : MarketState) (marketId : MarketId) (side : Side) : List Level :=
  match state.findBook marketId with
  | none => []
  | some book => book.visibleLevels side

/-- **The walk of an order** through the book of its market. -/
def walk (policy : StudyPolicy) (order : WalkOrder) (state : MarketState)
    (consumed : LiquidityKey → ℕ) : Except StudyException Walk :=
  walkLevels policy order (shownLevels state order.leg.marketId order.side) { consumed }

/-! ### Quotes -/

/-- The levels of a side for the search: each level is cut to what is left of the cap and floored
to the grid, and the levels end when the grid cap is reached. -/
def sizingLevels (cap step : ℕ) (used : Price → ℕ) (yes : Bool) : List Level → ℕ → List BuyLevel
  | [], _ => []
  | level :: levels, total =>
    let price := outcomePrice yes level.price
    let take : Quantity := ⟨min (level.quantity.raw - used price) (cap - total) / step * step,
      (Nat.div_mul_le_self _ _).trans ((Nat.min_le_left _ _).trans
        ((Nat.sub_le _ _).trans level.quantity.le_max))⟩
    let rest :=
      if total + take.raw < cap / step * step then
        sizingLevels cap step used yes levels (total + take.raw)
      else []
    if take.raw = 0 then rest else ⟨price, take⟩ :: rest

/-- How often quantities were evaluated and intervals pruned. -/
structure SizingCounters where
  evaluations : ℕ := 0
  pruned : ℕ := 0
  deriving DecidableEq, Repr

section Quote

variable (policy : StudyPolicy)

/-- The limits of a search. -/
def StudyPolicy.limits (available : Cash) : SizingLimits where
  cap := policy.quantityCap
  step := policy.quantityStep
  available := available
  minimumMargin := policy.minMargin
  maxEvaluations := policy.maxSizingEvaluations

/-- The ladder of a leg. -/
def sizingDepth (consumed : LiquidityKey → ℕ) (state : MarketState) (leg : PayoffLegTemplate) :
    BuyDepth where
  levels :=
    let yes := leg.outcome.isYes
    sizingLevels policy.quantityCap.raw policy.quantityStep.raw
      (fun price => consumed ⟨leg.marketId, leg.outcome, price.raw⟩) yes
      (shownLevels state leg.marketId (if yes then .ask else .bid)) 0
  fees := policy.fees leg.marketId

/-- **The quote of a pair**, or the reason why there is none. -/
def optimalQuote (consumed : LiquidityKey → ℕ) (available : Cash) (counters : SizingCounters)
    (legs : Fin 2 → PayoffLegTemplate) (state : MarketState) :
    Except StudyException (Except String SizedPair × SizingCounters) :=
  let result := sizeBuyPair (fun leg => sizingDepth policy consumed state (legs leg))
    (policy.limits available)
  if uint64Max - result.evaluatedQuantities < counters.evaluations ∨
      uint64Max - result.intervalsPruned < counters.pruned then invalid "sizing counter overflow"
  else
    let counters : SizingCounters := ⟨counters.evaluations + result.evaluatedQuantities,
      counters.pruned + result.intervalsPruned⟩
    match result.status, result.quote with
    | .optimal, some quote => .ok (.ok quote, counters)
    | .noPositiveMargin, _ => .ok (.error "non_positive_costed_margin", counters)
    | .noDepth, _ => .ok (.error "no_depth", counters)
    | .insufficientCash, _ => .ok (.error "insufficient_cash", counters)
    | .searchBudgetExceeded, _ => .ok (.error "sizing_search_budget_exceeded", counters)
    | _, _ => invalid "net sizing input/arithmetic invariant"

end Quote

end EventMarket.Session
