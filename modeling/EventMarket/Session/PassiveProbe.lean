import EventMarket.Core.PassiveQueue
import EventMarket.Session.BasketObservation

/-!
# Probing a passive entry

The probe asks what a resting order on one leg of a basket would have done. At a signal it chooses
a leg, a price and a quantity; every scenario then lets the same order rest in its own queue, fills
it from the public trades, and buys the other legs from the books after a delay. A scenario is
settled when its legs are bought, and censored when the observation cannot tell how it would have
ended. A scenario with an incomplete basket halts the probe.

## Main definitions

* `ProbePolicy`, `ProbeScenario`, `PassiveProbe`: the policy and the state.
* `PassiveProbe.select`: the choice of an entry.
* `PassiveProbe.advance`, `PassiveProbe.onTrade`, `PassiveProbe.censor`: an open entry.
* `PassiveProbe.before`, `PassiveProbe.after`, `PassiveProbe.finish`, `PassiveProbe.report`: the
  calls of the observer.
-/

namespace EventMarket.Session

open Book Core Market

/-! ### The policy -/

/-- The policy of a probe; times are in nanoseconds. -/
structure ProbePolicy where
  basket : BasketPolicy
  entryDelay : ℕ
  rest : ℕ
  cancelDelay : ℕ
  hedgeDelays : List ℕ
  reconcile : ℕ
  maxGap : ℕ
  lookback : ℕ
  clockError : ℕ
  spread : ℕ
  margin : Cash
  maker : ℕ
  maxAttempts : ℕ

namespace ProbePolicy

variable (policy : ProbePolicy)

/-- The positions of the baskets. -/
abbrev BasketIndex : Type := Fin policy.basket.screen.baskets.length

/-- Every delay of the grid is tried with both queues. -/
def grid : List (ℕ × Bool) :=
  policy.hedgeDelays.flatMap fun delay => [(delay, false), (delay, true)]

/-- The positions of the scenarios. -/
abbrev ScenarioIndex : Type := Fin policy.grid.length

def market (index : policy.BasketIndex) (leg : Fin 3) : MarketId :=
  (policy.basket.screen.basket index).markets leg

def fee (marketId : MarketId) : FeePolicy := policy.basket.screen.fee marketId

/-- The fees of a resting order. -/
def makerFee (marketId : MarketId) : FeePolicy where
  coefficientPpm := policy.maker
  balanceQuantumMicro := (policy.fee marketId).balanceQuantumMicro

/-- Whether the probe keeps a cache of the market. -/
def knows (marketId : MarketId) : Bool :=
  decide (marketId ∈ policy.basket.screen.fees.map Prod.fst)

def cap : Quantity := policy.basket.screen.limits.cap

def initialCash : ℕ := policy.basket.screen.limits.available.raw

def limits (available : Cash) : SizingLimits where
  cap := policy.cap
  step := ⟨100, Quantity.scale_le_max⟩
  available
  minimumMargin := policy.margin
  maxEvaluations := 100

end ProbePolicy

/-- A millisecond. -/
def nanosPerMilli : ℕ := 1000000

/-! ### The state -/

/-- What is kept of a market: as a YES (`0`) and as a NO (`1`), the levels to buy from, the best
bid with its quantity, and the time of the last trade against that bid. -/
structure Cached where
  depth : Fin 2 → List BuyLevel := fun _ => []
  bid : Fin 2 → Option Price := fun _ => none
  queue : Fin 2 → ℕ := fun _ => 0
  lastTrade : Fin 2 → ℤ := fun _ => -1
  updated : ℤ := -1
  valid : Bool := false

/-- An order on one leg of a basket; the wall clock is that of its activation. -/
structure Entry (policy : ProbePolicy) where
  basket : policy.BasketIndex
  leg : Fin 3
  price : Price
  quantity : ℕ
  signal : ℤ
  activation : ℤ
  expiry : ℤ
  wall : ℤ
  predicted : ℤ

namespace Entry

variable {policy : ProbePolicy}

def market (entry : Entry policy) : MarketId := policy.market entry.basket entry.leg

def side (entry : Entry policy) : Fin 2 := Observation.sideOf entry.leg

/-- The other legs in the order in which they are bought. -/
def hedgeLegs (entry : Entry policy) : List (ℕ × Fin 3) :=
  [1, 2].zip ((List.finRange 3).filter (· ≠ entry.leg))

end Entry

structure ProbeScenario where
  favorable : Bool
  delay : ℕ
  cash : ℤ
  done : Bool := false
  closed : Bool := false
  halted : Bool := false
  filled : ℕ := 0
  debit : ℕ := 0
  closeTime : ℤ := 0
  conditionalMargin : ℤ := 0
  floor : ℕ := 0
  spent : ℕ := 0
  residual : ℕ := 0
  holdings : Fin 3 → ℕ := fun _ => 0
  hedged : Fin 3 → Bool := fun _ => false
  queue : Option PassiveQueue := none
  accumulator : FeeAccumulator := {}
  fills : ℕ := 0
  completed : ℕ := 0
  empty : ℕ := 0
  censored : ℕ := 0

/-- The accounts of a scenario at the end. -/
structure ScenarioReport where
  scenario : ℕ
  queueModel : String
  hedgeLegDelayNs : ℕ
  modeledFillEvents : ℕ
  completedBaskets : ℕ
  unfilledAttempts : ℕ
  censoredAttempts : ℕ
  cashRemainingMicro : ℤ
  cashSpentMicro : ℕ
  conditionalPayoutFloorMicro : ℕ
  conditionalMarginMicro : ℤ
  unresolvedInventoryCenticontracts : ℕ
  haltedOnResidual : Bool

/-- The report of a scenario by its position. -/
def ProbeScenario.report (scenario : ProbeScenario) (index : ℕ) : ScenarioReport where
  scenario := index
  queueModel := if scenario.favorable then "unmatched_reductions_ahead_sensitivity"
    else "trades_only_priority"
  hedgeLegDelayNs := scenario.delay
  modeledFillEvents := scenario.fills
  completedBaskets := scenario.completed
  unfilledAttempts := scenario.empty
  censoredAttempts := scenario.censored
  cashRemainingMicro := scenario.cash
  cashSpentMicro := scenario.spent
  conditionalPayoutFloorMicro := scenario.floor
  conditionalMarginMicro := scenario.conditionalMargin
  unresolvedInventoryCenticontracts := scenario.residual
  haltedOnResidual := scenario.halted

/-- The counters of a probe at the end. -/
structure ProbeReport where
  records : ℕ
  publicTradesInCapture : ℕ
  publicTradesAnalyzed : ℕ
  excludedTrades : ℕ
  tradeExclusionReasons : String → ℕ
  attempts : ℕ
  receiveMinusExchangeMsMin : Option ℤ
  receiveMinusExchangeMsMax : Option ℤ
  attemptBudgetReached : Bool
  candidateSizesEvaluated : ℕ
  rejectedWithoutRecentTrade : ℕ
  rejectedSpread : ℕ
  aggressivePositiveStates : ℕ
  continuityFailed : Bool
  policyExpired : Bool
  scenarios : List ScenarioReport

/-- The rows of the trace. -/
inductive ProbeRow (policy : ProbePolicy) where
  | start
  | signal (attempt : ℕ) (entry : Entry policy)
  | resting (attempt : ℕ) (index : policy.ScenarioIndex) (time : ℤ) (ahead : ℕ)
  | modeledFill (attempt : ℕ) (index : policy.ScenarioIndex) (time : ℤ) (tradeId : String)
      (quantity debit : ℕ)
  | hedge (attempt : ℕ) (index : policy.ScenarioIndex) (time : ℤ) (leg : Fin 3)
      (quantity debit : ℕ)
  | outcome (attempt : ℕ) (index : policy.ScenarioIndex) (time : ℤ) (holdings : Fin 3 → ℕ)
      (debit : ℕ) (fullyHedged : Bool) (conditionalMargin : Option ℤ)
  | censored (attempt : ℕ) (time : ℤ) (reason : String)
  | complete (report : ProbeReport)

structure PassiveProbe (policy : ProbePolicy) where
  scenarios : policy.ScenarioIndex → ProbeScenario
  markets : MarketId → Cached := fun _ => {}
  seen : List String := []
  exclusions : String → ℕ := fun _ => 0
  entry : Option (Entry policy) := none
  generation : Option ℕ := none
  deadline : Option ℤ := none
  lastWall : Option ℤ := none
  offsetMin : Option ℤ := none
  offsetMax : Option ℤ := none
  lastTime : ℤ := -1
  lastAttemptEnd : ℤ := -1
  attempts : ℕ := 0
  records : ℕ := 0
  totalTrades : ℕ := 0
  publicTrades : ℕ := 0
  excludedTrades : ℕ := 0
  sizes : ℕ := 0
  noTrade : ℕ := 0
  wide : ℕ := 0
  aggressive : ℕ := 0
  trace : List (ProbeRow policy) := [.start]
  expired : Bool := false
  halted : Bool := false
  finished : Bool := false
  continuityFailed : Bool := false

namespace PassiveProbe

variable {policy : ProbePolicy}

/-- The probe at its start, every scenario with the cash of the policy. -/
def initial (policy : ProbePolicy) : PassiveProbe policy where
  scenarios := fun index =>
    { favorable := (policy.grid.get index).2
      delay := (policy.grid.get index).1
      cash := policy.initialCash }

def setScenario (self : PassiveProbe policy) (index : policy.ScenarioIndex)
    (scenario : ProbeScenario) : PassiveProbe policy :=
  { self with scenarios := Function.update self.scenarios index scenario }

def setMarket (self : PassiveProbe policy) (marketId : MarketId) (cache : Cached) :
    PassiveProbe policy :=
  { self with markets := Function.update self.markets marketId cache }

/-- Exceptions that do not name a cause. -/
def failed {α : Type} : Except StudyException α := invalid "passive probe failed"

/-- Write a row, within the budget. -/
def emit (self : PassiveProbe policy) (row : ProbeRow policy) :
    Except StudyException (PassiveProbe policy) :=
  if 100000 < self.trace.length + 1 then invalid "passive trace budget"
  else .ok { self with trace := self.trace ++ [row] }

/-- Forget the books and the trades of all markets. -/
def clear (self : PassiveProbe policy) : PassiveProbe policy :=
  { self with markets := fun marketId =>
      { self.markets marketId with valid := false, lastTrade := fun _ => -1 } }

/-- Take the levels of a book. -/
def update (policy : ProbePolicy) (cache : Cached) (book : OrderBook) (time : ℤ) : Cached :=
  let best (side : Fin 2) : Option Price := if side = 0 then book.bestBid else book.bestAsk
  { cache with
    valid := true
    updated := time
    depth := fun side => (Observation.takeDepth policy.cap.raw side
      (book.visibleLevels (if side = 0 then .ask else .bid)) ([], 0)).1
    bid := fun side => (best side).map fun price => if side = 0 then price else price.complement
    queue := fun side => ((best side).map fun price =>
      book.quantityAt (if side = 0 then .bid else .ask) price).getD 0 }

/-- The book of a market, if it is valid and not crossed. -/
def usableBook (state : MarketState) (marketId : MarketId) : Option OrderBook :=
  (Observation.validBook state marketId).filter fun book => !Observation.crossedBook book

/-! ### The choice of an entry -/

/-- The counters of a search for an entry, and the best one found. -/
structure Selection (policy : ProbePolicy) where
  selected : Option (Entry policy) := none
  best : ℤ := 0
  sizes : ℕ := 0
  noTrade : ℕ := 0
  wide : ℕ := 0
  aggressive : ℕ := 0

/-- The smallest cash of all scenarios. -/
def available (self : PassiveProbe policy) : ℤ :=
  (List.finRange _).foldl (fun cash index => min cash (self.scenarios index).cash)
    policy.initialCash

/-- The ladders of a basket with the fees of a taker. -/
def depthOf (self : PassiveProbe policy) (index : policy.BasketIndex) (leg : Fin 3) : BuyDepth where
  levels := (self.markets (policy.market index leg)).depth (Observation.sideOf leg)
  fees := policy.fee (policy.market index leg)

/-- Whether the books of a basket are valid and newer than the last attempt. -/
def fresh (self : PassiveProbe policy) (index : policy.BasketIndex) : Bool :=
  (List.finRange 3).all fun leg =>
    let cache := self.markets (policy.market index leg)
    cache.valid && decide (self.lastAttemptEnd < cache.updated)

/-- The best bid of a leg, when it is positive and below the best ask by at most the spread. -/
def restingPrice (self : PassiveProbe policy) (index : policy.BasketIndex) (leg : Fin 3) :
    Option Price :=
  let cache := self.markets (policy.market index leg)
  match cache.bid (Observation.sideOf leg), cache.depth (Observation.sideOf leg) with
  | some bid, ask :: _ =>
    if bid.raw = 0 ∨ ask.price.raw ≤ bid.raw ∨ policy.spread < ask.price.raw - bid.raw then none
    else some bid
  | _, _ => none

/-- The ladders of a basket when one leg rests at a price. -/
def hypothetical (self : PassiveProbe policy) (index : policy.BasketIndex) (resting : Fin 3)
    (bid : Price) : Fin 3 → BuyDepth :=
  Function.update (self.depthOf index) resting
    ⟨[⟨bid, policy.cap⟩], policy.makerFee (policy.market index resting)⟩

/-- Consider an entry on one leg of a basket. -/
def selectLeg (self : PassiveProbe policy) (time wall : ℤ) (available : Cash)
    (index : policy.BasketIndex) (selection : Selection policy) (leg : Fin 3) :
    Except StudyException (Selection policy) :=
  match self.restingPrice index leg with
  | none => .ok { selection with wide := selection.wide + 1 }
  | some bid =>
    let lastTrade := (self.markets (policy.market index leg)).lastTrade (Observation.sideOf leg)
    if lastTrade < 0 ∨ (policy.lookback : ℤ) < time - lastTrade then
      .ok { selection with noTrade := selection.noTrade + 1 }
    else
      let sized := sizeBuyBasket (self.hypothetical index leg bid) (policy.limits available)
      let selection := { selection with sizes := selection.sizes + sized.evaluatedQuantities }
      if sized.status = .searchBudgetExceeded ∨ sized.status = .arithmeticError ∨
          sized.status = .invalidInput then invalid "passive sizing incomplete"
      else
        match sized.quote with
        | none => .ok selection
        | some quote =>
          if quote.netMarginMicro ≤ selection.best then .ok selection
          else
            .ok { selection with
              best := quote.netMarginMicro
              selected := some
                { basket := index
                  leg
                  price := bid
                  quantity := quote.quantity
                  signal := time
                  activation := time + policy.entryDelay
                  expiry := time + policy.entryDelay + policy.rest + policy.cancelDelay
                  wall := wall + policy.entryDelay
                  predicted := quote.netMarginMicro } }

/-- Consider the legs of a basket. -/
def selectBasket (self : PassiveProbe policy) (time wall : ℤ) (available : Cash)
    (selection : Selection policy) (index : policy.BasketIndex) :
    Except StudyException (Selection policy) :=
  if !self.fresh index then .ok selection
  else
    let immediate := sizeBuyBasket (self.depthOf index) (policy.limits available)
    let selection := if immediate.quote.isSome then
        { selection with aggressive := selection.aggressive + 1 }
      else selection
    (List.finRange 3).foldlM (self.selectLeg time wall available index) selection

/-- A scenario at the start of an attempt. -/
def reset (scenario : ProbeScenario) : ProbeScenario :=
  { scenario with
    done := false
    closed := false
    filled := 0
    debit := 0
    holdings := fun _ => 0
    hedged := fun _ => false
    queue := none
    accumulator := {} }

/-- Start an attempt. -/
def signal (self : PassiveProbe policy) (entry : Entry policy) :
    Except StudyException (PassiveProbe policy) :=
  { self with
    entry := some entry
    attempts := self.attempts + 1
    scenarios := fun index => reset (self.scenarios index) }.emit
    (.signal (self.attempts + 1) entry)

/-- Look for an entry among the baskets of a market; all scenarios must be able to pay for it. -/
def select (self : PassiveProbe policy) (marketId : MarketId) (time wall : ℤ) :
    Except StudyException (PassiveProbe policy) :=
  if self.available ≤ 0 then .ok self
  else if policy.basket.screen.dependencies marketId = [] then failed
  else
    match Cash.fromRaw self.available with
    | none => failed
    | some available => do
      let selection ← (policy.basket.screen.dependencies marketId).foldlM
        (self.selectBasket time wall available) {}
      let self := { self with
        sizes := self.sizes + selection.sizes
        noTrade := self.noTrade + selection.noTrade
        wide := self.wide + selection.wide
        aggressive := self.aggressive + selection.aggressive }
      match selection.selected with
      | none => .ok self
      | some entry => self.signal entry

/-! ### The end of an attempt -/

/-- The order is gone; without a fill the attempt is over. -/
def closeEntry (scenario : ProbeScenario) (time : ℤ) : ProbeScenario :=
  let closed := { scenario with closed := true, closeTime := time }
  if scenario.filled = 0 then { closed with done := true, empty := closed.empty + 1 } else closed

/-- The baskets that the holdings complete. -/
def completeBaskets (holdings : Fin 3 → ℕ) : ℕ := min (min (holdings 0) (holdings 1)) (holdings 2)

/-- Everything that is held. -/
def inventory (holdings : Fin 3 → ℕ) : ℕ := holdings 0 + holdings 1 + holdings 2

def settle (self : PassiveProbe policy) (index : policy.ScenarioIndex) (time : ℤ) :
    Except StudyException (PassiveProbe policy) :=
  let scenario := self.scenarios index
  let complete := completeBaskets scenario.holdings
  let margin : ℤ := (complete * 20000 : ℕ) - scenario.debit
  if complete = scenario.filled then
    (self.setScenario index { scenario with
      done := true
      completed := scenario.completed + 1
      floor := scenario.floor + complete * 20000
      conditionalMargin := scenario.conditionalMargin + margin }).emit
      (.outcome self.attempts index time scenario.holdings scenario.debit true (some margin))
  else
    ({ self with halted := true }.setScenario index { scenario with
      done := true
      halted := true
      residual := scenario.residual + inventory scenario.holdings }).emit
      (.outcome self.attempts index time scenario.holdings scenario.debit false none)

/-- The end of a scenario that cannot be decided; what was filled stays as inventory. -/
def censorScenario (scenario : ProbeScenario) : ProbeScenario :=
  if scenario.done then scenario
  else
    let censored := { scenario with censored := scenario.censored + 1, done := true }
    if scenario.filled = 0 then censored
    else { censored with
      halted := true
      residual := scenario.residual + inventory scenario.holdings }

/-- End the attempt in all scenarios that are not done. -/
def censor (self : PassiveProbe policy) (time : ℤ) (reason : String) :
    Except StudyException (PassiveProbe policy) :=
  match self.entry with
  | none => .ok self
  | some _ => do
    let self ← { self with
      scenarios := fun index => censorScenario (self.scenarios index)
      halted := self.halted || (List.finRange _).any fun index =>
        !(self.scenarios index).done && decide ((self.scenarios index).filled ≠ 0) }.emit
      (.censored self.attempts time reason)
    .ok { self with entry := none, lastAttemptEnd := time }

/-! ### The timers of an attempt -/

/-- A quantity bought and what it costs. -/
structure Cost where
  quantity : ℕ := 0
  debit : ℕ := 0
  deriving DecidableEq, Repr

/-- Buy a quantity level by level, as far as the levels go. -/
def buyLevels (fee : FeePolicy) (desired : ℕ) :
    List BuyLevel → Cost → FeeAccumulator → Except StudyException Cost
  | [], out, _ => .ok out
  | level :: levels, out, accumulator =>
    let quantity := min (desired - out.quantity) level.quantity.raw
    if quantity = 0 then .ok out
    else
      match chargeBuyFill quantity level.price fee accumulator with
      | none => invalid "passive hedge arithmetic"
      | some (charge, accumulator) =>
        buyLevels fee desired levels ⟨out.quantity + quantity, out.debit + charge.debit⟩ accumulator

def buy (levels : List BuyLevel) (fee : FeePolicy) (desired : ℕ) : Except StudyException Cost :=
  buyLevels fee desired levels {} {}

/-- Whether an order can still rest at the price of the entry. -/
def canRest (self : PassiveProbe policy) (entry : Entry policy) : Bool :=
  let cache := self.markets entry.market
  cache.valid && decide (cache.bid entry.side = some entry.price) &&
    match cache.depth entry.side with
    | [] => false
    | ask :: _ => decide (entry.price.raw < ask.price.raw)

/-- When its time has come, the order rests at the end of the queue. -/
def activate (self : PassiveProbe policy) (entry : Entry policy) (index : policy.ScenarioIndex)
    (time : ℤ) : Except StudyException (PassiveProbe policy) :=
  let scenario := self.scenarios index
  if scenario.queue.isSome ∨ time < entry.activation then .ok self
  else if self.canRest entry = false then
    .ok (self.setScenario index { scenario with done := true, censored := scenario.censored + 1 })
  else
    let displayed := (self.markets entry.market).queue entry.side
    (self.setScenario index { scenario with
      queue := some (.start displayed scenario.favorable policy.reconcile) }).emit
      (.resting self.attempts index entry.activation displayed)

/-- Let time pass in the queue, and close the order when it has expired. -/
def expireEntry (entry : Entry policy) (scenario : ProbeScenario) (time : ℤ) : ProbeScenario :=
  let scenario := { scenario with queue := scenario.queue.map fun queue => queue.advance time }
  if scenario.closed = false ∧ entry.expiry ≤ time then closeEntry scenario entry.expiry
  else scenario

/-- What buying a leg costs now; nothing is bought without a valid book or without the cash. -/
def hedgeCost (self : PassiveProbe policy) (entry : Entry policy) (scenario : ProbeScenario)
    (leg : Fin 3) : Except StudyException Cost :=
  let marketId := policy.market entry.basket leg
  let cache := self.markets marketId
  let cost := if cache.valid then
      buy (cache.depth (Observation.sideOf leg)) (policy.fee marketId) scenario.filled
    else .ok {}
  cost.map fun cost => if scenario.cash < cost.debit then {} else cost

/-- Buy one of the other legs when it is due. -/
def hedge (time : ℤ) (entry : Entry policy) (index : policy.ScenarioIndex)
    (self : PassiveProbe policy) (ordered : ℕ × Fin 3) :
    Except StudyException (PassiveProbe policy) :=
  let (ordinal, leg) := ordered
  let scenario := self.scenarios index
  let due := scenario.closeTime + ordinal * scenario.delay
  if scenario.hedged leg ∨ time < due then .ok self
  else do
    let cost ← self.hedgeCost entry scenario leg
    (self.setScenario index { scenario with
      hedged := Function.update scenario.hedged leg true
      holdings := Function.update scenario.holdings leg cost.quantity
      cash := scenario.cash - cost.debit
      debit := scenario.debit + cost.debit
      spent := scenario.spent + cost.debit }).emit
      (.hedge self.attempts index due leg cost.quantity cost.debit)

/-- Buy the other legs of a closed order, and settle the scenario when all are bought. -/
def hedgeAll (self : PassiveProbe policy) (entry : Entry policy) (index : policy.ScenarioIndex)
    (time : ℤ) : Except StudyException (PassiveProbe policy) := do
  let self ← entry.hedgeLegs.foldlM (hedge time entry index) self
  if entry.hedgeLegs.all fun ordered => (self.scenarios index).hedged ordered.2 then
    self.settle index time
  else .ok self

/-- Let time pass in one scenario. -/
def advanceScenario (time : ℤ) (entry : Entry policy) (self : PassiveProbe policy)
    (index : policy.ScenarioIndex) : Except StudyException (PassiveProbe policy) :=
  if (self.scenarios index).done then .ok self
  else do
    let self ← self.activate entry index time
    if (self.scenarios index).done then .ok self
    else
      let scenario := expireEntry entry (self.scenarios index) time
      let self := self.setScenario index scenario
      if scenario.closed = false ∨ scenario.done then .ok self
      else self.hedgeAll entry index time

/-- Let time pass; the attempt is over when all scenarios are done. -/
def advance (self : PassiveProbe policy) (time : ℤ) :
    Except StudyException (PassiveProbe policy) :=
  match self.entry with
  | none => .ok self
  | some entry => do
    let self ← (List.finRange _).foldlM (advanceScenario time entry) self
    if (List.finRange _).all fun index => (self.scenarios index).done then
      .ok { self with entry := none, lastAttemptEnd := time }
    else .ok self

/-! ### Public trades -/

/-- Leave a trade out of the analysis. -/
def exclude (self : PassiveProbe policy) (reason : String) : PassiveProbe policy :=
  { self with
    excludedTrades := self.excludedTrades + 1
    exclusions := Function.update self.exclusions reason (self.exclusions reason + 1) }

/-- Fill the order of one scenario. -/
def fillEntry (self : PassiveProbe policy) (entry : Entry policy) (index : policy.ScenarioIndex)
    (time : ℤ) (tradeId : String) (quantity : ℕ) : Except StudyException (PassiveProbe policy) :=
  let scenario := self.scenarios index
  match chargeBuyFill quantity entry.price (policy.makerFee entry.market) scenario.accumulator with
  | none => invalid "passive entry funding invariant"
  | some (charge, accumulator) =>
    if scenario.cash < charge.debit then invalid "passive entry funding invariant"
    else do
      let filled := { scenario with
        accumulator
        filled := scenario.filled + quantity
        holdings := Function.update scenario.holdings entry.leg
          (scenario.holdings entry.leg + quantity)
        cash := scenario.cash - charge.debit
        debit := scenario.debit + charge.debit
        spent := scenario.spent + charge.debit
        fills := scenario.fills + 1 }
      let self ← (self.setScenario index filled).emit
        (.modeledFill self.attempts index time tradeId quantity charge.debit)
      .ok (if filled.filled = entry.quantity then self.setScenario index (closeEntry filled time)
        else self)

/-- A trade at the price of the order in one scenario. -/
def tradeScenario (time : ℤ) (trade : PublicTrade) (entry : Entry policy)
    (self : PassiveProbe policy) (index : policy.ScenarioIndex) :
    Except StudyException (PassiveProbe policy) :=
  let scenario := self.scenarios index
  match scenario.queue with
  | none => .ok self
  | some queue =>
    if scenario.done ∨ scenario.closed then .ok self
    else
      match queue.trade time trade.quantity ((entry.quantity : ℤ) - scenario.filled) with
      | none => failed
      | some (queue, fill) =>
        let self := self.setScenario index { scenario with queue := some queue }
        if fill = 0 then .ok self
        else
          match Quantity.fromRaw fill with
          | none => failed
          | some quantity => self.fillEntry entry index time trade.tradeId quantity.raw

/-- The side whose bid a trade hits. -/
def tradeSide (trade : PublicTrade) : Fin 2 := if trade.takerYes then 1 else 0

/-- Whether a trade takes from the order of the entry. Only trades are attributed to it that come
after its activation even with the largest clock error. -/
def hits (trade : PublicTrade) (entry : Entry policy) : Bool :=
  decide (trade.marketId = entry.market ∧ tradeSide trade = entry.side ∧
    (if tradeSide trade = 0 then (trade.yesPrice : ℤ) else 10000 - trade.yesPrice) =
      entry.price.raw ∧
    (policy.clockError : ℤ) < (trade.exchangeTimeMs : ℤ) * nanosPerMilli - entry.wall)

/-- The reason to leave a trade out because of its times, by its receive minus its exchange time. -/
def clockExclusion (policy : ProbePolicy) (offset : ℤ) : Option String :=
  if offset < -((policy.clockError / nanosPerMilli : ℕ) : ℤ) then some "clock_bound_exceeded"
  else if ((policy.maxGap / nanosPerMilli : ℕ) : ℤ) <
      offset + (policy.clockError / nanosPerMilli : ℕ) then some "stale_trade"
  else none

/-- Note the difference of the clocks at a trade. -/
def noteOffset (self : PassiveProbe policy) (offset : ℤ) : PassiveProbe policy :=
  { self with
    offsetMin := some (self.offsetMin.elim offset fun least => min least offset)
    offsetMax := some (self.offsetMax.elim offset fun greatest => max greatest offset) }

/-- A trade that is not left out. -/
def acceptTrade (self : PassiveProbe policy) (trade : PublicTrade) (time : ℤ) :
    Except StudyException (PassiveProbe policy) :=
  let cache := self.markets trade.marketId
  let self := { self with seen := trade.tradeId :: self.seen }.setMarket trade.marketId
    { cache with lastTrade := Function.update cache.lastTrade (tradeSide trade) time }
  match self.entry with
  | none => .ok self
  | some entry =>
    if hits trade entry then (List.finRange _).foldlM (tradeScenario time trade entry) self
    else .ok self

def onTrade (self : PassiveProbe policy) (trade : PublicTrade) (time wall : ℤ) :
    Except StudyException (PassiveProbe policy) :=
  let self := { self with publicTrades := self.publicTrades + 1 }
  if policy.knows trade.marketId = false then .ok (self.exclude "outside_cohort")
  else
    match trade.blockTrade with
    | none => .ok (self.exclude "unknown_block_status")
    | some true => .ok (self.exclude "block_trade")
    | some false =>
      if int64Max / nanosPerMilli < trade.exchangeTimeMs then
        .ok (self.exclude "invalid_exchange_timestamp")
      else
        let offset := wall.tdiv nanosPerMilli - trade.exchangeTimeMs
        let self := self.noteOffset offset
        match clockExclusion policy offset with
        | some reason => .ok (self.exclude reason)
        | none =>
          if 100000 ≤ self.seen.length then invalid "passive trade identity budget"
          else if trade.tradeId ∈ self.seen then .ok (self.exclude "duplicate_trade")
          else self.acceptTrade trade time

/-! ### The calls of the observer -/

/-- A gap between the records ends the observation. -/
def checkGap (self : PassiveProbe policy) (time : ℤ) :
    Except StudyException (PassiveProbe policy) :=
  if 0 ≤ self.lastTime ∧ (policy.maxGap : ℤ) < time - self.lastTime then
    (self.censor time "record_gap").map fun self =>
      { self.clear with continuityFailed := true, halted := true }
  else .ok self

/-- A change of the connection ends the attempt. -/
def checkConnection (self : PassiveProbe policy) (time : ℤ) (state : MarketState) :
    Except StudyException (PassiveProbe policy) :=
  if !state.connected ∨ state.connectionGeneration ≠ self.generation then
    (self.censor time "connection_change").map clear
  else .ok self

/-- The end of the policy ends the attempt. -/
def checkDeadline (self : PassiveProbe policy) (time : ℤ) :
    Except StudyException (PassiveProbe policy) :=
  match self.deadline with
  | some deadline =>
    if deadline ≤ time then
      (self.censor deadline "policy_expired").map fun self => { self with expired := true }
    else .ok self
  | none => .ok self

def before (self : PassiveProbe policy) (time : ℤ) (state : MarketState) :
    Except StudyException (PassiveProbe policy) :=
  if time < 0 ∨ (0 ≤ self.lastTime ∧ time < self.lastTime) then invalid "passive clock regression"
  else do
    let self ← self.checkGap time
    let self ← self.checkConnection time state
    let self ← self.checkDeadline time
    .ok { self with lastTime := time }

/-- The wall clock of a frame must neither go back nor leave a gap. -/
def bindWall (self : PassiveProbe policy) (time wall : ℤ) :
    Except StudyException (PassiveProbe policy) :=
  let bound :=
    if self.lastWall.any fun last => decide (wall < last ∨ (policy.maxGap : ℤ) < wall - last) then
      (self.censor time "wall_clock_discontinuity").map fun self =>
        { self.clear with continuityFailed := true, halted := true }
    else .ok self
  bound.map fun self => { self with lastWall := some wall }

/-- Map the end of the policy to the clock of the frames. -/
def bindDeadline (self : PassiveProbe policy) (time wall : ℤ) :
    Except StudyException (PassiveProbe policy) :=
  if policy.basket.validUntil ≤ wall then
    (self.censor time "policy_expired").map fun self => { self with expired := true }
  else
    let remaining := policy.basket.validUntil - wall
    if (int64Max : ℤ) - remaining < time then invalid "passive deadline overflow"
    else
      .ok { self with deadline := some (self.deadline.elim (time + remaining) fun deadline =>
        min deadline (time + remaining)) }

/-- A new connection, or none, ends the attempt. -/
def bindGeneration (self : PassiveProbe policy) (time : ℤ) (state : MarketState) :
    Except StudyException (PassiveProbe policy) :=
  if !state.connected ∨ self.generation ≠ state.connectionGeneration then
    (self.censor time "connection_change").map fun self =>
      { self.clear with generation := state.connectionGeneration }
  else .ok self

/-- The queue of one scenario sees the quantity displayed at the price of the order. -/
def depthScenario (time : ℤ) (displayed : ℕ) (self : PassiveProbe policy)
    (index : policy.ScenarioIndex) : Except StudyException (PassiveProbe policy) :=
  let scenario := self.scenarios index
  match scenario.queue with
  | none => .ok self
  | some queue =>
    if scenario.closed ∨ scenario.done then .ok self
    else
      match queue.depth time displayed with
      | none => failed
      | some queue => .ok (self.setScenario index { scenario with queue := some queue })

/-- The book of the market of a frame, after the timers. -/
def bookUpdate (self : PassiveProbe policy) (frame : ReplayFrame) (marketId : MarketId)
    (state : MarketState) : Except StudyException (PassiveProbe policy) :=
  let cache := self.markets marketId
  match usableBook state marketId with
  | none => (self.setMarket marketId { cache with valid := false }).censor frame.timeNs
    "invalid_book"
  | some book =>
    if !frame.applied then .ok self
    else
      let self := self.setMarket marketId (update policy cache book frame.timeNs)
      match self.entry with
      | none => .ok self
      | some entry =>
        if entry.market = marketId then
          let displayed := book.quantityAt (if entry.leg = 0 then .bid else .ask)
            (if entry.leg = 0 then entry.price else entry.price.complement)
          (List.finRange _).foldlM (depthScenario frame.timeNs displayed) self
        else .ok self

/-- The market of a frame, if the probe keeps a cache of it. -/
def knownMarket (policy : ProbePolicy) (frame : ReplayFrame) : Option MarketId :=
  frame.marketId.filter policy.knows

/-- The book, the trade and the signal of a frame, after the timers. -/
def observeBook (self : PassiveProbe policy) (frame : ReplayFrame) (state : MarketState) :
    Except StudyException (PassiveProbe policy) :=
  match knownMarket policy frame with
  | none => .ok self
  | some marketId => self.bookUpdate frame marketId state

def observeTrade (self : PassiveProbe policy) (frame : ReplayFrame) (wall : ℤ) :
    Except StudyException (PassiveProbe policy) :=
  match frame.trade with
  | none => .ok self
  | some trade => self.onTrade trade frame.timeNs wall

def observeSignal (self : PassiveProbe policy) (frame : ReplayFrame) (wall : ℤ) :
    Except StudyException (PassiveProbe policy) :=
  match frame.marketId with
  | none => .ok self
  | some marketId =>
    if self.entry.isNone ∧ self.halted = false ∧ self.attempts < policy.maxAttempts ∧
        frame.applied = true then
      self.select marketId frame.timeNs wall
    else .ok self

/-- A frame that is analyzed. The timers run before its book is taken, so that nothing is bought
from a book that was not there yet. -/
def observe (self : PassiveProbe policy) (frame : ReplayFrame) (wall : ℤ) (state : MarketState) :
    Except StudyException (PassiveProbe policy) := do
  let self ← self.advance frame.timeNs
  let self ← self.observeBook frame state
  let self ← self.observeTrade frame wall
  self.observeSignal frame wall

/-- The market of a frame whose book cannot be used. -/
def brokenMarket (policy : ProbePolicy) (frame : ReplayFrame) (state : MarketState) :
    Option MarketId :=
  (knownMarket policy frame).filter fun marketId => (usableBook state marketId).isNone

/-- A frame with its wall clock. -/
def afterWall (self : PassiveProbe policy) (frame : ReplayFrame) (wall : ℤ) (state : MarketState) :
    Except StudyException (PassiveProbe policy) := do
  let self ← self.bindWall frame.timeNs wall
  let self ← self.bindDeadline frame.timeNs wall
  let self ← self.bindGeneration frame.timeNs state
  if self.expired ∨ self.continuityFailed ∨ !state.connected then .ok self
  else
    match brokenMarket policy frame state with
    | some marketId =>
      (self.setMarket marketId { self.markets marketId with valid := false }).censor
        frame.timeNs "invalid_book"
    | none => self.observe frame wall state

def after (self : PassiveProbe policy) (frame : ReplayFrame) (state : MarketState) :
    Except StudyException (PassiveProbe policy) :=
  let self := { self with
    records := self.records + 1
    totalTrades := if frame.trade.isSome then self.totalTrades + 1 else self.totalTrades }
  match frame.observedWallNs with
  | none => invalid "passive wall binding"
  | some wall =>
    if wall < policy.basket.validFrom then invalid "passive wall binding"
    else self.afterWall frame wall state

/-- Nothing is extrapolated beyond the end of the observation. -/
def finish (self : PassiveProbe policy) (time : ℤ) : Except StudyException (PassiveProbe policy) :=
  (self.censor time "end_of_observation").map fun self => { self with finished := true }

/-- The report of a finished probe. -/
def report (self : PassiveProbe policy) : Except StudyException (PassiveProbe policy) :=
  if self.finished = false then invalid "passive report before finish"
  else
    self.emit <| .complete
      { records := self.records
        publicTradesInCapture := self.totalTrades
        publicTradesAnalyzed := self.publicTrades
        excludedTrades := self.excludedTrades
        tradeExclusionReasons := self.exclusions
        attempts := self.attempts
        receiveMinusExchangeMsMin := self.offsetMin
        receiveMinusExchangeMsMax := self.offsetMax
        attemptBudgetReached := decide (self.attempts = policy.maxAttempts)
        candidateSizesEvaluated := self.sizes
        rejectedWithoutRecentTrade := self.noTrade
        rejectedSpread := self.wide
        aggressivePositiveStates := self.aggressive
        continuityFailed := self.continuityFailed
        policyExpired := self.expired
        scenarios := (List.finRange _).map fun index => (self.scenarios index).report index }

/-- A call of the probe. -/
inductive Call where
  | observed (call : ObserverCall)
  | finish (time : ℤ)
  | report

def step (self : PassiveProbe policy) : Call → Except StudyException (PassiveProbe policy)
  | .observed (.before time state) => self.before time state
  | .observed (.after frame state) => self.after frame state
  | .finish time => self.finish time
  | .report => self.report

end PassiveProbe

end EventMarket.Session
