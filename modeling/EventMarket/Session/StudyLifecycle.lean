import EventMarket.Foundations.Drain
import EventMarket.Foundations.Tally
import EventMarket.Session.LegacyQuote
import EventMarket.Session.ReplayObserver
import EventMarket.Session.StudyPositions

/-!
# The lifecycle of simulated orders

With a lifecycle policy the study simulates the way of every order: it arrives after a delay, and
the study learns what it filled after another one. Both legs of a pair are sent at once, or the
second one after the response to the first, in several attempts if need be. When the acquisition is
over a policy with residual exits may sell what one leg has in excess. Settlements pay the winning
positions.

## Main definitions

* `LifecycleStudy`: a policy with a lifecycle and the constraints it is run on.
* `Attempt`, `Order`, `Event`, `Ledger`, `Row`: what the simulation stores and writes.
* `Simulation`: the state of the simulation.
* `Simulation.decide`, `Simulation.considerExit`, `Simulation.completeSecond`: the decisions.
* `Simulation.arrive`, `Simulation.respond`, `Simulation.settle`: the events.
* `Simulation.process`, `Simulation.drainLifecycle`: the event loop.
* `Simulation.step`, `Simulation.finish`: the calls of the observer.
-/

namespace EventMarket.Session

open Constraint Core Foundations Market StudyPositions

/-! ### The study -/

/-- The two legs of a constraint, by market or in the other order. -/
def compileLegs (reverse : Bool) (templates : List PayoffLegTemplate) :
    Except StudyException (Fin 2 → PayoffLegTemplate) :=
  match templates.mergeSort fun first second => decide (first.marketId ≤ second.marketId) with
  | [first, second] => .ok (if reverse then ![second, first] else ![first, second])
  | _ => invalid "unsupported portfolio"

/-- A policy with a lifecycle, its settlements in the order of their times, and the constraints,
which all have two legs. -/
structure LifecycleStudy where
  policy : StudyPolicy
  lifecycle : LifecyclePolicy
  constraints : ConstraintRegistry
  lifecycle_eq : policy.lifecycle = some lifecycle
  chronological : lifecycle.settlements.Pairwise fun settlement next => settlement.time ≤ next.time
  supported : ∀ id compiled, constraints.find id = some compiled →
    ∃ legs, compileLegs lifecycle.reverseLegs compiled.guaranteedLegTemplates = .ok legs

namespace LifecycleStudy

variable (study : LifecycleStudy)

def compiledLegs (id : ConstraintId) : Option (Fin 2 → PayoffLegTemplate) :=
  (study.constraints.find id).bind fun compiled =>
    (compileLegs study.lifecycle.reverseLegs compiled.guaranteedLegTemplates).toOption

/-- The constraints of a market in the order of their ids. -/
def orderedDependencies (marketId : MarketId) : List ConstraintId :=
  study.constraints.sortedIds.flatMap fun id =>
    match study.constraints.find id with
    | none => []
    | some compiled => (compiled.dependentMarkets.filter (· == marketId)).map fun _ => id

/-- The orders of one attempt: the buys and one exit. -/
def perAttempt : ℕ :=
  (if study.lifecycle.sequential then 1 + study.lifecycle.maximumCompletionOrders else 2) +
    (if study.policy.residualExit.isSome then 1 else 0)

/-- The number of orders that is reserved at the start. -/
def orderBound : ℕ := study.constraints.size * study.perAttempt

end LifecycleStudy

namespace Lifecycle

/-! ### What is stored -/

/-- The fills of a leg after one more order. -/
def aggregate (total fill : Execution) : Execution :=
  { total with
    quantity := total.quantity + fill.quantity
    notional := total.notional + fill.notional
    debit := total.debit + fill.debit
    worstPrice := max total.worstPrice fill.worstPrice
    levels := total.levels + fill.levels }

/-- An attempt at the pair of a constraint. -/
structure Attempt where
  id : ConstraintId
  legs : Fin 2 → PayoffLegTemplate
  generation : ℕ
  quantity : ℕ
  limit : Fin 2 → ℕ
  reserve : Fin 2 → ℕ
  fills : Fin 2 → Execution := fun _ => {}
  started : ℕ
  completionOrders : ℕ := 0
  pendingBuys : ℕ := 0
  exitConsidered : Bool := false

/-- The fills of the first leg above those of the second. -/
def Attempt.difference (attempt : Attempt) : ℤ :=
  ((attempt.fills 0).quantity : ℤ) - (attempt.fills 1).quantity

/-- Whether it is too late for an order that takes a delay. -/
def Attempt.late (attempt : Attempt) (time timeout delay : ℕ) : Bool :=
  decide (time < attempt.started ∨ timeout < time - attempt.started ∨
    timeout - (time - attempt.started) < delay)

/-- One of the legs filled. -/
def Attempt.fill (attempt : Attempt) (leg : Fin 2) (fill : Execution) : Attempt :=
  { attempt with
    fills := Function.update attempt.fills leg (aggregate (attempt.fills leg) fill) }

/-- The response to a buy of one of the legs. -/
def Attempt.confirm (attempt : Attempt) (leg : Fin 2) : Attempt :=
  { attempt with
    pendingBuys := attempt.pendingBuys - 1
    reserve := Function.update attempt.reserve leg 0 }

/-- Another order for the second leg. -/
def Attempt.complete (attempt : Attempt) (needed : ℕ) : Attempt :=
  { attempt with
    reserve := Function.update attempt.reserve 1 needed
    completionOrders := attempt.completionOrders + 1
    pendingBuys := attempt.pendingBuys + 1 }

/-- No more orders for the second leg. -/
def Attempt.stop (attempt : Attempt) : Attempt :=
  { attempt with reserve := Function.update attempt.reserve 1 0 }

/-- The events of the orders that an attempt may still send. -/
def Attempt.stages (maximum : ℕ) (attempt : Attempt) : ℕ :=
  2 * (maximum - attempt.completionOrders + if attempt.exitConsidered then 0 else 1)

instance : Inhabited Attempt :=
  ⟨{ id := 0, legs := fun _ => ⟨0, .yes⟩, generation := 0, quantity := 0, limit := fun _ => 0
     reserve := fun _ => 0, started := 0 }⟩

structure Order where
  attempt : ℕ
  leg : Fin 2
  quantity : ℕ
  limit : ℕ
  reserve : ℕ
  fill : Execution := {}
  arrived : Bool := false
  responded : Bool := false
  sell : Bool := false

instance : Inhabited Order := ⟨{ attempt := 0, leg := 0, quantity := 0, limit := 0, reserve := 0 }⟩

/-- The events of an order that are still to come: its arrival and its response. -/
def Order.stages (order : Order) : ℕ :=
  if order.responded then 0 else if order.arrived then 1 else 2

/-- The arrival of an order, or the response to it. -/
structure Event where
  time : ℕ
  order : ℕ
  response : Bool
  deriving DecidableEq, Repr

/-- Events are handled by their time, then by their order, an arrival before a response. -/
def Event.before (event other : Event) : Bool :=
  decide (event.time < other.time) || decide (event.time = other.time) &&
    (decide (event.order < other.order) || decide (event.order = other.order) &&
      (!event.response || other.response))

/-- The events in the order in which they are handled. -/
def push (event : Event) (events : List Event) : List Event :=
  events.orderedInsert (fun event other => event.before other = true) event

/-- The cash of the study. The debit of a fill and the credit of a sale are unconfirmed until the
response. -/
structure Ledger where
  available : ℤ
  spent : ℤ := 0
  notional : ℤ := 0
  settlementCash : ℤ := 0
  reservedTotal : ℤ := 0
  unconfirmedDebit : ℤ := 0
  exitCredit : ℤ := 0
  exitFees : ℤ := 0
  exitQuantity : ℤ := 0
  exitBasis : ℤ := 0
  unconfirmedCredit : ℤ := 0
  deriving DecidableEq, Repr

namespace Ledger

def reserve (ledger : Ledger) (amount : ℕ) : Ledger :=
  { ledger with
    available := ledger.available - amount
    reservedTotal := ledger.reservedTotal + amount }

def release (ledger : Ledger) (amount : ℕ) : Ledger :=
  { ledger with
    available := ledger.available + amount
    reservedTotal := ledger.reservedTotal - amount }

def buy (ledger : Ledger) (fill : Execution) : Ledger :=
  { ledger with
    spent := ledger.spent + fill.debit
    notional := ledger.notional + fill.notional
    unconfirmedDebit := ledger.unconfirmedDebit + fill.debit }

/-- The response to a buy frees what was reserved for it and not spent. -/
def confirmBuy (ledger : Ledger) (reserve : ℕ) (fill : Execution) : Ledger :=
  { ledger with
    reservedTotal := ledger.reservedTotal - reserve
    unconfirmedDebit := ledger.unconfirmedDebit - fill.debit
    available := ledger.available + ((reserve : ℤ) - fill.debit) }

def sale (ledger : Ledger) (fill : Execution) (basis : ℕ) : Ledger :=
  { ledger with
    exitCredit := ledger.exitCredit + fill.credit
    exitFees := ledger.exitFees + ((fill.notional : ℤ) - fill.credit)
    exitBasis := ledger.exitBasis + basis
    exitQuantity := ledger.exitQuantity + fill.quantity
    unconfirmedCredit := ledger.unconfirmedCredit + fill.credit }

/-- The response to a sale makes its credit available. -/
def confirmSale (ledger : Ledger) (fill : Execution) : Ledger :=
  { ledger with
    unconfirmedCredit := ledger.unconfirmedCredit - fill.credit
    available := ledger.available + fill.credit }

def settle (ledger : Ledger) (payout : ℕ) : Ledger :=
  { ledger with
    settlementCash := ledger.settlementCash + payout
    available := ledger.available + payout }

/-- The check of the ledger. -/
def Conserved (ledger : Ledger) (capital : ℕ) : Prop :=
  0 ≤ ledger.available ∧ 0 ≤ ledger.reservedTotal ∧ 0 ≤ ledger.unconfirmedDebit ∧
    0 ≤ ledger.unconfirmedCredit ∧
    ledger.available + ledger.reservedTotal - ledger.unconfirmedDebit + ledger.unconfirmedCredit =
      capital - ledger.spent + ledger.settlementCash + ledger.exitCredit

instance (ledger : Ledger) (capital : ℕ) : Decidable (ledger.Conserved capital) :=
  inferInstanceAs (Decidable (_ ∧ _))

end Ledger

/-- The rows that the simulation writes. Orders are numbered from one. -/
inductive Row where
  | decision (time : ℕ) (id : ConstraintId) (quantity : ℕ) (limit : Fin 2 → ℕ) (cost : ℕ)
      (margin : ℤ) (reserved : ℕ)
  | intent (sell : Bool) (orderId attempt : ℕ) (leg : Fin 2) (quantity limit reserve arrival : ℕ)
  | arrival (sell : Bool) (orderId : ℕ) (id : ConstraintId) (leg : Fin 2) (time : ℕ)
  | fill (fill : FillRow)
  | exitExecution (orderId time sold basis credit : ℕ)
  | response (sell : Bool) (orderId time filled cancelled cash : ℕ)
  | acquisitionStopped (id : ConstraintId) (reason : String) (unpaired : ℤ)
  | residualHold (id : ConstraintId) (reason : String) (unpaired : ℤ)
  | exitDeclined (id : ConstraintId) (time : ℕ) (reason : String)
  | settlement (marketId : MarketId) (time : ℕ) (yesWins : Bool) (closed payout : ℕ)
  | unobserved (orderId : ℕ) (response : Bool) (time observationEnd : ℕ)

end Lifecycle

open Lifecycle in
/-- The state of the simulation. The events stand in the order in which they are handled. -/
structure Simulation (study : LifecycleStudy) where
  ledger : Ledger
  lastUpdate : MarketId → Option ℕ := fun _ => none
  consumed : LiquidityKey → ℕ := fun _ => 0
  attempts : List Lifecycle.Attempt := []
  attempted : List ConstraintId := []
  declines : List String := []
  evaluated : ℕ := 0
  unobserved : ℕ := 0
  counters : SizingCounters := {}
  orders : List Order := []
  events : List Event := []
  positions : StudyPositions
  settledMarkets : List MarketId := []
  settlementIndex : ℕ := 0
  rows : List Row := []

namespace Simulation

open Lifecycle

variable {study : LifecycleStudy}

/-- The simulation at its start. -/
def initial (study : LifecycleStudy) : Simulation study where
  ledger := { available := study.policy.capital.raw }
  positions := StudyPositions.reserve study.constraints.size

/-- The error that names a check. -/
def reject {α : Type} (text : String) : Except PositionError α := .error (.study (.replay text 0))

/-- An error of a walk or of a quote. -/
def lift {α : Type} (result : Except StudyException α) : Except PositionError α :=
  result.mapError .study

/-- An error of the positions. -/
def onPositions {α : Type} (result : Except StudyPositions.Failure α) : Except PositionError α :=
  result.mapError Prod.fst

def attempt (self : Simulation study) (index : ℕ) : Lifecycle.Attempt :=
  self.attempts.getD index default

def order (self : Simulation study) (index : ℕ) : Order := self.orders.getD index default

def setAttempt (self : Simulation study) (index : ℕ) (attempt : Lifecycle.Attempt) :
    Simulation study :=
  { self with attempts := self.attempts.set index attempt }

def setOrder (self : Simulation study) (index : ℕ) (order : Order) : Simulation study :=
  { self with orders := self.orders.set index order }

def emit (self : Simulation study) (row : Row) : Simulation study :=
  { self with rows := self.rows ++ [row] }

def decline (self : Simulation study) (reason : String) : Simulation study :=
  { self with declines := self.declines ++ [reason] }

def checkCash (self : Simulation study) : Except PositionError (Simulation study) :=
  if self.ledger.Conserved study.policy.capital.raw then .ok self else reject "cash conservation"

/-- A time after a delay. -/
def later (text : String) (time delay : ℕ) : Except PositionError ℕ :=
  if int64Max < time + delay then reject text else .ok (time + delay)

/-- Whether the book of a leg is valid and was updated not too long ago. -/
def fresh (self : Simulation study) (leg : PayoffLegTemplate) (time : ℕ) (state : MarketState) :
    Bool :=
  match state.findBook leg.marketId, self.lastUpdate leg.marketId with
  | some book, some updated =>
    state.connected && decide (book.state = .valid) &&
      decide (updated ≤ time ∧ time - updated ≤ study.policy.maxAge)
  | _, _ => false

/-- Whether a leg of an attempt has a fresh book of the connection of the attempt. -/
def available (self : Simulation study) (attempt : Lifecycle.Attempt)
    (leg : PayoffLegTemplate) (time : ℕ)
    (state : MarketState) : Bool :=
  decide (state.connectionGeneration = some attempt.generation) && self.fresh leg time state

def settled (self : Simulation study) (marketId : MarketId) : Bool :=
  decide (marketId ∈ self.settledMarkets)

/-- Send an order. -/
def submit (self : Simulation study) (attempt : ℕ) (leg : Fin 2)
    (quantity limit reserve arrival : ℕ)
    (sell : Bool) : Simulation study :=
  emit { self with
    events := push ⟨arrival, self.orders.length, false⟩ self.events
    orders := self.orders ++ [{ attempt, leg, quantity, limit, reserve, sell }] }
    (.intent sell (self.orders.length + 1) attempt leg quantity limit reserve arrival)

/-! ### Deciding on a pair -/

/-- Reserve the cash of a leg, and send its order unless it waits for the first one. -/
def reserveLeg (attempt : Lifecycle.Attempt) (self : Simulation study) (leg : Fin 2) (arrival : ℕ) :
    Simulation study :=
  let sent :=
    if study.lifecycle.sequential ∧ leg ≠ 0 then self
    else self.submit self.attempts.length leg attempt.quantity (attempt.limit leg)
      (attempt.reserve leg) arrival false
  { sent with ledger := sent.ledger.reserve (attempt.reserve leg) }

/-- The attempt whose orders were sent. -/
def openAttempt (self : Simulation study) (attempt : Lifecycle.Attempt) : Simulation study :=
  { self with
    attempted := self.attempted ++ [attempt.id]
    attempts := self.attempts ++
      [{ attempt with pendingBuys := if study.lifecycle.sequential then 1 else 2 }] }

/-- Begin an attempt. -/
def enter (self : Simulation study) (attempt : Lifecycle.Attempt) :
    Except PositionError (Simulation study) := do
  let arrival0 ← later "arrival clock overflow" attempt.started (study.policy.latency 0)
  let first := reserveLeg attempt self 0 arrival0
  let arrival1 ← later "arrival clock overflow" attempt.started (study.policy.latency 1)
  let second := reserveLeg attempt first 1 arrival1
  (second.openAttempt attempt).checkCash

/-- The decision to begin an attempt. -/
def announce (self : Simulation study) (attempt : Lifecycle.Attempt) (quote : SizedPair) :
    Simulation study :=
  let cost := (quote.legs 0).debit + (quote.legs 1).debit
  self.emit (.decision attempt.started attempt.id quote.quantity attempt.limit cost
    ((quote.quantity * 10000 : ℤ) - cost) (attempt.reserve 0 + attempt.reserve 1))

/-- Decide on the pair of a constraint. -/
protected def decide (self : Simulation study) (id : ConstraintId) (time : ℕ)
    (state : MarketState) :
    Except PositionError (Simulation study) :=
  let self := { self with evaluated := self.evaluated + 1 }
  match study.compiledLegs id with
  | none => .error .outOfRange
  | some legs =>
    if !self.fresh (legs 0) time state || !self.fresh (legs 1) time state then
      .ok (self.decline "stale_or_missing_book")
    else if self.settled (legs 0).marketId || self.settled (legs 1).marketId then
      .ok (self.decline "settled_market")
    else do
      let (selected, counters) ← lift (selectQuote study.policy self.consumed state legs
        self.ledger.available self.counters)
      let self := { self with counters }
      match selected with
      | .error reason => .ok (self.decline reason)
      | .ok quote =>
        -- A fresh book has a connection, which has a generation.
        let attempt : Lifecycle.Attempt :=
          { id, legs, generation := state.connectionGeneration.getD 0, quantity := quote.quantity
            limit := fun leg => (quote.legs leg).limit.raw
            reserve := fun leg => (quote.legs leg).reservation, started := time }
        (self.announce attempt quote).enter attempt

/-! ### Leaving a residual -/

/-- What an exit would sell of the leg in excess, or the reason why there is none. -/
def exitChoice (self : Simulation study) (config : ResidualExitPolicy) (index time : ℕ)
    (state : MarketState) : Except PositionError (Except String (Fin 2 × Execution)) :=
  let attempt := self.attempt index
  let legIndex : Fin 2 := if 0 < attempt.difference then 0 else 1
  let leg := attempt.legs legIndex
  if attempt.difference = 0 then .ok (.error "balanced")
  else if !config.reduce then .ok (.error "hold_policy")
  else if attempt.late time config.timeout config.latency then .ok (.error "exit_timeout")
  else if self.settled leg.marketId then .ok (.error "settled_market")
  else if !self.available attempt leg time state then .ok (.error "unavailable_book")
  else do
    let owned ← onPositions (self.positions.quantity index legIndex)
    let order : WalkOrder :=
      { leg, sell := true, quantity := min attempt.difference.natAbs owned
        limit := config.minimumPrice, execute := false }
    let quote ← lift (walk study.policy order state self.consumed)
    if quote.execution.quantity = 0 then .ok (.error "no_depth_at_exit_price")
    else .ok (.ok (legIndex, quote.execution))

def markExit (self : Simulation study) (index : ℕ) : Simulation study :=
  self.setAttempt index { self.attempt index with exitConsidered := true }

/-- When the acquisition is over, sell what one leg has in excess: once, and only what is not
matched. -/
def considerExit (self : Simulation study) (index time : ℕ) (state : MarketState) :
    Except PositionError (Simulation study) :=
  match study.policy.residualExit with
  | none => .ok self
  | some config =>
    let attempt := self.attempt index
    if attempt.exitConsidered then reject "duplicate exit decision"
    else if attempt.pendingBuys ≠ 0 then reject "exit before acquisition responses"
    else do
      let marked := self.markExit index
      let choice ← marked.exitChoice config index time state
      match choice with
      | .error reason => .ok (marked.emit (.exitDeclined attempt.id time reason))
      | .ok (leg, quote) => do
        let arrival ← later "exit clock overflow" time config.latency
        .ok (marked.submit index leg quote.quantity quote.worstPrice 0 arrival true)

/-! ### Completing a pair -/

/-- The acquisition of an attempt is over; what is reserved for its second leg is free. -/
def stopAcquisition (self : Simulation study) (index : ℕ) (reason : String) : Simulation study :=
  let attempt := self.attempt index
  let ledger := self.ledger.release (attempt.reserve 1)
  ({ self with ledger }.setAttempt index attempt.stop).emit
    (if study.policy.residualExit.isSome
      then .acquisitionStopped attempt.id reason attempt.difference
    else .residualHold attempt.id reason attempt.difference)

def finishAcquisition (self : Simulation study) (index : ℕ) (reason : String) (time : ℕ)
    (state : MarketState) : Except PositionError (Simulation study) :=
  (self.stopAcquisition index reason).considerExit index time state

/-- What the next order for the second leg would buy and need, or the reason why there is none. -/
def completionChoice (self : Simulation study) (index time : ℕ) (state : MarketState) :
    Except PositionError (Except String (Execution × ℕ)) :=
  let attempt := self.attempt index
  let config := study.lifecycle
  let leg := attempt.legs 1
  if attempt.difference ≤ 0 then .ok (.error "balanced")
  else if attempt.late time config.completionTimeout (study.policy.latency 1) ||
      decide (config.maximumCompletionOrders ≤ attempt.completionOrders) then
    .ok (.error "completion_budget")
  else if !self.available attempt leg time state || self.settled leg.marketId then
    .ok (.error "unavailable_book")
  else do
    let order : WalkOrder :=
      { leg, quantity := attempt.difference.toNat, limit := 10000, execute := false }
    let walked ← lift (walk study.policy order state self.consumed)
    let quote := walked.execution
    if quote.quantity = 0 then .ok (.error "no_depth")
    else
      let totalCost := (attempt.fills 0).debit + (attempt.fills 1).debit + quote.debit
      let matchedPayout := ((attempt.fills 1).quantity + quote.quantity) * 10000
      if (config.completionLossLimit : ℤ) < (totalCost : ℤ) - matchedPayout then
        .ok (.error "completion_loss_limit")
      else do
        let needed ← lift (reservation study.policy leg quote.quantity quote.worstPrice)
        if self.ledger.available + attempt.reserve 1 < needed then .ok (.error "insufficient_cash")
        else .ok (.ok (quote, needed))

/-- Send the next order for the second leg. -/
def sendCompletion (self : Simulation study) (index : ℕ) (quote : Execution) (needed arrival : ℕ) :
    Simulation study :=
  let attempt := self.attempt index
  let ledger := (self.ledger.release (attempt.reserve 1)).reserve needed
  ({ self with ledger }.setAttempt index (attempt.complete needed)).submit index 1
    quote.quantity quote.worstPrice needed arrival false

/-- After a response in a sequential attempt, buy more of the second leg, or end the
acquisition. -/
def completeSecond (self : Simulation study) (index time : ℕ) (state : MarketState) :
    Except PositionError (Simulation study) := do
  let choice ← self.completionChoice index time state
  match choice with
  | .error reason => self.finishAcquisition index reason time state
  | .ok (quote, needed) => do
    let arrival ← later "completion clock overflow" time (study.policy.latency 1)
    .ok (self.sendCompletion index quote needed arrival)

/-! ### Settlements -/

/-- The settlement of a market that closed some positions. -/
def recordSettlement (self : Simulation study) (settlement : Settlement) (closed : SettlementResult)
    (positions : StudyPositions) : Simulation study :=
  emit { self with
    settledMarkets := settlement.marketId :: self.settledMarkets
    positions
    ledger := self.ledger.settle closed.payout }
    (.settlement settlement.marketId settlement.time settlement.yesWins closed.quantity
      closed.payout)

def settle (self : Simulation study) (settlement : Settlement) :
    Except PositionError (Simulation study) := do
  let (closed, positions) ← onPositions (self.positions.settle settlement)
  if (cashLimit : ℤ) - self.ledger.settlementCash < closed.payout ∨
      (cashLimit : ℤ) - self.ledger.available < closed.payout then reject "settlement cash bound"
  else (self.recordSettlement settlement closed positions).checkCash

/-! ### Arrivals -/

/-- The walk of an order that fills nothing. -/
def noFill (self : Simulation study) : Walk := { consumed := self.consumed }

/-- What a walk leaves behind in the simulation. -/
def applyWalk (self : Simulation study) (walked : Walk) : Simulation study :=
  { self with consumed := walked.consumed, rows := self.rows ++ walked.rows.map .fill }

/-- What an exit sells at its arrival. -/
def exitFill (self : Simulation study) (config : ResidualExitPolicy) (order : Order) (time : ℕ)
    (state : MarketState) : Except PositionError Walk :=
  let attempt := self.attempt order.attempt
  let leg := attempt.legs order.leg
  if !config.reject && !self.settled leg.marketId && self.available attempt leg time state then do
    let owned ← onPositions (self.positions.quantity order.attempt order.leg)
    if owned = 0 then .ok self.noFill
    else
      lift (walk study.policy
        { leg, sell := true, quantity := min owned order.quantity, limit := order.limit
          execute := true } state self.consumed)
  else .ok self.noFill

/-- The fill of an exit that released some cost. -/
def recordSale (self : Simulation study) (id : ℕ) (order : Order) (walked : Walk) (basis : ℕ)
    (positions : StudyPositions) (time : ℕ) : Simulation study :=
  let fill := walked.execution
  let filled := (self.applyWalk walked).setOrder id { order with fill }
  emit { filled with positions, ledger := self.ledger.sale fill basis }
    (.exitExecution (id + 1) time fill.quantity basis fill.credit)

/-- An exit arrives. -/
def arriveExit (self : Simulation study) (config : ResidualExitPolicy) (id : ℕ) (order : Order)
    (time : ℕ) (state : MarketState) : Except PositionError (Simulation study) := do
  let walked ← self.exitFill config order time state
  let fill := walked.execution
  if (cashLimit : ℤ) - self.ledger.exitCredit < fill.credit ∨
      (cashLimit : ℤ) - self.ledger.exitFees < (fill.notional : ℤ) - fill.credit then
    reject "exit cash bound"
  else do
    let (basis, positions) ←
      onPositions (self.positions.close order.attempt order.leg fill.quantity time)
    (self.recordSale id order walked basis positions time).checkCash

/-- What a buy fills at its arrival. -/
def buyFill (self : Simulation study) (order : Order) (time : ℕ) (state : MarketState) :
    Except PositionError Walk :=
  let attempt := self.attempt order.attempt
  let leg := attempt.legs order.leg
  if !study.policy.reject order.leg && !self.settled leg.marketId &&
      self.available attempt leg time state then
    lift (walk study.policy
      { leg, quantity := order.quantity, limit := order.limit, execute := true }
        state self.consumed)
  else .ok self.noFill

/-- The fill of a buy, before its position is acquired. -/
def recordBuy (self : Simulation study) (id : ℕ) (order : Order) (walked : Walk) :
    Simulation study :=
  let fill := walked.execution
  let attempt := self.attempt order.attempt
  let filled := ((self.applyWalk walked).setOrder id { order with fill }).setAttempt order.attempt
    (attempt.fill order.leg fill)
  { filled with ledger := self.ledger.buy fill }

/-- The positions after a fill. -/
def acquireFill (self : Simulation study) (order : Order) (fill : Execution) (time : ℕ) :
    Except PositionError StudyPositions :=
  if fill.quantity = 0 then .ok self.positions
  else onPositions (self.positions.acquire order.attempt order.leg
    ((self.attempt order.attempt).legs order.leg) fill.quantity fill.debit time)

/-- A buy arrives. -/
def arriveBuy (self : Simulation study) (id : ℕ) (order : Order) (time : ℕ) (state : MarketState) :
    Except PositionError (Simulation study) := do
  let walked ← self.buyFill order time state
  let fill := walked.execution
  if order.reserve < fill.debit ∨ (cashLimit : ℤ) - self.ledger.spent < fill.debit then
    reject "lifecycle cash reservation"
  else do
    let checked ← (self.recordBuy id order walked).checkCash
    let positions ← checked.acquireFill order fill time
    .ok { checked with positions }

/-- The order of an event has arrived. -/
def markArrived (self : Simulation study) (event : Event) : Simulation study :=
  let order := self.order event.order
  (self.setOrder event.order { order with arrived := true }).emit (.arrival order.sell
    (event.order + 1) (self.attempt order.attempt).id order.leg event.time)

/-- The response to an order comes later. -/
def respondAt (self : Simulation study) (event : Event) (time : ℕ) : Simulation study :=
  { self with events := push ⟨time, event.order, true⟩ self.events }

/-- An order arrives. -/
def arrive (self : Simulation study) (event : Event) (state : MarketState) :
    Except PositionError (Simulation study) :=
  if (self.order event.order).arrived then reject "duplicate order arrival"
  else
    let arrived := self.markArrived event
    let order := arrived.order event.order
    if order.sell then
      match study.policy.residualExit with
      -- Only a policy with residual exits sends them.
      | none => .error .outOfRange
      | some config => do
        let next ← arrived.arriveExit config event.order order event.time state
        let time ← later "exit response clock overflow" event.time config.responseLatency
        .ok (next.respondAt event time)
    else do
      let next ← arrived.arriveBuy event.order order event.time state
      let time ← later "response clock overflow" event.time
        (study.lifecycle.responseLatency order.leg)
      .ok (next.respondAt event time)

/-! ### Responses -/

/-- The response to an exit. -/
def confirmSale (self : Simulation study) (event : Event) (order : Order) : Simulation study :=
  emit { self with ledger := self.ledger.confirmSale order.fill }
    (.response true (event.order + 1) event.time order.fill.quantity
      (order.quantity - order.fill.quantity) order.fill.credit)

def respondExit (self : Simulation study) (event : Event) (order : Order) :
    Except PositionError (Simulation study) :=
  if (cashLimit : ℤ) - self.ledger.available < order.fill.credit then
    reject "available exit cash bound"
  else (self.confirmSale event order).checkCash

/-- The response to a buy. -/
def confirmBuy (self : Simulation study) (event : Event) (order : Order) : Simulation study :=
  let attempt := self.attempt order.attempt
  let ledger := self.ledger.confirmBuy order.reserve order.fill
  ({ self with ledger }.setAttempt order.attempt (attempt.confirm order.leg)).emit
    (.response false (event.order + 1) event.time order.fill.quantity
      (order.quantity - order.fill.quantity) order.fill.debit)

/-- What follows the response to a buy. -/
def afterBuy (self : Simulation study) (index time : ℕ) (state : MarketState) :
    Except PositionError (Simulation study) :=
  if study.lifecycle.sequential then self.completeSecond index time state
  else if (self.attempt index).pendingBuys = 0 then self.considerExit index time state
  else .ok self

def respondBuy (self : Simulation study) (event : Event) (order : Order) (state : MarketState) :
    Except PositionError (Simulation study) :=
  if (self.attempt order.attempt).pendingBuys = 0 then reject "acquisition response count"
  else do
    let next ← (self.confirmBuy event order).afterBuy order.attempt event.time state
    next.checkCash

def markResponded (self : Simulation study) (event : Event) : Simulation study :=
  self.setOrder event.order { self.order event.order with responded := true }

/-- The response to an order. -/
def respond (self : Simulation study) (event : Event) (state : MarketState) :
    Except PositionError (Simulation study) :=
  let order := self.order event.order
  if !order.arrived || order.responded then reject "response lifecycle"
  else if order.sell then (self.markResponded event).respondExit event order
  else (self.markResponded event).respondBuy event order state

/-! ### The event loop -/

/-- What is due next. -/
inductive Due where
  | settlement (settlement : Settlement)
  | event (event : Event)

/-- The next settlement or event up to a time; the events of the time itself only when it is
included. A settlement comes before an event of its time: nothing is traded after it. -/
def nextDue (time : ℕ) (inclusive : Bool) (self : Simulation study) : Option Due :=
  let settlement := study.lifecycle.settlements[self.settlementIndex]?.filter fun settlement =>
    decide (settlement.time ≤ time)
  let event := self.events.head?.filter fun event =>
    decide (event.time < time) || inclusive && decide (event.time = time)
  match settlement, event with
  | none, event => event.map .event
  | some settlement, none => some (.settlement settlement)
  | some settlement, some event =>
    if settlement.time ≤ event.time then some (.settlement settlement) else some (.event event)

def isDue (time : ℕ) (inclusive : Bool) (self : Simulation study) : Bool :=
  (self.nextDue time inclusive).isSome

/-- The event at the head is handled. -/
def pop (self : Simulation study) : Simulation study := { self with events := self.events.tail }

/-- The settlement that is next is handled. -/
def advanceSettlement (self : Simulation study) : Simulation study :=
  { self with settlementIndex := self.settlementIndex + 1 }

def handle (self : Simulation study) (state : MarketState) :
    Due → Except PositionError (Simulation study)
  | .settlement settlement =>
    self.advanceSettlement.settle settlement
  | .event event =>
    if event.response then self.pop.respond event state else self.pop.arrive event state

/-- Handle what is due next. -/
def process (time : ℕ) (inclusive : Bool) (state : MarketState) (self : Simulation study) :
    Except PositionError (Simulation study) :=
  match self.nextDue time inclusive with
  | none => .ok self
  | some due => self.handle state due

/-- What is still to come: settlements, events of the orders, and events of further orders. -/
def stages (self : Simulation study) : ℕ :=
  (study.lifecycle.settlements.length - self.settlementIndex) + tally Order.stages self.orders +
    tally (Lifecycle.Attempt.stages study.lifecycle.maximumCompletionOrders) self.attempts

/-- **The event loop**: handle what is due, one after the other. -/
def drainLifecycle (time : ℕ) (inclusive : Bool) (state : MarketState) (self : Simulation study) :
    Except PositionError (Simulation study) :=
  drain (isDue time inclusive) (process time inclusive state) self.stages self

/-! ### The calls -/

/-- An update of a market is decided on for each constraint without an attempt. -/
def decideAll (time : ℕ) (state : MarketState) :
    List ConstraintId → Simulation study → Except PositionError (Simulation study)
  | [], self => .ok self
  | id :: ids, self =>
    if id ∈ self.attempted then decideAll time state ids self
    else do
      let next ← self.decide id time state
      decideAll time state ids next

def observe (self : Simulation study) (marketId : MarketId) (time : ℕ) : Simulation study :=
  { self with lastUpdate := Function.update self.lastUpdate marketId (some time) }

def after (self : Simulation study) (frame : ReplayFrame) (state : MarketState) :
    Except PositionError (Simulation study) :=
  match frame.marketId, frame.applied with
  | some marketId, true =>
    decideAll frame.timeNs.toNat state (study.orderedDependencies marketId)
      (self.observe marketId frame.timeNs.toNat)
  | _, _ => .ok self

/-- One call of the observer. All observations of a time come before the arrivals of it. -/
def step (self : Simulation study) : ObserverCall → Except PositionError (Simulation study)
  | .before time state => self.drainLifecycle time.toNat false state
  | .after frame state => self.after frame state

/-- Events beyond the end of the observation stay unknown. -/
def markUnobserved (self : Simulation study) (time : ℕ) : Simulation study :=
  { self with
    events := []
    unobserved := self.unobserved + self.events.length
    rows := self.rows ++ self.events.map fun event =>
      .unobserved (event.order + 1) event.response event.time time }

/-- The settlements that are left. -/
def settleRest : List Settlement → Simulation study → Except PositionError (Simulation study)
  | [], self => .ok self
  | settlement :: settlements, self => do
    let next ← self.advanceSettlement.settle settlement
    settleRest settlements next

def finish (self : Simulation study) (time : ℕ) (state : MarketState) :
    Except PositionError (Simulation study) := do
  let drained ← self.drainLifecycle time true state
  let settled ← settleRest (study.lifecycle.settlements.drop drained.settlementIndex)
    (drained.markUnobserved time)
  let positions ← lift (settled.positions.finish time)
  .ok { settled with positions }

end Simulation

end EventMarket.Session
