import EventMarket.Session.StudyLifecycle

/-!
# The study without a lifecycle

The first policies simulate both orders of a pair without responses: the orders of a decision arrive
after their delays, and each of them fills at once what it can. What is reserved for an order is
available again, less its debit, when it has arrived, and whole when it was not observed.

## Main definitions

* `LegacyStudy`: a policy without a lifecycle and the constraints it is run on.
* `PendingOrder`, `LegacyRow`: what is under way and what is written.
* `LegacySimulation`: the state of the simulation.
* `LegacySimulation.decide`, `LegacySimulation.arrive`: the decisions and the arrivals.
* `LegacySimulation.step`, `LegacySimulation.finish`: the calls of the observer.
-/

namespace EventMarket.Session

open Constraint Core Foundations Market StudyPositions

/-- A policy without a lifecycle, and the constraints, which all have two legs whose markets have
fees. -/
structure LegacyStudy where
  policy : StudyPolicy
  constraints : ConstraintRegistry
  lifecycle_eq : policy.lifecycle = none
  cap_le : policy.quantityCap.raw ≤ quantityLimit
  step_eq : policy.quantityStep.raw = 1 ∨ policy.quantityStep.raw = 100
  step_le : policy.quantityStep.raw ≤ policy.quantityCap.raw
  supported : ∀ id compiled, constraints.find id = some compiled →
    ∃ legs, compileLegs false compiled.guaranteedLegTemplates = .ok legs
  fees_valid : ∀ id compiled, constraints.find id = some compiled →
    ∀ template ∈ compiled.guaranteedLegTemplates, (policy.fees template.marketId).Valid

namespace LegacyStudy

variable (study : LegacyStudy)

def compiledLegs (id : ConstraintId) : Option (Fin 2 → PayoffLegTemplate) :=
  (study.constraints.find id).bind fun compiled =>
    (compileLegs false compiled.guaranteedLegTemplates).toOption

/-- The constraints of a market in the order of their ids. -/
def orderedDependencies (marketId : MarketId) : List ConstraintId :=
  study.constraints.sortedIds.flatMap fun id =>
    match study.constraints.find id with
    | none => []
    | some compiled => (compiled.dependentMarkets.filter (· == marketId)).map fun _ => id

end LegacyStudy

/-- An order on its way. -/
structure PendingOrder where
  arrival : ℕ
  attempt : ℕ
  leg : Fin 2
  deriving DecidableEq, Repr

namespace PendingOrder

/-- Orders arrive by their time, then by their attempt and their leg. -/
def before (order other : PendingOrder) : Bool :=
  decide (order.arrival < other.arrival) || decide (order.arrival = other.arrival) &&
    (decide (order.attempt < other.attempt) || decide (order.attempt = other.attempt) &&
      decide (order.leg ≤ other.leg))

/-- Whether an order arrives up to a time, or before it. -/
def due (time : ℕ) (inclusive : Bool) (order : PendingOrder) : Bool :=
  decide (order.arrival < time) || inclusive && decide (order.arrival = time)

end PendingOrder

/-- The rows that the simulation writes. -/
inductive LegacyRow where
  | decision (time : ℕ) (id : ConstraintId) (quantity : ℕ) (limit : Fin 2 → ℕ) (cost : ℕ)
      (margin : ℤ) (reserved : ℕ)
  | arrival (id : ConstraintId) (leg : Fin 2) (time : ℕ)
  | fill (fill : FillRow)
  | complete (id : ConstraintId) (leg : Fin 2) (filled unfilled debit : ℕ)
  | unobserved (id : ConstraintId) (leg : Fin 2) (arrival observationEnd : ℕ)

open Lifecycle in
/-- The state of the simulation. -/
structure LegacySimulation (study : LegacyStudy) where
  available : ℤ
  spent : ℕ := 0
  notional : ℕ := 0
  lastUpdate : MarketId → Option ℕ := fun _ => none
  consumed : LiquidityKey → ℕ := fun _ => 0
  attempts : List Lifecycle.Attempt := []
  attempted : List ConstraintId := []
  declines : List String := []
  evaluated : ℕ := 0
  unobserved : ℕ := 0
  counters : SizingCounters := {}
  pending : List PendingOrder := []
  rows : List LegacyRow := []

namespace LegacySimulation

open Lifecycle

variable {study : LegacyStudy}

/-- The simulation at its start. -/
def initial (study : LegacyStudy) : LegacySimulation study where
  available := study.policy.capital.raw

def attempt (self : LegacySimulation study) (index : ℕ) : Lifecycle.Attempt :=
  self.attempts.getD index default

/-- What is reserved for an order. -/
def reserved (self : LegacySimulation study) (order : PendingOrder) : ℕ :=
  (self.attempt order.attempt).reserve order.leg

def decline (self : LegacySimulation study) (reason : String) : LegacySimulation study :=
  { self with declines := self.declines ++ [reason] }

/-- Whether the book of a leg is valid and was updated not too long ago. -/
def fresh (self : LegacySimulation study) (leg : PayoffLegTemplate) (time : ℕ)
    (state : MarketState) : Bool :=
  match state.findBook leg.marketId, self.lastUpdate leg.marketId with
  | some book, some updated =>
    state.connected && decide (book.state = .valid) &&
      decide (updated ≤ time ∧ time - updated ≤ study.policy.maxAge)
  | _, _ => false

/-! ### Decisions -/

/-- Begin an attempt: what its orders need is reserved, and both are on their way. -/
def enter (self : LegacySimulation study) (attempt : Lifecycle.Attempt) :
    Except PositionError (LegacySimulation study) := do
  let arrival0 ← Simulation.later "arrival clock overflow" attempt.started (study.policy.latency 0)
  let arrival1 ← Simulation.later "arrival clock overflow" attempt.started (study.policy.latency 1)
  let index := self.attempts.length
  let orders : List PendingOrder := [⟨arrival0, index, 0⟩, ⟨arrival1, index, 1⟩]
  .ok { self with
    available := self.available - attempt.reserve 0 - attempt.reserve 1
    attempted := self.attempted ++ [attempt.id]
    attempts := self.attempts ++ [attempt]
    pending := (self.pending ++ orders).mergeSort PendingOrder.before }

/-- The decision to begin an attempt. -/
def announce (self : LegacySimulation study) (attempt : Lifecycle.Attempt) (quote : SizedPair) :
    LegacySimulation study :=
  let cost := (quote.legs 0).debit + (quote.legs 1).debit
  { self with rows := self.rows ++ [.decision attempt.started attempt.id quote.quantity
      attempt.limit cost ((quote.quantity * 10000 : ℤ) - cost)
      (attempt.reserve 0 + attempt.reserve 1)] }

/-- Decide on the pair of a constraint. -/
protected def decide (self : LegacySimulation study) (id : ConstraintId) (time : ℕ)
    (state : MarketState) : Except PositionError (LegacySimulation study) :=
  let self := { self with evaluated := self.evaluated + 1 }
  match study.compiledLegs id with
  | none => .error .outOfRange
  | some legs =>
    if !self.fresh (legs 0) time state || !self.fresh (legs 1) time state then
      .ok (self.decline "stale_or_missing_book")
    else do
      let (selected, counters) ← Simulation.lift (selectQuote study.policy self.consumed state legs
        self.available self.counters)
      let self := { self with counters }
      match selected with
      | .error reason => .ok (self.decline reason)
      | .ok quote =>
        -- A fresh book has a connection, which has a generation.
        let attempt : Lifecycle.Attempt :=
          { id, legs, generation := state.connectionGeneration.getD 0, quantity := quote.quantity
            limit := fun leg => (quote.legs leg).limit.raw
            reserve := fun leg => (quote.legs leg).reservation, started := time }
        (self.announce attempt quote).enter attempt

/-! ### Arrivals -/

/-- What an order fills at its arrival. -/
def fill (self : LegacySimulation study) (order : PendingOrder) (state : MarketState) :
    Except PositionError Walk :=
  let attempt := self.attempt order.attempt
  let leg := attempt.legs order.leg
  if !study.policy.reject order.leg &&
      decide (state.connectionGeneration = some attempt.generation) &&
      self.fresh leg order.arrival state then
    Simulation.lift (walk study.policy
      { leg, quantity := attempt.quantity, limit := attempt.limit order.leg, execute := true }
      state self.consumed)
  else .ok { execution := attempt.fills order.leg, consumed := self.consumed }

/-- An order has filled something. -/
def complete (self : LegacySimulation study) (order : PendingOrder) (walked : Walk) :
    LegacySimulation study :=
  let attempt := self.attempt order.attempt
  let fill := walked.execution
  { self with
    available := self.available + ((self.reserved order : ℤ) - fill.debit)
    spent := self.spent + fill.debit
    notional := self.notional + fill.notional
    consumed := walked.consumed
    attempts := self.attempts.set order.attempt
      { attempt with fills := Function.update attempt.fills order.leg fill }
    rows := self.rows ++ .arrival attempt.id order.leg order.arrival ::
      walked.rows.map .fill ++
      [.complete attempt.id order.leg fill.quantity (attempt.quantity - fill.quantity) fill.debit] }

/-- An order arrives, and is no longer on its way. -/
def arrive (self : LegacySimulation study) (order : PendingOrder) (state : MarketState) :
    Except PositionError (LegacySimulation study) := do
  let walked ← self.fill order state
  if self.reserved order < walked.execution.debit then
    Simulation.reject "reservation invariant"
  else .ok (self.complete order walked)

/-- The orders that are due arrive, one after the other. -/
def drainOrders (time : ℕ) (inclusive : Bool) (state : MarketState) :
    List PendingOrder → LegacySimulation study → Except PositionError (LegacySimulation study)
  | [], self => .ok { self with pending := [] }
  | order :: orders, self =>
    if order.due time inclusive then do
      let next ← arrive { self with pending := orders } order state
      drainOrders time inclusive state orders next
    else .ok { self with pending := order :: orders }

def drain (self : LegacySimulation study) (time : ℕ) (inclusive : Bool) (state : MarketState) :
    Except PositionError (LegacySimulation study) :=
  drainOrders time inclusive state self.pending self

/-! ### The calls -/

/-- An update of a market is decided on for each constraint without an attempt. -/
def decideAll (time : ℕ) (state : MarketState) :
    List ConstraintId → LegacySimulation study → Except PositionError (LegacySimulation study)
  | [], self => .ok self
  | id :: ids, self =>
    if id ∈ self.attempted then decideAll time state ids self
    else do
      let next ← self.decide id time state
      decideAll time state ids next

def observe (self : LegacySimulation study) (marketId : MarketId) (time : ℕ) :
    LegacySimulation study :=
  { self with lastUpdate := Function.update self.lastUpdate marketId (some time) }

def after (self : LegacySimulation study) (frame : ReplayFrame) (state : MarketState) :
    Except PositionError (LegacySimulation study) :=
  match frame.marketId, frame.applied with
  | some marketId, true =>
    decideAll frame.timeNs.toNat state (study.orderedDependencies marketId)
      (self.observe marketId frame.timeNs.toNat)
  | _, _ => .ok self

/-- One call of the observer. All observations of a time come before the arrivals of it. -/
def step (self : LegacySimulation study) :
    ObserverCall → Except PositionError (LegacySimulation study)
  | .before time state => self.drain time.toNat false state
  | .after frame state => self.after frame state

/-- What is reserved for an order is returned when it was not observed. -/
def returnReserve (time : ℕ) (self : LegacySimulation study) (order : PendingOrder) :
    LegacySimulation study :=
  { self with
    available := self.available + self.reserved order
    unobserved := self.unobserved + 1
    rows := self.rows ++ [.unobserved (self.attempt order.attempt).id order.leg
      order.arrival time] }

def finish (self : LegacySimulation study) (time : ℕ) (state : MarketState) :
    Except PositionError (LegacySimulation study) := do
  let drained ← self.drain time true state
  let returned := drained.pending.foldl (returnReserve time) drained
  .ok { returned with pending := [] }

end LegacySimulation

end EventMarket.Session
