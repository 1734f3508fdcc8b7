import EventMarket.Foundations.Drain
import EventMarket.Session.BasketFills

/-!
# Chronological execution of the baskets

A counterfactual study beside the observation. When an episode opens, every scenario may enter the
basket: it buys the legs one after the other, each after the response to the one before, with the
delay of the scenario between the steps. When a leg cannot be bought the holdings are sold again.
An attempt that cannot be followed to its end stays open, and the scenario is halted.

## Main definitions

* `BasketExecutionPolicy`, `loadBasketExecution`: the policy of the study.
* `Attempt`, `Scenario`, `Lane`: one scenario with the rows written so far.
* `Lane.event`, `Lane.advance`: the orders of a scenario.
* `Lane.decide`: entering a basket.
* `BasketExecution.before`, `BasketExecution.after`, `BasketExecution.finish`: the calls of the
  observer.
-/

namespace EventMarket.Session

open Core Foundations Book Gateway Market

/-! ### The policy -/

/-- The study of a basket policy; the delays are in nanoseconds. -/
structure BasketExecutionPolicy where
  basket : BasketPolicy
  delays : List ℤ
  margin : ℕ
  maxAttempts : ℕ

namespace BasketExecutionPolicy

def capital (policy : BasketExecutionPolicy) : ℕ := policy.basket.screen.limits.available.raw

def cap (policy : BasketExecutionPolicy) : ℕ := policy.basket.screen.limits.cap.raw

def fee (policy : BasketExecutionPolicy) (marketId : MarketId) : FeePolicy :=
  policy.basket.screen.fee marketId

/-- The markets of the study are those with a fee policy. -/
def marketIds (policy : BasketExecutionPolicy) : List MarketId :=
  policy.basket.screen.fees.map Prod.fst

end BasketExecutionPolicy

/-- One more delay, in milliseconds. -/
def readDelay (delays : List ℤ) (value : Json) : Except StudyException (List ℤ) :=
  match value with
  | .unsigned delay =>
    if delay < 1 ∨ 1000 < delay ∨ (delay : ℤ) * 1000000 ∈ delays then invalid "delay bound"
    else .ok (delays ++ [(delay : ℤ) * 1000000])
  | _ => invalid "delay type"

/-- Whether a field is this text. -/
def isText (value : Json) (field text : String) : Bool :=
  match value.find field with
  | some (.string found) => found == text
  | _ => false

def loadBasketExecution (library : JsonLibrary) (sha256 : List UInt8 → String)
    (metadata : MetadataSnapshot) (basketBytes policyBytes : List UInt8) :
    Except StudyException BasketExecutionPolicy := do
  let policy ← parseStrict library policyBytes
  let _ ← parseStrict library basketBytes
  studyShape policy ["schema_version", "kind", "basket_policy_sha256", "arrival_and_response_ms",
    "minimum_margin_micro", "max_attempts"]
  let schema ← integer policy "schema_version" 1
  if schema ≠ 1 ∨ !isText policy "kind" "chronological_basket_execution" ∨
      !isText policy "basket_policy_sha256" (sha256 basketBytes) then
    invalid "execution policy binding"
  else do
    let margin ← integer policy "minimum_margin_micro" 1000000
    let maxAttempts ← integer policy "max_attempts" 1000
    if margin = 0 ∨ maxAttempts = 0 then invalid "execution limits"
    else
      match policy.field "arrival_and_response_ms" with
      | .array rows =>
        if rows = [] ∨ 6 < rows.length then invalid "delay grid"
        else do
          let basket ← parseObservationPolicy library sha256 metadata basketBytes
          let delays ← rows.foldlM readDelay []
          .ok { basket, delays, margin, maxAttempts }
      | _ => invalid "delay grid"

/-! ### Scenarios -/

inductive Stage where
  | buyArrival
  | buyResponse
  | sellArrival
  | sellResponse
  deriving DecidableEq, Repr

/-- An attempt at a basket. The leg is the one whose order is on the way. -/
structure Attempt where
  basket : ScreenBasket
  quantity : ℕ
  spent : ℤ := 0
  received : ℤ := 0
  due : ℤ := 0
  limit : Price := ⟨0, Price.zero_le_scale⟩
  reserve : ℤ := 0
  leg : Fin 3 := 0
  stage : Stage := .buyArrival
  holdings : Fin 3 → ℤ := fun _ => 0
  reason : String := ""

structure Scenario where
  delay : ℤ
  cash : ℤ
  spent : ℤ := 0
  received : ℤ := 0
  floor : ℤ := 0
  completeCost : ℤ := 0
  unwindNet : ℤ := 0
  reserved : ℤ := 0
  peakEncumbered : ℤ := 0
  attempt : Option Attempt := none
  consumed : PhysicalLevel → ℕ := fun _ => 0
  attempts : ℕ := 0
  completed : ℕ := 0
  exited : ℕ := 0
  empty : ℕ := 0
  busy : ℕ := 0
  rejected : ℕ := 0
  budgetAborts : ℕ := 0
  censored : ℕ := 0
  finalBudgetBreaches : ℕ := 0
  halted : Bool := false

/-- The rows written by the study; each names its scenario and attempt. -/
inductive ExecutionRow where
  | start
  | entry (scenario attempt : ℕ) (time : ℤ) (basketId quantity : ℕ) (quoteMargin : ℤ)
  | submit (scenario attempt : ℕ) (time arrival : ℤ) (leg : Fin 3) (sell : Bool) (quantity : ℤ)
      (limit : ℕ) (projectedCost : Option ℤ)
  | abort (scenario attempt : ℕ) (time : ℤ) (reason : String) (holdings : Fin 3 → ℤ)
  | fill (scenario attempt : ℕ) (time : ℤ) (leg : Fin 3) (sell : Bool) (levels : Fill)
  | exitComplete (scenario attempt : ℕ) (time : ℤ) (remaining : Fin 3 → ℤ) (netCash : ℤ)
      (residual : Bool)
  | held (scenario attempt : ℕ) (time : ℤ) (quantity : ℕ) (debit floor margin : ℤ)
  | censored (scenario attempt : ℕ) (time : ℤ) (reason : String) (holdings : Fin 3 → ℤ)
      (unreleased : ℤ)

/-- One scenario and the rows of the study so far. -/
structure Lane where
  index : ℕ
  scenario : Scenario
  trace : List ExecutionRow

namespace Lane

/-- Write a row, within the budget of the trace. -/
def emit (lane : Lane) (row : ExecutionRow) : Except StudyException Lane :=
  if 100000 < lane.trace.length + 1 then invalid "execution trace budget"
  else .ok { lane with trace := lane.trace ++ [row] }

/-- The time of a step after the delay of the scenario. -/
def later (time delay : ℤ) : Except StudyException ℤ :=
  if (int64Max : ℤ) - delay < time then invalid "event time overflow" else .ok (time + delay)

/-! ### Leaving an attempt -/

/-- The first leg from a position on that holds anything. -/
def nextHeld (holdings : Fin 3 → ℤ) (start : ℕ) : Option (Fin 3) :=
  (List.finRange 3).find? fun leg => decide (start ≤ leg.val ∧ holdings leg ≠ 0)

/-- Sell the next leg that holds anything, or end the attempt. -/
def sendExit (lane : Lane) (attempt : Attempt) (start : ℕ) (time : ℤ) :
    Except StudyException Lane :=
  let scenario := lane.scenario
  match nextHeld attempt.holdings start with
  | none => do
    let residual := decide (∃ leg, attempt.holdings leg ≠ 0)
    let lane ← lane.emit (.exitComplete lane.index scenario.attempts time attempt.holdings
      (attempt.received - attempt.spent) residual)
    .ok { lane with scenario :=
      if residual then { scenario with halted := true, attempt := some attempt }
      else if attempt.spent ≠ 0 then
        { scenario with
          exited := scenario.exited + 1
          unwindNet := scenario.unwindNet + (attempt.received - attempt.spent)
          attempt := none }
      else { scenario with empty := scenario.empty + 1, attempt := none } }
  | some leg => do
    let due ← later time scenario.delay
    let attempt := { attempt with leg, stage := .sellArrival, due }
    { lane with scenario := { scenario with attempt := some attempt } }.emit
      (.submit lane.index scenario.attempts time due leg true (attempt.holdings leg) 0 none)

def beginExit (lane : Lane) (attempt : Attempt) (time : ℤ) (reason : String) :
    Except StudyException Lane := do
  let attempt := { attempt with reason, leg := 0 }
  let scenario := { lane.scenario with reserved := 0, attempt := some attempt }
  let lane ← { lane with scenario }.emit
    (.abort lane.index scenario.attempts time reason attempt.holdings)
  lane.sendExit attempt 0 time

/-! ### Orders -/

section Orders

variable (policy : BasketExecutionPolicy) (books : MarketId → CachedBook)

/-- The fill of an order for a leg of a basket, a YES for the first one. -/
def fill (scenario : Scenario) (marketId : MarketId) (yes sell : Bool) (desired limit : ℕ) :
    Except StudyException Fill :=
  fillLevels sell limit (policy.fee marketId)
    (levels policy.cap books scenario.consumed marketId yes sell) desired {}

/-- The cost of the legs that remain, with the fill of the current one; none when a leg cannot be
bought in full. -/
def planBuys (scenario : Scenario) (attempt : Attempt) :
    List (Fin 3) → ℤ → Fill → Except StudyException (Option (ℤ × Fill))
  | [], projected, current => .ok (some (projected, current))
  | leg :: legs, projected, current => do
    let planned ← fill policy books scenario (attempt.basket.markets leg) (decide (leg = 0)) false
      attempt.quantity 10000
    if planned.quantity ≠ attempt.quantity then .ok none
    else
      planBuys scenario attempt legs (projected + planned.cash)
        (if leg = attempt.leg then planned else current)

/-- The legs from the current one on. -/
def legsFrom (leg : Fin 3) : List (Fin 3) :=
  (List.finRange 3).filter fun other => decide (leg ≤ other)

/-- Send the order for the current leg, if the whole basket still pays and is funded. -/
def sendBuy (lane : Lane) (attempt : Attempt) (time : ℤ) : Except StudyException Lane := do
  let scenario := lane.scenario
  let plan ← planBuys policy books scenario attempt (legsFrom attempt.leg) attempt.spent []
  match plan with
  | none => lane.beginExit attempt time "remaining_depth_missing"
  | some (projected, current) =>
    if attempt.quantity * 20000 - policy.margin < projected then
      let scenario := { scenario with budgetAborts := scenario.budgetAborts + 1 }
      beginExit { lane with scenario } attempt time "basket_cost_budget"
    else
      let marketId := attempt.basket.markets attempt.leg
      match buyReservation attempt.quantity 1 current.limit (policy.fee marketId) with
      | none => lane.beginExit attempt time "funding_guard"
      | some reserve =>
        if scenario.cash < reserve then lane.beginExit attempt time "funding_guard"
        else do
          let due ← later time scenario.delay
          let attempt := { attempt with
            limit := current.limit, reserve, stage := .buyArrival, due }
          let scenario := { scenario with
            reserved := reserve
            peakEncumbered := max scenario.peakEncumbered (policy.capital - scenario.cash + reserve)
            attempt := some attempt }
          emit { lane with scenario } (.submit lane.index scenario.attempts time due attempt.leg
            false attempt.quantity attempt.limit.raw (some projected))

/-- A buy arrives. -/
def arriveBuy (lane : Lane) (attempt : Attempt) : Except StudyException Lane := do
  let scenario := lane.scenario
  let leg := attempt.leg
  let marketId := attempt.basket.markets leg
  let yes := decide (leg = 0)
  let filled ← fill policy books scenario marketId yes false attempt.quantity attempt.limit.raw
  let consumed := consume scenario.consumed marketId yes false filled
  if attempt.reserve < filled.cash ∨ scenario.cash < filled.cash then
    invalid "execution funding invariant"
  else do
    let lane ← { lane with scenario := { scenario with
        consumed
        cash := scenario.cash - filled.cash
        spent := scenario.spent + filled.cash
        reserved := attempt.reserve - filled.cash } }.emit
      (.fill lane.index scenario.attempts attempt.due leg false filled)
    let due ← later attempt.due scenario.delay
    let holdings :=
      Function.update attempt.holdings leg (attempt.holdings leg + filled.quantity)
    let attempt := { attempt with
      holdings, spent := attempt.spent + filled.cash, stage := .buyResponse, due }
    .ok { lane with scenario := { lane.scenario with attempt := some attempt } }

/-- A sale arrives; it has no limit. -/
def arriveSale (lane : Lane) (attempt : Attempt) : Except StudyException Lane := do
  let scenario := lane.scenario
  let leg := attempt.leg
  let marketId := attempt.basket.markets leg
  let yes := decide (leg = 0)
  let filled ← fill policy books scenario marketId yes true (attempt.holdings leg).toNat 0
  let lane ← { lane with scenario := { scenario with
      consumed := consume scenario.consumed marketId yes true filled
      cash := scenario.cash + filled.cash
      received := scenario.received + filled.cash } }.emit
    (.fill lane.index scenario.attempts attempt.due leg true filled)
  let due ← later attempt.due scenario.delay
  let holdings := Function.update attempt.holdings leg (attempt.holdings leg - filled.quantity)
  let attempt := { attempt with
    holdings, received := attempt.received + filled.cash, stage := .sellResponse, due }
  .ok { lane with scenario := { lane.scenario with attempt := some attempt } }

/-- All legs are held. -/
def complete (lane : Lane) (attempt : Attempt) : Except StudyException Lane :=
  let scenario := lane.scenario
  let floor : ℤ := attempt.quantity * 20000
  let margin := floor - attempt.spent
  { lane with scenario := { scenario with
      floor := scenario.floor + floor
      completeCost := scenario.completeCost + attempt.spent
      completed := scenario.completed + 1
      finalBudgetBreaches :=
        if margin < policy.margin then scenario.finalBudgetBreaches + 1
        else scenario.finalBudgetBreaches
      attempt := none } }.emit
    (.held lane.index scenario.attempts attempt.due attempt.quantity attempt.spent floor margin)

/-- The response to a buy: go on with the next leg, or leave. -/
def respondBuy (lane : Lane) (attempt : Attempt) : Except StudyException Lane :=
  let lane := { lane with scenario := { lane.scenario with reserved := 0 } }
  if attempt.holdings attempt.leg ≠ attempt.quantity then
    lane.beginExit attempt attempt.due "partial_buy"
  else if h : attempt.leg.val + 1 < 3 then
    lane.sendBuy policy books { attempt with leg := ⟨attempt.leg.val + 1, h⟩ } attempt.due
  else lane.complete policy attempt

/-- The check of the ledger after every event. -/
def checkLedger (lane : Lane) : Except StudyException Lane :=
  let scenario := lane.scenario
  if scenario.cash ≠ policy.capital - scenario.spent + scenario.received ∨ scenario.cash < 0 ∨
      scenario.reserved < 0 ∨ scenario.cash < scenario.reserved then invalid "execution cash ledger"
  else .ok lane

/-- The next step of an attempt, by its stage. -/
def handle (lane : Lane) (attempt : Attempt) : Except StudyException Lane :=
  match attempt.stage with
  | .buyArrival => lane.arriveBuy policy books attempt
  | .sellArrival => lane.arriveSale policy books attempt
  | .buyResponse => lane.respondBuy policy books attempt
  | .sellResponse => lane.sendExit attempt (attempt.leg.val + 1) attempt.due

/-- One event of the open attempt. -/
def event (lane : Lane) : Except StudyException Lane :=
  match lane.scenario.attempt with
  | none => .ok lane
  | some attempt => do
    let lane ← lane.handle policy books attempt
    lane.checkLedger policy

/-- Whether an event is due by a time. -/
def due (time : ℤ) (lane : Lane) : Bool :=
  match lane.scenario.attempt with
  | none => false
  | some attempt => !lane.scenario.halted && decide (attempt.due ≤ time)

/-- Handle the events that are due; an attempt has at most twelve. -/
def advance (time : ℤ) (lane : Lane) : Except StudyException Lane :=
  drain (due time) (event policy books) 12 lane

/-! ### Entering a basket -/

/-- The best quote so far, its basket, and the signals rejected. -/
structure Selection where
  best : Option (SizedBasket × ScreenBasket) := none
  rejected : ℕ := 0

/-- A larger margin is better, then a smaller id. -/
def Selection.offer (selection : Selection) (quote : SizedBasket) (basket : ScreenBasket) :
    Selection :=
  match selection.best with
  | none => { selection with best := some (quote, basket) }
  | some (best, chosen) =>
    if best.netMarginMicro < quote.netMarginMicro ∨
        (quote.netMarginMicro = best.netMarginMicro ∧ basket.id < chosen.id) then
      { selection with best := some (quote, basket) }
    else selection

/-- The limits of the sizing of an entry. -/
def entryLimits (scenario : Scenario) : Option SizingLimits := do
  let cap ← Quantity.fromRaw policy.cap
  let step ← Quantity.fromRaw 100
  let available ← Cash.fromRaw scenario.cash
  let minimumMargin ← Cash.fromRaw policy.margin
  some { cap, step, available, minimumMargin, maxEvaluations := 100 }

/-- Size the basket of a signal on what is left of the books. -/
def consider (scenario : Scenario) (selection : Selection) (signal : BasketEpisode) :
    Except StudyException Selection :=
  if signal.leftCensored then .ok { selection with rejected := selection.rejected + 1 }
  else
    match policy.basket.screen.baskets.find? fun basket => decide (basket.id = signal.basketId),
        entryLimits policy scenario with
    | some basket, some bounds =>
      let depth (leg : Fin 3) : BuyDepth :=
        { levels := levels policy.cap books scenario.consumed (basket.markets leg)
            (decide (leg = 0))
          fees := policy.fee (basket.markets leg) }
      let result := sizeBuyBasket depth bounds
      if result.status = .invalidInput ∨ result.status = .arithmeticError ∨
          result.status = .searchBudgetExceeded then invalid "execution sizing"
      else
        match result.quote with
        | none => .ok { selection with rejected := selection.rejected + 1 }
        | some quote => .ok (selection.offer quote basket)
    | _, _ => invalid "execution sizing"

/-- Enter the basket of the best signal. -/
def enter (lane : Lane) (quote : SizedBasket) (basket : ScreenBasket) (time : ℤ) :
    Except StudyException Lane := do
  let attempt : Attempt := { basket, quantity := quote.quantity }
  let scenario := { lane.scenario with
    attempts := lane.scenario.attempts + 1, attempt := some attempt }
  let lane ← { lane with scenario }.emit (.entry lane.index scenario.attempts time basket.id
    attempt.quantity quote.netMarginMicro)
  lane.sendBuy policy books attempt time

protected def decide (signals : List BasketEpisode) (time : ℤ) (lane : Lane) :
    Except StudyException Lane :=
  let scenario := lane.scenario
  if scenario.halted ∨ policy.maxAttempts ≤ scenario.attempts then .ok lane
  else if scenario.attempt.isSome then
    .ok { lane with scenario := { scenario with busy := scenario.busy + signals.length } }
  else do
    let selection ← signals.foldlM (consider policy books scenario) {}
    let lane := { lane with scenario :=
      { scenario with rejected := scenario.rejected + selection.rejected } }
    match selection.best with
    | none => .ok lane
    | some (quote, basket) => lane.enter policy books quote basket time

end Orders

/-- An open attempt cannot be followed any further. -/
def censor (time : ℤ) (reason : String) (lane : Lane) : Except StudyException Lane :=
  let scenario := lane.scenario
  match scenario.attempt with
  | none => .ok lane
  | some attempt =>
    if scenario.halted then .ok lane
    else
      { lane with scenario := { scenario with
          censored := scenario.censored + 1, halted := true } }.emit
        (.censored lane.index scenario.attempts time reason attempt.holdings scenario.reserved)

end Lane

/-- The net of a scenario in the report, unless something is open. -/
def Scenario.conditionalNet (policy : BasketExecutionPolicy) (scenario : Scenario) : Option ℤ :=
  let exposure := scenario.attempt.any fun attempt => decide (∃ leg, attempt.holdings leg ≠ 0)
  if !exposure && scenario.attempt.isNone then
    some (scenario.cash + scenario.floor - policy.capital)
  else none

/-- The same for every scenario, one after the other. -/
def eachScenario (step : Lane → Except StudyException Lane) :
    ℕ → List Scenario → List ExecutionRow →
      Except StudyException (List Scenario × List ExecutionRow)
  | _, [], trace => .ok ([], trace)
  | index, scenario :: scenarios, trace => do
    let lane ← step { index, scenario, trace }
    let (scenarios, trace) ← eachScenario step (index + 1) scenarios lane.trace
    .ok (lane.scenario :: scenarios, trace)

/-! ### The study -/

structure BasketExecution (policy : BasketExecutionPolicy) where
  control : Observation policy.basket := {}
  books : MarketId → CachedBook := fun _ => {}
  scenarios : List Scenario
  trace : List ExecutionRow
  records : ℕ := 0
  episodes : ℕ := 0
  lastTime : Option ℤ := none
  lastWall : Option ℤ := none
  generation : Option ℕ := none
  broken : Bool := false
  expired : Bool := false
  finished : Bool := false

namespace BasketExecution

variable {policy : BasketExecutionPolicy}

/-- The study at its start. -/
def initial (policy : BasketExecutionPolicy) : BasketExecution policy where
  scenarios := policy.delays.map fun delay => { delay, cash := policy.capital }
  trace := [.start]

/-- The longest time between two records, in nanoseconds. -/
def maximumGap : ℤ := 15000000000

/-- A step of all scenarios. -/
def all (self : BasketExecution policy) (step : Lane → Except StudyException Lane) :
    Except StudyException (BasketExecution policy) := do
  let (scenarios, trace) ← eachScenario step 0 self.scenarios self.trace
  .ok { self with scenarios, trace }

def breakContinuity (self : BasketExecution policy) (time : ℤ) (reason : String) :
    Except StudyException (BasketExecution policy) :=
  { self with broken := true }.all (Lane.censor time reason)

/-- The records must not leave a gap. -/
def checkGap (self : BasketExecution policy) (time : ℤ) :
    Except StudyException (BasketExecution policy) :=
  if self.lastTime.any fun last => decide (maximumGap < time - last) then
    self.breakContinuity time "record_gap"
  else .ok self

def before (self : BasketExecution policy) (time : ℤ) :
    Except StudyException (BasketExecution policy) :=
  if time < 0 ∨ self.lastTime.any (fun last => decide (time < last)) then
    invalid "execution clock regression"
  else do
    let self ← self.checkGap time
    let control ← self.control.before time
    .ok { self with control }

/-- The wall clock must not go back, nor leave a gap. -/
def checkWall (self : BasketExecution policy) (time wall : ℤ) :
    Except StudyException (BasketExecution policy) :=
  if self.lastWall.any fun last => decide (wall < last ∨ maximumGap < wall - last) then
    self.breakContinuity time "wall_clock_discontinuity"
  else .ok self

def checkExpiry (self : BasketExecution policy) (time wall : ℤ) :
    Except StudyException (BasketExecution policy) :=
  if policy.basket.validUntil ≤ wall then
    { self with expired := true }.all (Lane.censor time "policy_expired")
  else .ok self

/-- Whether the connection of the last record is gone. -/
def disconnected (self : BasketExecution policy) (state : MarketState) : Bool :=
  !state.connected ||
    self.generation.isSome && decide (self.generation ≠ state.connectionGeneration)

def checkConnection (self : BasketExecution policy) (time : ℤ) (state : MarketState) :
    Except StudyException (BasketExecution policy) :=
  if self.disconnected state then do
    let self ← self.all (Lane.censor time "connection_change")
    .ok { self with books := fun marketId => { self.books marketId with valid := false } }
  else .ok self

/-- A book that orders can be filled from: valid and not crossed. -/
def usableBook (state : MarketState) (marketId : MarketId) : Option OrderBook :=
  (Observation.validBook state marketId).filter fun book => !Observation.crossedBook book

/-- A market of the study that a frame is about. -/
def marketOf (policy : BasketExecutionPolicy) (frame : ReplayFrame) : Option MarketId :=
  frame.marketId.filter fun marketId => decide (marketId ∈ policy.marketIds)

def checkBook (self : BasketExecution policy) (frame : ReplayFrame) (state : MarketState) :
    Except StudyException (BasketExecution policy) :=
  match marketOf policy frame with
  | none => .ok self
  | some marketId =>
    if (usableBook state marketId).isSome then .ok self
    else
      { self with books :=
        Function.update self.books marketId { self.books marketId with valid := false } }.all
          (Lane.censor frame.timeNs "invalid_book")

/-- Both clocks, the connection and the book are checked before orders are advanced. -/
def prepare (self : BasketExecution policy) (frame : ReplayFrame) (wall : ℤ)
    (state : MarketState) : Except StudyException (BasketExecution policy) := do
  let self ← self.checkWall frame.timeNs wall
  let self ← self.checkExpiry frame.timeNs wall
  let self ← self.checkConnection frame.timeNs state
  self.checkBook frame state

/-- Orders are filled from the books of earlier records, so an update cannot price an earlier
arrival. -/
def advanceAll (self : BasketExecution policy) (time : ℤ) (disconnected : Bool) :
    Except StudyException (BasketExecution policy) :=
  if self.broken ∨ self.expired ∨ disconnected then .ok self
  else self.all (Lane.advance policy self.books time)

/-- The book of a record takes effect for later orders. -/
def updateBook (self : BasketExecution policy) (frame : ReplayFrame) (state : MarketState) :
    BasketExecution policy :=
  if frame.applied then
    match marketOf policy frame with
    | none => self
    | some marketId =>
      match usableBook state marketId with
      | none => self
      | some book =>
        let cached : CachedBook :=
          { sides := fun side => book.visibleLevels (if side = 0 then .bid else .ask),
            valid := true }
        { self with books := Function.update self.books marketId cached }
  else self

/-- The observation sees the record, and hands over the episodes that it opens. -/
def observe (self : BasketExecution policy) (frame : ReplayFrame) (state : MarketState) :
    Except StudyException (BasketExecution policy) := do
  let cleared := { self.control with signals := [] }
  let control ← cleared.after frame state
  .ok { self with control, episodes := self.episodes + control.signals.length }

def decideAll (self : BasketExecution policy) (time : ℤ) (state : MarketState) :
    Except StudyException (BasketExecution policy) :=
  if self.broken ∨ self.expired ∨ state.connected = false ∨ self.control.signals = [] then .ok self
  else self.all (Lane.decide policy self.books self.control.signals time)

def after (self : BasketExecution policy) (frame : ReplayFrame) (state : MarketState) :
    Except StudyException (BasketExecution policy) :=
  let self := { self with records := self.records + 1 }
  match frame.observedWallNs with
  | none => invalid "execution wall binding"
  | some wall =>
    if wall < policy.basket.validFrom then invalid "execution wall binding"
    else do
      let disconnected := self.disconnected state
      let self ← self.prepare frame wall state
      let self ← self.advanceAll frame.timeNs disconnected
      let self ← (self.updateBook frame state).observe frame state
      let self ← self.decideAll frame.timeNs state
      .ok { self with
        lastTime := some frame.timeNs
        lastWall := some wall
        generation := state.connectionGeneration }

/-- Orders never arrive beyond the end of the observation. -/
def finish (self : BasketExecution policy) (time : ℤ) :
    Except StudyException (BasketExecution policy) := do
  let self ← self.all (Lane.censor time "end_of_observation")
  let control ← self.control.finish time
  .ok { self with control, finished := true }

/-- One call of the observer. -/
def step (self : BasketExecution policy) :
    ObserverCall → Except StudyException (BasketExecution policy)
  | .before time _ => self.before time
  | .after frame state => self.after frame state

end BasketExecution

end EventMarket.Session
