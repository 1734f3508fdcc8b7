import EventMarket.Constraint.Payoff

/-!
# The candidate tracker

Every constraint has a candidate: buying its two guaranteed legs in equal quantity at the best
prices. The tracker keeps the current quote of each candidate and reports how it changes, either
by evaluating all of them or only those whose legs trade on a changed market.

## Main definitions

* `quote`: the quote of a candidate in a state of the market.
* `CandidateTracker.create`: the tracker of the constraints of a registry.
* `CandidateTracker.refreshAll`, `CandidateTracker.refresh`.
-/

namespace EventMarket.Opportunity

open Book Constraint Core Market

/-- The only direction of a candidate: its guaranteed legs are bought. -/
inductive CandidateDirection where
  | buyGuaranteedLegs
  deriving DecidableEq, Repr

/-- The identity of a candidate. -/
structure CandidateId where
  metadataVersion : ℕ
  constraintId : ConstraintId
  semanticVersion : ℕ
  direction : CandidateDirection := .buyGuaranteedLegs
  legs : Fin 2 → PayoffLegTemplate
  deriving DecidableEq

structure CandidateQuote where
  acquisitionPrices : Fin 2 → ℕ
  quantity : ℕ
  acquisitionCost : ℕ
  minimumPayout : ℕ
  grossMargin : ℕ
  deriving DecidableEq

inductive CandidateEventKind where
  | opened
  | updated
  | invalidated
  deriving DecidableEq, Repr

inductive InvalidationReason where
  | none
  | disconnected
  | bookUnavailable
  | missingQuote
  | nonPositiveMargin
  | arithmeticOverflow
  deriving DecidableEq, Repr

structure CandidateEvent where
  id : CandidateId
  kind : CandidateEventKind
  quote : Option CandidateQuote
  reason : InvalidationReason
  deriving DecidableEq

/-! ### Quotes -/

/-- The price and the quantity at which a leg can be bought. Buying NO consumes the bids of YES at
the complementary price. -/
def legQuote (leg : PayoffLegTemplate) (state : MarketState) :
    Except InvalidationReason (ℕ × ℕ) :=
  match state.findBook leg.marketId with
  | none => .error .bookUnavailable
  | some book =>
    if book.state ≠ .valid then .error .bookUnavailable
    else
      match leg.outcome with
      | .yes =>
        match book.bestAsk with
        | none => .error .missingQuote
        | some level => .ok (level.raw, book.quantityAt .ask level)
      | .no =>
        match book.bestBid with
        | none => .error .missingQuote
        | some level => .ok (Price.scale - level.raw, book.quantityAt .bid level)

/-- The quote of both legs once their prices and quantities are known. -/
def pairQuote (first second : ℕ × ℕ) : Except InvalidationReason CandidateQuote :=
  let quantity := min (min int64Max first.2) second.2
  let sum := first.1 + second.1
  if quantity = 0 then .error .missingQuote
  else if Price.scale ≤ sum then .error .nonPositiveMargin
  else
    match (Quantity.fromRaw quantity).bind contractSettlementValue with
    | none => .error .arithmeticOverflow
    | some payout => .ok {
        acquisitionPrices := ![first.1, second.1]
        quantity
        acquisitionCost := sum * quantity
        minimumPayout := payout.raw
        grossMargin := payout.raw - sum * quantity }

def quote (id : CandidateId) (state : MarketState) : Except InvalidationReason CandidateQuote :=
  if !state.connected then .error .disconnected
  else do
    let first ← legQuote (id.legs 0) state
    let second ← legQuote (id.legs 1) state
    pairQuote first second

/-! ### The tracker -/

structure Entry where
  id : CandidateId
  current : Option CandidateQuote := none
  deriving DecidableEq

structure CandidateTracker where
  entries : List Entry := []
  dependencies : Std.TreeMap MarketId (List ℕ) := {}
  events : List CandidateEvent := []
  generation : Option ℕ := none
  connected : Bool := false
  activeCount : ℕ := 0
  evaluated : ℕ := 0

namespace CandidateTracker

/-- The candidate of a compiled constraint, its legs in the order of their markets. -/
def identity (version : ℕ) (compiled : CompiledConstraint) (first second : PayoffLegTemplate) :
    CandidateId where
  metadataVersion := version
  constraintId := compiled.metadata.id
  semanticVersion := compiled.metadata.semanticVersion
  legs := if second.marketId < first.marketId then ![second, first] else ![first, second]

/-- A dependent entry of a market comes last. -/
def addDependency (dependencies : Std.TreeMap MarketId (List ℕ)) (index : ℕ)
    (leg : PayoffLegTemplate) : Std.TreeMap MarketId (List ℕ) :=
  dependencies.insert leg.marketId (dependencies[leg.marketId]?.getD [] ++ [index])

def addEntry (tracker : CandidateTracker) (id : CandidateId) : CandidateTracker :=
  { tracker with
    dependencies := addDependency (addDependency tracker.dependencies tracker.entries.length
      (id.legs 0)) tracker.entries.length (id.legs 1)
    entries := tracker.entries ++ [{ id }] }

/-- One more candidate. Its payoff must be guaranteed and it must have two legs. -/
def addConstraint (version : ℕ) (tracker : CandidateTracker) (compiled : CompiledConstraint) :
    Except String CandidateTracker :=
  match compiled.guaranteedLegTemplates,
      constructGuaranteedPortfolio compiled ⟨Quantity.scale, Quantity.scale_le_max⟩ with
  | [first, second], .ok _ => .ok (tracker.addEntry (identity version compiled first second))
  | _, _ => .error "unsupported candidate payoff template"

/-- The tracker of the constraints of a registry in the order of their ids. -/
def create (version : ℕ) (constraints : ConstraintRegistry) : Except String CandidateTracker :=
  if version = 0 then .error "candidate metadata version must be nonzero"
  else
    (constraints.sortedIds.filterMap constraints.find).foldlM (addConstraint version) {}

/-- The event of an entry whose quote has changed, and the change of the count of quotes. -/
def evaluateEntry (entry : Entry) (state : MarketState) : Entry × Option CandidateEvent :=
  match quote entry.id state with
  | .ok current =>
    if entry.current = some current then (entry, none)
    else
      ({ entry with current := some current }, some {
        id := entry.id
        kind := if entry.current.isSome then .updated else .opened
        quote := some current
        reason := .none })
  | .error reason =>
    if entry.current.isSome then
      ({ entry with current := none }, some {
        id := entry.id
        kind := .invalidated
        quote := none
        reason })
    else (entry, none)

/-- The count of entries with a quote after an event. -/
def countAfter (count : ℕ) : Option CandidateEvent → ℕ
  | none => count
  | some event =>
    match event.kind with
    | .opened => count + 1
    | .updated => count
    | .invalidated => count - 1

def evaluate (state : MarketState) (tracker : CandidateTracker) (index : ℕ) : CandidateTracker :=
  match tracker.entries[index]? with
  | none => tracker
  | some entry =>
    let (next, event) := evaluateEntry entry state
    { tracker with
      entries := tracker.entries.set index next
      events := tracker.events ++ event.toList
      activeCount := countAfter tracker.activeCount event
      evaluated := tracker.evaluated + 1 }

def refreshAll (tracker : CandidateTracker) (state : MarketState) : CandidateTracker :=
  (List.range tracker.entries.length).foldl (evaluate state) { tracker with
    events := []
    evaluated := 0
    connected := state.connected
    generation := state.connectionGeneration }

def refresh (tracker : CandidateTracker) (changed : MarketId) (state : MarketState) :
    CandidateTracker :=
  if tracker.generation ≠ state.connectionGeneration ∨ tracker.connected ≠ state.connected then
    tracker.refreshAll state
  else
    (tracker.dependencies[changed]?.getD []).foldl (evaluate state)
      { tracker with events := [], evaluated := 0 }

end CandidateTracker

end EventMarket.Opportunity
