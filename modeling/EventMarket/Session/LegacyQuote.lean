import EventMarket.Core.Reservation
import EventMarket.Session.StudyWalk

/-!
# The quotes of a decision

A decision of the study quotes both legs of a pair. The first policies took the largest quantity
that both books offer and that is funded, found by bisection; the later ones search for the best
net margin.

## Main definitions

* `quoteLeg`, `sizeLeg`: a leg at a quantity, and what has to be reserved for it.
* `fundedSteps`: the bisection for the largest funded quantity.
* `legacyQuote`: the quote of the first policies.
* `selectQuote`: the quote of a policy.
-/

namespace EventMarket.Session

open Constraint Core Market

section Quote

variable (policy : StudyPolicy) (consumed : LiquidityKey → ℕ) (state : MarketState)

/-- What a leg would fill at any price. -/
def quoteLeg (leg : PayoffLegTemplate) (quantity : ℕ) : Except StudyException Execution :=
  (walk policy { leg, quantity, limit := 10000, execute := false } state consumed).map
    Walk.execution

/-- The cash to reserve for a leg up to a price. The prices of the walks are in range. -/
def reservation (leg : PayoffLegTemplate) (quantity price : ℕ) : Except StudyException ℕ :=
  match (Price.fromRaw price).bind fun limit =>
    buyReservation quantity policy.quantityStep.raw limit (policy.fees leg.marketId) with
  | none => invalid "reservation overflow"
  | some reserve => .ok reserve

/-- A leg of a quote, at the worst price of its walk. -/
def sizeLeg (leg : PayoffLegTemplate) (quantity : ℕ) (quote : Execution) :
    Except StudyException SizedLeg :=
  match Price.fromRaw quote.worstPrice with
  | none => invalid "reservation overflow"
  | some limit => do
    let reserve ← reservation policy leg quantity quote.worstPrice
    .ok ⟨limit, quote.notional, quote.debit, reserve⟩

variable (legs : Fin 2 → PayoffLegTemplate)

/-- Both legs, at the prices of their walks. -/
def sizeLegs (quantity : ℕ) (quotes : Fin 2 → Execution) :
    Except StudyException (Fin 2 → SizedLeg) := do
  let first ← sizeLeg policy (legs 0) quantity (quotes 0)
  let second ← sizeLeg policy (legs 1) quantity (quotes 1)
  .ok ![first, second]

/-- Both legs at a quantity. -/
def quoteLegs (quantity : ℕ) : Except StudyException (Fin 2 → SizedLeg) := do
  let first ← quoteLeg policy consumed state (legs 0) quantity
  let second ← quoteLeg policy consumed state (legs 1) quantity
  sizeLegs policy legs quantity ![first, second]

/-- What both legs need. -/
def needed (sized : Fin 2 → SizedLeg) : ℕ := (sized 0).reservation + (sized 1).reservation

/-- The bisection for the largest number of steps that is funded; funding is monotone, the net
margin need not be. -/
def fundedSteps (available : ℤ) : ℕ → ℕ → ℕ → Except StudyException ℕ
  | 0, lo, _ => .ok lo
  | fuel + 1, lo, hi =>
    if lo < hi then do
      let mid := lo + (hi - lo + 1) / 2
      let sized ← quoteLegs policy consumed state legs (mid * policy.quantityStep.raw)
      if (needed sized : ℤ) ≤ available then fundedSteps available fuel mid hi
      else fundedSteps available fuel lo (mid - 1)
    else .ok lo

/-- The quote at a quantity, when it pays. -/
def costedQuote (quantity : ℕ) (sized : Fin 2 → SizedLeg) : Except String SizedPair :=
  let cost := (sized 0).debit + (sized 1).debit
  if (quantity * 10000 : ℤ) - cost ≤ policy.minMargin.raw then .error "non_positive_costed_margin"
  else .ok
    { quantity, legs := sized, payoutFloor := quantity * 10000
      netMargin := quantity * 10000 - cost }

/-- The quote at the largest funded quantity. -/
def fundedQuote (available : ℤ) (quantity : ℕ) (sized : Fin 2 → SizedLeg) :
    Except StudyException (Except String SizedPair) :=
  if (needed sized : ℤ) ≤ available then .ok (costedQuote policy quantity sized)
  else do
    let steps := quantity / policy.quantityStep.raw
    let steps ← fundedSteps policy consumed state legs available steps 0 steps
    let quantity := steps * policy.quantityStep.raw
    if quantity = 0 then .ok (.error "insufficient_cash")
    else do
      let sized ← quoteLegs policy consumed state legs quantity
      .ok (costedQuote policy quantity sized)

/-- A walk to the cap is used again when it ended at the quantity. -/
def requoteLeg (leg : PayoffLegTemplate) (quantity : ℕ) (depth : Execution) :
    Except StudyException Execution :=
  if depth.quantity = quantity then .ok depth else quoteLeg policy consumed state leg quantity

/-- **The quote of the first policies**, or the reason why there is none. -/
def legacyQuote (available : ℤ) : Except StudyException (Except String SizedPair) := do
  let cap := policy.quantityCap.raw / policy.quantityStep.raw * policy.quantityStep.raw
  let depth0 ← quoteLeg policy consumed state (legs 0) cap
  let depth1 ← quoteLeg policy consumed state (legs 1) cap
  let quantity := min depth0.quantity depth1.quantity
  if quantity = 0 then .ok (.error "no_depth")
  else do
    let quote0 ← requoteLeg policy consumed state (legs 0) quantity depth0
    let quote1 ← requoteLeg policy consumed state (legs 1) quantity depth1
    let sized ← sizeLegs policy legs quantity ![quote0, quote1]
    fundedQuote policy consumed state legs available quantity sized

/-- The quote of a policy, with the work of the search. -/
def selectQuote (available : ℤ) (counters : SizingCounters) :
    Except StudyException (Except String SizedPair × SizingCounters) :=
  if policy.optimalSizing then
    match Cash.fromRaw available with
    | none => invalid "net sizing input/arithmetic invariant"
    | some available => optimalQuote policy consumed available counters legs state
  else (legacyQuote policy consumed state legs available).map fun quote => (quote, counters)

end Quote

end EventMarket.Session
