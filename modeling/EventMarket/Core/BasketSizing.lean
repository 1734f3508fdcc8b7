import EventMarket.Core.NetSizing

/-!
# Sizing a basket of three buys

Three contracts of which two must pay: a basket pays two dollars. `sizeBuyBasket` tries every whole
number of contracts up to the cap. Each leg keeps a cursor that charges completed levels once and
the last, partly consumed level again for each quantity; the loop stops when the reservations
exceed the available cash.

## Main definitions

* `SizedBasket`, `BasketSizingResult`: the interface.
* `CostCursor.at`: the cost of one leg at the next quantity.
* `BasketSearch.loop`: the enumeration.
* `sizeBuyBasket`: the validated entry point.
-/

namespace EventMarket.Core

/-- Three equal legs. The margin may be negative in a diagnostic. -/
structure SizedBasket where
  quantity : ℕ
  legs : Fin 3 → SizedLeg
  payoutFloor : ℕ
  netMarginMicro : ℤ

structure BasketSizingResult where
  status : SizingStatus := .invalidInput
  quote : Option SizedBasket := none
  oneContractDiagnostic : Option SizedBasket := none
  evaluatedQuantities : ℕ := 0

/-- The largest basket, in centicontracts. -/
def maximumBasketQuantity : ℕ := 10000

/-- One whole contract. -/
def basketQuantityStep : ℕ := 100

/-! ### Cursors -/

/-- A ladder from the current level on, and the cost of the levels completed. -/
structure CostCursor where
  fees : FeePolicy
  levels : List BuyLevel
  passed : CostPrefix := {}
  deriving DecidableEq, Repr

namespace CostCursor

/-- Complete the levels that end before `quantity`. -/
def complete (fees : FeePolicy) (quantity : ℕ) :
    List BuyLevel → CostPrefix → Option (List BuyLevel × CostPrefix)
  | [], passed => some ([], passed)
  | level :: levels, passed =>
    if level.quantity.raw < quantity - passed.quantity then do
      let (charge, accumulator) ←
        chargeBuyFill level.quantity.raw level.price fees passed.accumulator
      complete fees quantity levels (passed.pass level.quantity.raw charge accumulator)
    else some (level :: levels, passed)

/-- The leg at `quantity`. The cursor keeps the completed levels; the last level is recomputed
from there when the quantity grows. -/
def «at» (cursor : CostCursor) (quantity : ℕ) : Option (SizedLeg × CostCursor) := do
  let (levels, passed) ← complete cursor.fees quantity cursor.levels cursor.passed
  match levels with
  | [] => none
  | level :: _ =>
    let (charge, _) ←
      chargeBuyFill (quantity - passed.quantity) level.price cursor.fees passed.accumulator
    let reserve ← buyReservation quantity 1 level.price cursor.fees
    some (⟨level.price, passed.notional + charge.notional, passed.debit + charge.debit, reserve⟩,
      { cursor with levels, passed })

end CostCursor

/-! ### The enumeration -/

structure BasketSearch where
  limits : SizingLimits
  cursors : Fin 3 → CostCursor
  best : Option SizedBasket := none
  bestReserve : ℕ := 0
  funded : Bool := false
  oneContractDiagnostic : Option SizedBasket := none
  evaluatedQuantities : ℕ := 0

namespace BasketSearch

/-- A result without a quote. -/
def failed (search : BasketSearch) (status : SizingStatus) : BasketSizingResult where
  status
  oneContractDiagnostic := search.oneContractDiagnostic
  evaluatedQuantities := search.evaluatedQuantities

/-- All three legs at one quantity, with the cursors moved there. -/
def evaluate (search : BasketSearch) (q : ℕ) :
    Option ((Fin 3 → SizedLeg) × (Fin 3 → CostCursor)) := do
  let (leg0, cursor0) ← (search.cursors 0).at q
  let (leg1, cursor1) ← (search.cursors 1).at q
  let (leg2, cursor2) ← (search.cursors 2).at q
  some (![leg0, leg1, leg2], ![cursor0, cursor1, cursor2])

/-- Whether a basket beats the best one: a larger margin, then a smaller reserve, then a smaller
quantity. -/
def improves (search : BasketSearch) (value : SizedBasket) (reserve : ℕ) : Bool :=
  match search.best with
  | none => true
  | some best =>
    value.netMarginMicro > best.netMarginMicro ||
      (value.netMarginMicro == best.netMarginMicro &&
        (reserve < search.bestReserve ||
          (reserve == search.bestReserve && value.quantity < best.quantity)))

/-- Compare a funded basket with the best one. -/
def consider (search : BasketSearch) (value : SizedBasket) (reserve : ℕ) : BasketSearch :=
  if value.netMarginMicro > search.limits.minimumMargin.raw ∧
      search.improves value reserve = true then
    { search with funded := true, best := some value, bestReserve := reserve }
  else { search with funded := true }

/-- The basket of three legs at a quantity. -/
def basket (q : ℕ) (legs : Fin 3 → SizedLeg) : SizedBasket where
  quantity := q
  legs
  payoutFloor := q * 20000
  netMarginMicro := (q * 20000 : ℕ) - ((legs 0).debit + (legs 1).debit + (legs 2).debit : ℕ)

/-- The quantities from `q` on, a whole contract at a time. -/
def loop : ℕ → BasketSearch → (available q : ℕ) → Except BasketSizingResult BasketSearch
  | 0, search, _, _ => .ok search
  | fuel + 1, search, available, q =>
    if available < q then .ok search
    else if search.evaluatedQuantities = search.limits.maxEvaluations then
      .error (search.failed .searchBudgetExceeded)
    else
      let search := { search with evaluatedQuantities := search.evaluatedQuantities + 1 }
      match search.evaluate q with
      | none => .error (search.failed .arithmeticError)
      | some (legs, cursors) =>
        let value := basket q legs
        let reserve := (legs 0).reservation + (legs 1).reservation + (legs 2).reservation
        let search := { search with
          cursors
          oneContractDiagnostic :=
            if q = basketQuantityStep then some value else search.oneContractDiagnostic }
        -- With nonnegative fees, quantity and worst price only increase; once this conservative
        -- reserve fails, later sizes fail too.
        if search.limits.available.raw < reserve then .ok search
        else loop fuel (search.consider value reserve) available (q + basketQuantityStep)

def finish (search : BasketSearch) : BasketSizingResult :=
  match search.best with
  | some best => { search.failed .optimal with quote := some best }
  | none => search.failed (if search.funded then .noPositiveMargin else .insufficientCash)

end BasketSearch

/-! ### The entry point -/

/-- A ladder the enumeration accepts. -/
def BuyDepth.ValidBasket (depth : BuyDepth) : Prop :=
  depth.levels.length ≤ 10001 ∧ depth.fees.Valid ∧ Ascending depth.levels ∧
    ∀ level ∈ depth.levels, level.quantity.raw ≠ 0

instance (depth : BuyDepth) : Decidable depth.ValidBasket :=
  inferInstanceAs (Decidable (_ ∧ _ ∧ List.Pairwise _ _ ∧ ∀ level ∈ depth.levels, _))

/-- Limits the enumeration accepts. -/
def SizingLimits.ValidBasket (limits : SizingLimits) : Prop :=
  basketQuantityStep ≤ limits.cap.raw ∧ limits.cap.raw ≤ maximumBasketQuantity ∧
    limits.cap.raw % basketQuantityStep = 0 ∧ limits.step.raw = basketQuantityStep ∧
    limits.available.raw ≤ cashBound ∧ limits.minimumMargin.raw ≤ cashBound ∧
    limits.maxEvaluations ≠ 0

instance (limits : SizingLimits) : Decidable limits.ValidBasket :=
  inferInstanceAs (Decidable (_ ∧ _ ∧ _ ∧ _ ∧ _ ∧ _ ∧ _))

/-- The quantity of a ladder, saturated at the cap. -/
def saturatedDepth (cap : ℕ) (levels : List BuyLevel) : ℕ :=
  levels.foldl (fun total level => min cap (total + min level.quantity.raw cap)) 0

/-- The quantity available on all legs within the cap. -/
def basketAvailable (depth : Fin 3 → BuyDepth) (cap : ℕ) : ℕ :=
  min (min (min cap (saturatedDepth cap (depth 0).levels)) (saturatedDepth cap (depth 1).levels))
    (saturatedDepth cap (depth 2).levels)

def CostCursor.start (depth : BuyDepth) : CostCursor where
  fees := depth.fees
  levels := depth.levels

/-- Exact enumeration of whole contracts. An exhausted budget never returns a partial optimum. -/
def sizeBuyBasket (depth : Fin 3 → BuyDepth) (limits : SizingLimits) : BasketSizingResult :=
  if limits.ValidBasket ∧ (depth 0).ValidBasket ∧ (depth 1).ValidBasket ∧
      (depth 2).ValidBasket then
    let available := basketAvailable depth limits.cap.raw
    if available < basketQuantityStep then { status := .noDepth }
    else
      let search : BasketSearch := { limits, cursors := fun leg => .start (depth leg) }
      match search.loop (available / basketQuantityStep) available basketQuantityStep with
      | .error result => result
      | .ok search => search.finish
  else {}

end EventMarket.Core
