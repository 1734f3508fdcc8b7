import EventMarket.Core.OrderBuilding

/-!
# The cost of the levels already passed

Both sizing searches walk a ladder once. Whole levels are charged as they are passed, and the last
level of an order is charged again from there for each quantity, so that a larger order does not
manufacture additional fills.

## Main definitions

* `CostPrefix`: quantity, notional, debit and rounding of the levels passed.
* `CostPrefix.Follows`: these are the beginning of every order that goes on from there.

## Main results

* `CostPrefix.Follows.pass`: passing a whole level.
* `CostPrefix.Follows.buildOrder_eq`: an order that ends on the current level is built from the
  prefix and one more fill.
-/

namespace EventMarket.Core

/-- What the passed levels cost. -/
structure CostPrefix where
  quantity : ℕ := 0
  notional : ℕ := 0
  debit : ℕ := 0
  accumulator : FeeAccumulator := {}
  deriving DecidableEq, Repr

/-- Add a level passed whole. -/
def CostPrefix.pass (passed : CostPrefix) (count : ℕ) (charge : FillCharge)
    (accumulator : FeeAccumulator) : CostPrefix where
  quantity := passed.quantity + count
  notional := passed.notional + charge.notional
  debit := passed.debit + charge.debit
  accumulator

/-- **The prefix follows the ladder.** It has charged the fills of the levels passed, and an order
of at most `bound` that goes on to `levels` has these fills first. -/
structure CostPrefix.Follows (depth : BuyDepth) (step bound : ℕ) (passed : CostPrefix)
    (levels : List BuyLevel) (fills : List BuyFill) (charges : List FillCharge) : Prop where
  ascending : Ascending levels
  charged : chargeBuyFills depth.fees fills {} = some (charges, passed.accumulator)
  notional : passed.notional = (charges.map FillCharge.notional).sum
  debit : passed.debit = totalDebit charges
  quantity : totalQuantity fills = passed.quantity
  grid : ∀ fill ∈ fills, 0 < fill.quantity ∧ step ∣ fill.quantity
  rest : ∀ q, passed.quantity ≤ q → q ≤ bound → orderFills step depth.levels q =
    (orderFills step levels (q - passed.quantity)).map (fills ++ ·)

namespace CostPrefix

variable {depth : BuyDepth} {step bound q : ℕ} {passed : CostPrefix} {level : BuyLevel}
  {levels : List BuyLevel} {fills : List BuyFill} {charges : List FillCharge}

theorem start_follows (ha : Ascending depth.levels) :
    Follows depth step bound {} depth.levels [] [] where
  ascending := ha
  charged := rfl
  notional := rfl
  debit := rfl
  quantity := rfl
  grid := by simp
  rest := by simp

namespace Follows

theorem dvd_quantity (h : Follows depth step bound passed levels fills charges) :
    step ∣ passed.quantity := by
  rw [← h.quantity]
  exact List.dvd_sum fun q hq => by
    obtain ⟨fill, hmem, rfl⟩ := List.mem_map.mp hq
    exact (h.grid fill hmem).2

/-- The carried rounding is at most a quantum a fill. -/
theorem rounding_le (h : Follows depth step bound passed levels fills charges) (hstep : 0 < step)
    (hfee : depth.fees.Valid) (hle : passed.quantity ≤ quantityBound) :
    passed.accumulator.roundingMicro ≤ 1000000000000 := by
  obtain ⟨-, hleft⟩ := feeDenominator_mul_totalDebit_le
    ⟨10000, le_rfl⟩ (fun fill _ => fill.price.le_scale) h.charged
  have hcount := length_mul_step_le h.grid
  have hsteps : fills.length * 1 ≤ fills.length * step := Nat.mul_le_mul_left _ hstep
  have hquantum : depth.fees.balanceQuantumMicro ≤ 10000 := by
    have := hfee.2
    omega
  have hproduct := Nat.mul_le_mul_left fills.length hquantum
  have htotal := h.quantity
  simp only [quantityBound] at hle
  simp only at hleft
  omega

/-- The next fill is charged. -/
theorem exists_charge (h : Follows depth step bound passed levels fills charges) (hstep : 0 < step)
    (hfee : depth.fees.Valid) (price : Price) (count : ℕ) (hpos : 0 < count)
    (hle : passed.quantity + count ≤ quantityBound) :
    ∃ charge left,
      chargeBuyFill count price depth.fees passed.accumulator = some (charge, left) := by
  have hround := h.rounding_le hstep hfee (by omega)
  obtain ⟨⟨charge, left⟩, hcharge⟩ := Option.isSome_iff_exists.mp
    (chargeBuyFill_isSome_of_le_bound price passed.accumulator hfee
      hpos (by omega) (by omega))
  exact ⟨charge, left, hcharge⟩

/-- A level with nothing to take can be dropped. -/
theorem drop (h : Follows depth step bound passed (level :: levels) fills charges)
    (hempty : level.quantity.raw / step * step = 0) :
    Follows depth step bound passed levels fills charges :=
  { h with
    ascending := h.ascending.tail
    rest := fun q hle hq => by
      rw [h.rest q hle hq, orderFills_cons_of_empty hempty] }

/-- **Passing a level.** The current level is charged whole. -/
theorem pass (h : Follows depth step bound passed (level :: levels) fills charges)
    (hpos : 0 < level.quantity.raw / step * step) {charge : FillCharge} {left : FeeAccumulator}
    (hcharge : chargeBuyFill (level.quantity.raw / step * step) level.price depth.fees
      passed.accumulator = some (charge, left)) :
    Follows depth step bound (passed.pass (level.quantity.raw / step * step) charge left) levels
      (fills ++ [⟨level.quantity.raw / step * step, level.price⟩]) (charges ++ [charge]) where
  ascending := h.ascending.tail
  charged := by
    rw [chargeBuyFills_append, h.charged, Option.bind_some]
    simp only [chargeBuyFills, hcharge, Option.bind_eq_bind, Option.bind_some, Option.map_some,
      CostPrefix.pass]
  notional := by simp [h.notional, CostPrefix.pass]
  debit := by simp [h.debit, CostPrefix.pass]
  quantity := by simp [h.quantity, CostPrefix.pass]
  grid := by
    intro fill hmem
    rcases List.mem_append.mp hmem with hmem | hmem
    · exact h.grid fill hmem
    · obtain rfl := List.mem_singleton.mp hmem
      exact ⟨hpos, Dvd.intro_left _ rfl⟩
  rest := by
    intro q hle hq
    simp only [CostPrefix.pass] at hle ⊢
    rw [h.rest q (by omega) hq, orderFills_cons_of_ge hpos (by omega), Option.map_map]
    simp [Function.comp_def, Nat.sub_sub]

/-- **An order that ends on the current level.** It is built from the prefix and one fill more. -/
theorem buildOrder_eq (h : Follows depth step bound passed (level :: levels) fills charges)
    (hr : Reservable q step depth.fees) (hlt : passed.quantity < q) (hbound : q ≤ bound)
    (hle : q - passed.quantity ≤ level.quantity.raw / step * step) {charge : FillCharge}
    {left : FeeAccumulator}
    (hcharge : chargeBuyFill (q - passed.quantity) level.price depth.fees passed.accumulator =
      some (charge, left)) :
    buildOrder depth step q = some ⟨level.price, passed.notional + charge.notional,
      passed.debit + charge.debit, reservationAmount q step level.price depth.fees⟩ := by
  rw [buildOrder_eq_some_iff hr]
  refine ⟨fills ++ [⟨q - passed.quantity, level.price⟩], charges ++ [charge], left, ?_, ?_, ?_⟩
  · rw [h.rest q hlt.le hbound, orderFills_cons_of_le (by omega) hle, Option.map_some]
  · rw [chargeBuyFills_append, h.charged, Option.bind_some]
    simp only [chargeBuyFills, hcharge, Option.bind_eq_bind, Option.bind_some, Option.map_some]
  · rw [limitOf_append _ (by simp), limitOf_singleton]
    simp [h.notional, h.debit]

/-- With no level left there is no order beyond the prefix. -/
theorem orderFills_eq_none (h : Follows depth step bound passed [] fills charges)
    (hlt : passed.quantity < q) (hbound : q ≤ bound) :
    orderFills step depth.levels q = none := by
  rw [h.rest q hlt.le hbound]
  simp only [orderFills]
  rw [if_neg (by omega), Option.map_none]

/-- An order that the ladder fills goes on to the levels left. -/
theorem orderFills_isSome (h : Follows depth step bound passed levels fills charges)
    (hle : passed.quantity ≤ q) (hbound : q ≤ bound)
    (hsome : (orderFills step depth.levels q).isSome) :
    (orderFills step levels (q - passed.quantity)).isSome := by
  rwa [h.rest q hle hbound, Option.isSome_map] at hsome

end Follows

end CostPrefix

end EventMarket.Core
