import EventMarket.Core.ExecutionCost
import Mathlib.Algebra.BigOperators.Group.List.Basic

/-!
# Worst-case reservations of buy orders

Before an order is sent, its cash is reserved. The fills that will answer it are not known, and
the fee is quadratic in the price, so the reservation charges every centicontract at the limit,
the trade fee at the price where the quadratic is largest, and for each grid step one quantum of
rounding and one microdollar of a rounded-up fee.

## Main definitions

* `buyReservation`: the reservation of the source, with the checks it makes.
* `reservationAmount`: its value on accepted arguments.
* `chargeBuyFills`: the fills of one order, charged one after the other.

## Main results

* `buyReservation_eq`: the reservation of accepted arguments.
* `sum_debit_le`: the debits of any admissible list of fills stay within the reservation.
-/

namespace EventMarket.Core

/-- The largest order, in centicontracts. -/
def quantityBound : ℕ := 100000000

/-- Conservative peak reserve of a buy order: a funding bound, not a fee estimate. -/
def buyReservation (quantity step : ℕ) (limit : Price) (fee : FeePolicy) : Option ℕ :=
  if quantityBound < quantity ∨ (step ≠ 1 ∧ step ≠ 100) ∨ quantity % step ≠ 0 ∨ ¬fee.Valid then none
  else if quantity = 0 then some 0
  else do
    let (peak, _) ← chargeBuyFill quantity Price.half fee {}
    some (quantity * limit.raw + peak.tradeFee + quantity / step * (fee.balanceQuantumMicro + 1))

/-- The value of a reservation. -/
def reservationAmount (quantity step : ℕ) (limit : Price) (fee : FeePolicy) : ℕ :=
  quantity * limit.raw + exactFee quantity Price.half fee +
    quantity / step * (fee.balanceQuantumMicro + 1)

/-- A quantity bought at one price. -/
structure BuyFill where
  quantity : ℕ
  price : Price
  deriving DecidableEq, Repr

/-- The fills of one buy order, charged one after the other with one accumulator. -/
def chargeBuyFills (policy : FeePolicy) :
    List BuyFill → FeeAccumulator → Option (List FillCharge × FeeAccumulator)
  | [], accumulator => some ([], accumulator)
  | fill :: fills, accumulator => do
    let (charge, accumulator) ← chargeBuyFill fill.quantity fill.price policy accumulator
    let (charges, accumulator) ← chargeBuyFills policy fills accumulator
    some (charge :: charges, accumulator)

/-! ### The value of a reservation -/

section Reservation

variable {quantity step : ℕ} {limit : Price} {fee : FeePolicy}

/-- The arguments on which a reservation exists. -/
structure Reservable (quantity step : ℕ) (fee : FeePolicy) : Prop where
  le_bound : quantity ≤ quantityBound
  step_eq : step = 1 ∨ step = 100
  dvd : step ∣ quantity
  fee_valid : fee.Valid

theorem Reservable.step_pos (h : Reservable quantity step fee) : 0 < step := by
  rcases h.step_eq with h | h <;> omega

theorem chargeBuyFill_isSome_of_le_bound (price : Price) (accumulator : FeeAccumulator)
    (hfee : fee.Valid) (hpos : 0 < quantity) (hle : quantity ≤ quantityBound)
    (hacc : accumulator.roundingMicro ≤ 1000000000000000000) :
    (chargeBuyFill quantity price fee accumulator).isSome :=
  chargeBuyFill_isSome hfee hpos (hle.trans (by decide)) hacc

@[simp] theorem exactFee_zero (price : Price) : exactFee 0 price fee = 0 := by
  simp [exactFee]

theorem buyReservation_eq (h : Reservable quantity step fee) :
    buyReservation quantity step limit fee = some (reservationAmount quantity step limit fee) := by
  have hmod : quantity % step = 0 := Nat.mod_eq_zero_of_dvd h.dvd
  have hguard : ¬(quantityBound < quantity ∨ (step ≠ 1 ∧ step ≠ 100) ∨ quantity % step ≠ 0 ∨
      ¬fee.Valid) := by
    rintro (hlt | hstep | hne | hfee)
    · exact absurd h.le_bound (not_le.mpr hlt)
    · exact h.step_eq.elim hstep.1 hstep.2
    · exact hne hmod
    · exact hfee h.fee_valid
  unfold buyReservation
  rw [if_neg hguard]
  rcases Nat.eq_zero_or_pos quantity with rfl | hpos
  · simp [reservationAmount]
  · rw [if_neg (by omega)]
    obtain ⟨⟨peak, left⟩, hpeak⟩ := Option.isSome_iff_exists.mp
      (chargeBuyFill_isSome_of_le_bound Price.half {} h.fee_valid hpos
        h.le_bound (by decide))
    obtain ⟨-, -, -, htrade, -⟩ := chargeBuyFill_spec hpeak
    simp only [hpeak, Option.bind_eq_bind, Option.bind_some, htrade, reservationAmount]

theorem buyReservation_eq_some {reserve : ℕ}
    (h : buyReservation quantity step limit fee = some reserve) :
    Reservable quantity step fee := by
  unfold buyReservation at h
  split_ifs at h with h1 h2 <;>
  · simp only [not_or, not_lt, not_and_or, not_not] at h1
    obtain ⟨hle, hstep, hmod, hfee⟩ := h1
    exact ⟨hle, by tauto, Nat.dvd_of_mod_eq_zero hmod, hfee⟩

/-- A larger order with a larger limit needs a larger reservation. -/
theorem reservationAmount_mono {quantity' : ℕ} {limit' : Price} (hq : quantity ≤ quantity')
    (hp : limit.raw ≤ limit'.raw) :
    reservationAmount quantity step limit fee ≤ reservationAmount quantity' step limit' fee := by
  have hfee : exactFee quantity Price.half fee ≤ exactFee quantity' Price.half fee := by
    simp only [exactFee, Nat.ceilDiv_eq_add_pred_div]
    gcongr
  unfold reservationAmount
  gcongr

theorem reservationAmount_lt (h : Reservable quantity step fee) :
    reservationAmount quantity step limit fee ≤ 3000000000000 := by
  have hle := h.le_bound
  have hfee := exactFee_le quantity Price.half h.fee_valid.1
  have hlimit := Nat.mul_le_mul hle limit.le_scale
  have hsteps := Nat.mul_le_mul ((Nat.div_le_self quantity step).trans hle)
    (show fee.balanceQuantumMicro + 1 ≤ 10001 by rcases h.fee_valid.2 with h | h <;> omega)
  simp only [quantityBound] at *
  unfold reservationAmount
  omega

end Reservation

/-! ### The fills of one order -/

section Fills

variable {policy : FeePolicy} {fills : List BuyFill}
  {accumulator left : FeeAccumulator} {charges : List FillCharge}

/-- A charged list of fills, taken apart at its first fill. -/
theorem chargeBuyFills_cons_eq_some {fill : BuyFill}
    (h : chargeBuyFills policy (fill :: fills) accumulator = some (charges, left)) :
    ∃ charge middle rest, charges = charge :: rest ∧
      chargeBuyFill fill.quantity fill.price policy accumulator = some (charge, middle) ∧
      chargeBuyFills policy fills middle = some (rest, left) := by
  simp only [chargeBuyFills, Option.bind_eq_bind] at h
  obtain ⟨⟨charge, middle⟩, hcharge, h⟩ := Option.bind_eq_some_iff.mp h
  obtain ⟨⟨rest, last⟩, hrest, h⟩ := Option.bind_eq_some_iff.mp h
  simp only [Option.some.injEq, Prod.mk.injEq] at h
  obtain ⟨rfl, rfl⟩ := h
  exact ⟨charge, middle, rest, rfl, hcharge, hrest⟩

theorem chargeBuyFills_append (policy : FeePolicy) (fills more : List BuyFill)
    (accumulator : FeeAccumulator) :
    chargeBuyFills policy (fills ++ more) accumulator =
      (chargeBuyFills policy fills accumulator).bind fun (charges, middle) =>
        (chargeBuyFills policy more middle).map fun (rest, left) => (charges ++ rest, left) := by
  induction fills generalizing accumulator with
  | nil => simp [chargeBuyFills]
  | cons fill fills ih =>
    simp only [List.cons_append, chargeBuyFills, Option.bind_eq_bind, Option.bind_assoc, ih]
    refine Option.bind_congr fun ⟨charge, next⟩ _ => ?_
    refine Option.bind_congr fun ⟨rest, middle⟩ _ => ?_
    simp only [Option.bind_some]
    cases chargeBuyFills policy more middle <;> rfl

/-- The quantity of a list of fills. -/
def totalQuantity (fills : List BuyFill) : ℕ := (fills.map BuyFill.quantity).sum

@[simp] theorem totalQuantity_nil : totalQuantity [] = 0 := rfl

@[simp] theorem totalQuantity_cons (fill : BuyFill) (fills : List BuyFill) :
    totalQuantity (fill :: fills) = fill.quantity + totalQuantity fills := by
  simp [totalQuantity]

@[simp] theorem totalQuantity_append (fills more : List BuyFill) :
    totalQuantity (fills ++ more) = totalQuantity fills + totalQuantity more := by
  simp [totalQuantity]

/-- The cash debited by a list of charges. -/
def totalDebit (charges : List FillCharge) : ℕ := (charges.map FillCharge.debit).sum

@[simp] theorem totalDebit_nil : totalDebit [] = 0 := rfl

@[simp] theorem totalDebit_cons (charge : FillCharge) (charges : List FillCharge) :
    totalDebit (charge :: charges) = charge.debit + totalDebit charges := by
  simp [totalDebit]

@[simp] theorem totalDebit_append (charges more : List FillCharge) :
    totalDebit (charges ++ more) = totalDebit charges + totalDebit more := by
  simp [totalDebit]

/-- The fills an order with this limit and quantity may receive. -/
structure Admissible (quantity step : ℕ) (limit : Price) (fills : List BuyFill) : Prop where
  grid : ∀ fill ∈ fills, 0 < fill.quantity ∧ step ∣ fill.quantity
  price_le : ∀ fill ∈ fills, fill.price.raw ≤ limit.raw
  total_le : totalQuantity fills ≤ quantity

/-- Each fill takes at least one grid step. -/
theorem length_mul_step_le {step : ℕ} (h : ∀ fill ∈ fills, 0 < fill.quantity ∧
    step ∣ fill.quantity) :
    fills.length * step ≤ totalQuantity fills := by
  induction fills with
  | nil => simp
  | cons fill fills ih =>
    have hfill := Nat.le_of_dvd (h fill List.mem_cons_self).1 (h fill List.mem_cons_self).2
    have hrest := ih fun fill hmem => h fill (List.mem_cons_of_mem _ hmem)
    simp only [List.length_cons, totalQuantity_cons, Nat.succ_mul]
    omega

/-- Bounded lists of fills are charged. -/
theorem chargeBuyFills_isSome (hp : policy.Valid) (hpos : ∀ fill ∈ fills, 0 < fill.quantity)
    (hle : ∀ fill ∈ fills, fill.quantity ≤ quantityBound)
    (hacc : accumulator.roundingMicro + fills.length * 10000 ≤ 1000000000000000000) :
    (chargeBuyFills policy fills accumulator).isSome := by
  induction fills generalizing accumulator with
  | nil => rfl
  | cons fill fills ih =>
    simp only [List.forall_mem_cons] at hpos hle
    rw [List.length_cons] at hacc
    obtain ⟨⟨charge, middle⟩, hcharge⟩ := Option.isSome_iff_exists.mp
      (chargeBuyFill_isSome_of_le_bound fill.price accumulator hp
        hpos.1 hle.1 (by omega))
    obtain ⟨-, -, -, -, -, -, hgrow⟩ := chargeBuyFill_spec hcharge
    have hquantum : policy.balanceQuantumMicro ≤ 10000 := by rcases hp.2 with h | h <;> omega
    have htail : (chargeBuyFills policy fills middle).isSome := ih hpos.2 hle.2 (by omega)
    obtain ⟨⟨rest, left⟩, hrest⟩ := Option.isSome_iff_exists.mp htail
    simp [chargeBuyFills, hcharge, hrest]

/-- The exact fee is at most one microdollar more than its peak share. -/
theorem feeDenominator_mul_exactFee_le (quantity : ℕ) (price : Price) (policy : FeePolicy) :
    feeDenominator * exactFee quantity price policy ≤
      quantity * (policy.coefficientPpm * 25000000) + feeDenominator := by
  have hfactor := Nat.mul_le_mul_left quantity (feeFactor_le policy price)
  have hceil : feeDenominator * exactFee quantity price policy ≤
      quantity * (policy.coefficientPpm * price.raw * (10000 - price.raw)) + feeDenominator := by
    rw [exactFee, Nat.ceilDiv_eq_add_pred_div]
    refine (Nat.mul_div_le _ _).trans ?_
    omega
  omega

/-- **Debits of a list of fills.** The debits and the initial accumulator are the notional, the
fees and the final accumulator; against the limit and the peak fee they lose at most one quantum
and one microdollar a fill. -/
theorem feeDenominator_mul_totalDebit_le (limit : Price)
    (hprice : ∀ fill ∈ fills, fill.price.raw ≤ limit.raw)
    (h : chargeBuyFills policy fills accumulator = some (charges, left)) :
    feeDenominator * (totalDebit charges + accumulator.roundingMicro) ≤
        feeDenominator * (totalQuantity fills * limit.raw + fills.length + left.roundingMicro) +
          totalQuantity fills * (policy.coefficientPpm * 25000000) ∧
      left.roundingMicro ≤ accumulator.roundingMicro + fills.length *
        policy.balanceQuantumMicro := by
  induction fills generalizing accumulator charges with
  | nil =>
    simp only [chargeBuyFills, Option.some.injEq, Prod.mk.injEq] at h
    obtain ⟨rfl, rfl⟩ := h
    simp
  | cons fill fills ih =>
    obtain ⟨charge, middle, rest, rfl, hcharge, hrest⟩ := chargeBuyFills_cons_eq_some h
    simp only [List.forall_mem_cons] at hprice
    obtain ⟨hdebit, hleft⟩ := ih hprice.2 hrest
    obtain ⟨-, -, hnotional, htrade, hfill, -, hgrow⟩ := chargeBuyFill_spec hcharge
    have hfee := feeDenominator_mul_exactFee_le fill.quantity fill.price policy
    have hlimit := Nat.mul_le_mul_left fill.quantity hprice.1
    rw [← htrade] at hfee
    rw [← hnotional] at hlimit
    simp only [totalDebit_cons, totalQuantity_cons, List.length_cons, Nat.add_mul, one_mul] at *
    simp only [feeDenominator] at *
    constructor <;> omega

/-- Every fill debits at least its notional. -/
theorem totalQuantity_mul_le_totalDebit {low : ℕ} (hprice : ∀ fill ∈ fills, low ≤ fill.price.raw)
    (h : chargeBuyFills policy fills accumulator = some (charges, left)) :
    totalQuantity fills * low ≤ totalDebit charges := by
  induction fills generalizing accumulator charges with
  | nil => simp
  | cons fill fills ih =>
    obtain ⟨charge, middle, rest, rfl, hcharge, hrest⟩ := chargeBuyFills_cons_eq_some h
    simp only [List.forall_mem_cons] at hprice
    obtain ⟨-, -, hnotional, -, -, hle, -⟩ := chargeBuyFill_spec hcharge
    have hlow := Nat.mul_le_mul_left fill.quantity hprice.1
    have hdebits := ih hprice.2 hrest
    rw [totalQuantity_cons, totalDebit_cons, Nat.add_mul]
    omega

/-- **Soundness of the reservation.** Whatever fills a buy order receives at or below its limit,
on its grid and up to its quantity, their debits stay within its reservation. -/
theorem sum_debit_le {quantity step : ℕ} {limit : Price} (hr : Reservable quantity step policy)
    (ha : Admissible quantity step limit fills)
    (h : chargeBuyFills policy fills {} = some (charges, left)) :
    totalDebit charges ≤ reservationAmount quantity step limit policy := by
  obtain ⟨hdebit, hleft⟩ := feeDenominator_mul_totalDebit_le limit ha.price_le h
  have hcount : fills.length ≤ quantity / step :=
    (Nat.le_div_iff_mul_le hr.step_pos).mpr ((length_mul_step_le ha.grid).trans ha.total_le)
  have hlimit := Nat.mul_le_mul_right limit.raw ha.total_le
  have hpeak : quantity * (policy.coefficientPpm * 25000000) ≤
      feeDenominator * exactFee quantity Price.half policy := by
    rw [exactFee, ← ceilDiv_le_iff_le_mul (by decide)]
    simp only [Price.half_raw, mul_assoc]
    exact le_refl _
  have hfactor := Nat.mul_le_mul_right (policy.coefficientPpm * 25000000) ha.total_le
  have hquanta := Nat.mul_le_mul_right (policy.balanceQuantumMicro + 1) hcount
  rw [Nat.mul_add_one] at hquanta
  unfold reservationAmount
  simp only [feeDenominator] at *
  omega

/-- The fills of an order of bounded size are charged. -/
theorem chargeBuyFills_isSome_of_admissible {quantity step : ℕ} {limit : Price}
    (hr : Reservable quantity step policy) (ha : Admissible quantity step limit fills) :
    (chargeBuyFills policy fills {}).isSome := by
  have hbound := hr.le_bound
  have hcount := length_mul_step_le ha.grid
  have hstep : fills.length * 1 ≤ fills.length * step := Nat.mul_le_mul_left _ hr.step_pos
  have htotal := ha.total_le
  simp only [quantityBound] at hbound
  refine chargeBuyFills_isSome hr.fee_valid (fun fill hmem => (ha.grid fill hmem).1)
    (fun fill hmem => ?_) (by simp only []; omega)
  have := List.single_le_sum (fun x _ => Nat.zero_le x) fill.quantity
    (List.mem_map_of_mem (f := BuyFill.quantity) hmem)
  simp only [quantityBound, totalQuantity] at *
  omega

end Fills

end EventMarket.Core
