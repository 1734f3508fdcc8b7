import EventMarket.Core.FixedPoint
import Mathlib.Algebra.Order.Floor.Div

/-!
# The fee ledger of one order

A fill of `q` centicontracts at price `p` pays the notional `q * p`, a trade fee
`ceil(coefficient * contracts * price * (1 - price))` in microdollars, and a rounding of its cash
to the balance quantum of the account. The rounding is carried in an accumulator, one for each
order, and comes back as a rebate of whole quanta; a rebate never makes the fee of its own fill
negative.

The source computes the fee without wide integers: `ceilProduct` divides while it multiplies,
one bit of the second factor at a time, whenever the product may not fit into 64 bits.

## Main definitions

* `FeePolicy`, `FeeAccumulator`, `FillAmounts`.
* `ceilProduct`: the exact ceiling of a product over the fee denominator.
* `fillAmounts`, `chargeBuyFill`, `creditSellFill`: one fill of the ledger.
* `exactFee`: the fee in exact arithmetic.

## Main results

* `ceilProduct_eq`: `ceilProduct` returns the exact ceiling, or nothing when it is too large.
* `chargeBuyFill_spec`: what a successful buy charges.
* `chargeBuyFill_isSome`: a buy of bounded size with a valid policy succeeds.
-/

namespace EventMarket.Core

/-- Explicit account and product assumptions: the fee coefficient in parts per million and the
balance quantum of the account in microdollars. -/
structure FeePolicy where
  coefficientPpm : ℕ
  balanceQuantumMicro : ℕ
  deriving DecidableEq, Repr

/-- The policies the ledger accepts. -/
def FeePolicy.Valid (policy : FeePolicy) : Prop :=
  policy.coefficientPpm ≤ 1000000 ∧
    (policy.balanceQuantumMicro = 100 ∨ policy.balanceQuantumMicro = 10000)

instance (policy : FeePolicy) : Decidable policy.Valid :=
  inferInstanceAs (Decidable (_ ∧ _))

/-- The rounding carried from fill to fill of one order. -/
structure FeeAccumulator where
  roundingMicro : ℕ := 0
  deriving DecidableEq, Repr

/-- What a fill of a buy charges. -/
structure FillCharge where
  notional : ℕ
  tradeFee : ℕ
  roundingFee : ℕ
  rebate : ℕ
  debit : ℕ
  deriving DecidableEq, Repr

/-- What a fill of a sale credits. -/
structure FillCredit where
  notional : ℕ
  tradeFee : ℕ
  roundingFee : ℕ
  rebate : ℕ
  credit : ℕ
  deriving DecidableEq, Repr

/-- The amounts of one fill; `change` is the debit of a buy and the credit of a sale. -/
structure FillAmounts where
  notional : ℕ
  tradeFee : ℕ
  roundingFee : ℕ
  rebate : ℕ
  change : ℕ
  deriving DecidableEq, Repr

/-- The denominator of the quadratic fee: parts per million times two price scales over the
microdollars of a notional unit. -/
abbrev feeDenominator : ℕ := 10000000000

/-! ### Exact ceilings without wide integers -/

/-- The bits `bit - 1, …, 0` of the division during the multiplication `a * b`. -/
def ceilProductLoop (a b : ℕ) : ℕ → ℕ → ℕ → Option (ℕ × ℕ)
  | 0, quotient, remainder => some (quotient, remainder)
  | bit + 1, quotient, remainder =>
    if int64Max / 2 < quotient then none
    else do
      let (quotient, remainder) ←
        if b.testBit bit then
          let add := a / feeDenominator
          if int64Max - add < quotient * 2 then none
          else some (quotient * 2 + add, remainder * 2 + a % feeDenominator)
        else some (quotient * 2, remainder * 2)
      let carry := remainder / feeDenominator
      if int64Max - carry < quotient then none
      else ceilProductLoop a b bit (quotient + carry) (remainder % feeDenominator)

/-- The ceiling of `a * b` over the fee denominator. The product is formed only when it fits
into 64 bits. -/
def ceilProduct (a b : ℕ) : Option ℕ :=
  if b = 0 then some 0
  else if a ≤ uint64Max / b then
    let product := a * b
    let result := product / feeDenominator + if product % feeDenominator ≠ 0 then 1 else 0
    if result ≤ int64Max then some result else none
  else do
    let (quotient, remainder) ← ceilProductLoop a b 64 0 0
    if remainder ≠ 0 then
      if quotient = int64Max then none else some (quotient + 1)
    else some quotient

/-- A quotient and a remainder below the denominator are those of their number. -/
private theorem divMod_of_lt (quotient : ℕ) {remainder : ℕ} (hr : remainder < feeDenominator) :
    (quotient * feeDenominator + remainder) / feeDenominator = quotient ∧
      (quotient * feeDenominator + remainder) % feeDenominator = remainder := by
  simp only [feeDenominator] at *
  omega

/-- The quotient and the remainder over the fee denominator, when the quotient is a signed
64-bit integer. -/
def checkedDivMod (total : ℕ) : Option (ℕ × ℕ) :=
  if total / feeDenominator ≤ int64Max then
    some (total / feeDenominator, total % feeDenominator)
  else none

/-- **The bit-serial division is exact.** The loop returns the quotient and the remainder of the
number whose high part is already consumed, and fails exactly when the quotient does not fit. -/
theorem ceilProductLoop_eq {a b : ℕ} (ha : a ≤ uint64Max) :
    ∀ (bit quotient remainder : ℕ), remainder < feeDenominator → quotient ≤ int64Max →
      ceilProductLoop a b bit quotient remainder =
        checkedDivMod ((quotient * feeDenominator + remainder) * 2 ^ bit + a * (b % 2 ^ bit)) := by
  intro bit
  induction bit with
  | zero =>
    intro quotient remainder hr hq
    obtain ⟨hdiv, hmod⟩ := divMod_of_lt quotient hr
    simp only [ceilProductLoop, checkedDivMod, pow_zero, mul_one, Nat.mod_one, mul_zero, add_zero,
      hdiv, hmod, if_pos hq]
  | succ bit ih =>
    intro quotient remainder hr hq
    -- The number after this bit: doubled, and `a` added when the bit is set.
    set next := (quotient * feeDenominator + remainder) * 2 + if b.testBit bit then a else 0
      with hnext
    have htotal : (quotient * feeDenominator + remainder) * 2 ^ (bit + 1) +
        a * (b % 2 ^ (bit + 1)) = next * 2 ^ bit + a * (b % 2 ^ bit) := by
      have hbits : b % 2 ^ (bit + 1) = b % 2 ^ bit + 2 ^ bit * (b.testBit bit).toNat := by
        rw [pow_succ, Nat.mod_mul, Nat.toNat_testBit]
      rw [hbits, hnext]
      cases b.testBit bit <;> simp <;> ring
    have hstep (hfit : next / feeDenominator ≤ int64Max) :
        ceilProductLoop a b bit (next / feeDenominator) (next % feeDenominator) =
          checkedDivMod (next * 2 ^ bit + a * (b % 2 ^ bit)) := by
      have h := ih (next / feeDenominator) (next % feeDenominator) (Nat.mod_lt _ (by decide)) hfit
      rwa [Nat.div_add_mod'] at h
    -- The quotient only grows, so a quotient that is too large now stays too large.
    have hfail (hbig : int64Max < next / feeDenominator) :
        none = checkedDivMod (next * 2 ^ bit + a * (b % 2 ^ bit)) := by
      have hmono : next / feeDenominator ≤
          (next * 2 ^ bit + a * (b % 2 ^ bit)) / feeDenominator := by
        refine Nat.div_le_div_right ?_
        have : next * 1 ≤ next * 2 ^ bit := Nat.mul_le_mul_left _ Nat.one_le_two_pow
        omega
      exact (if_neg (by omega)).symm
    rw [htotal]
    simp only [ceilProductLoop]
    cases hbit : b.testBit bit with
    | true =>
      rw [hbit, if_pos rfl] at hnext
      have hdiv : next / feeDenominator = quotient * 2 + a / feeDenominator +
          (remainder * 2 + a % feeDenominator) / feeDenominator := by
        simp only [feeDenominator] at *; omega
      have hmod : next % feeDenominator =
          (remainder * 2 + a % feeDenominator) % feeDenominator := by
        simp only [feeDenominator] at *; omega
      simp only [feeDenominator, int64Max, uint64Max] at ha hr hq hdiv hmod hstep hfail ⊢
      split_ifs with h1 h2
      · exact hfail (by omega)
      · exact hfail (by omega)
      · simp only [Option.bind_eq_bind, Option.bind_some]
        split_ifs with h3
        · exact hfail (by omega)
        · rw [← hmod, ← hdiv]
          exact hstep (by omega)
    | false =>
      rw [hbit, if_neg Bool.false_ne_true, add_zero] at hnext
      have hdiv : next / feeDenominator = quotient * 2 + remainder * 2 / feeDenominator := by
        simp only [feeDenominator] at *; omega
      have hmod : next % feeDenominator = remainder * 2 % feeDenominator := by
        simp only [feeDenominator] at *; omega
      simp only [feeDenominator, int64Max, uint64Max] at ha hr hq hdiv hmod hstep hfail ⊢
      simp only [Bool.false_eq_true, if_false, Option.bind_eq_bind, Option.bind_some]
      split_ifs with h1 h2
      · exact hfail (by omega)
      · exact hfail (by omega)
      · rw [← hmod, ← hdiv]
        exact hstep (by omega)

/-- **Exact ceiling.** For 64-bit factors `ceilProduct` returns the exact ceiling of the product
over the fee denominator when it is a signed 64-bit integer, and nothing otherwise. -/
theorem ceilProduct_eq {a b : ℕ} (ha : a ≤ uint64Max) (hb : b ≤ uint64Max) :
    ceilProduct a b =
      if a * b ⌈/⌉ feeDenominator ≤ int64Max then some (a * b ⌈/⌉ feeDenominator) else none := by
  have hceil : a * b ⌈/⌉ feeDenominator =
      a * b / feeDenominator + if a * b % feeDenominator ≠ 0 then 1 else 0 := by
    rw [Nat.ceilDiv_eq_add_pred_div]
    simp only [feeDenominator]
    split_ifs <;> omega
  unfold ceilProduct
  by_cases h0 : b = 0
  · simp [h0]
  by_cases h1 : a ≤ uint64Max / b
  · rw [if_neg h0, if_pos h1, hceil]
  rw [if_neg h0, if_neg h1, ceilProductLoop_eq ha 64 0 0 (by decide) (by decide), hceil]
  have hmod : b % 2 ^ 64 = b := Nat.mod_eq_of_lt (by simp only [uint64Max] at hb; omega)
  simp only [zero_mul, add_zero, zero_add, hmod, checkedDivMod, int64Max, feeDenominator]
  by_cases hq : a * b / 10000000000 ≤ 9223372036854775807
  · rw [if_pos hq]
    simp only [Option.bind_eq_bind, Option.bind_some]
    split_ifs <;> first | rfl | omega
  · rw [if_neg hq]
    exact (if_neg (by omega)).symm

/-! ### One fill -/

/-- The fee of a fill in exact arithmetic. -/
def exactFee (quantity : ℕ) (price : Price) (policy : FeePolicy) : ℕ :=
  quantity * (policy.coefficientPpm * price.raw * (10000 - price.raw)) ⌈/⌉ feeDenominator

/-- The cash of a fill with its notional and fee: rounded to the balance quantum in favour of the
account provider, less the rebate of whole accumulated quanta. -/
def roundFill (buy : Bool) (notional fee quantum : ℕ) (accumulator : FeeAccumulator) :
    Option (FillAmounts × FeeAccumulator) :=
  if cond buy (decide (int64Max - fee < notional)) (decide (notional < fee)) then none
  else
    let total := bif buy then notional + fee else notional - fee
    let rounding := bif buy then (quantum - total % quantum) % quantum else total % quantum
    if (buy ∧ int64Max - rounding < total) ∨
        uint64Max - rounding < accumulator.roundingMicro then none
    else
      let accumulated := accumulator.roundingMicro + rounding
      -- A rebate may not make this fill's total fee negative.
      let rebate := min (accumulated / quantum) ((fee + rounding) / quantum) * quantum
      some (⟨notional, fee, rounding, rebate,
        bif buy then total + rounding - rebate else total - rounding + rebate⟩,
        ⟨accumulated - rebate⟩)

/-- One fill of the ledger, a buy or a sale, with the accumulator it leaves. -/
def fillAmounts (buy : Bool) (quantity : ℕ) (price : Price) (policy : FeePolicy)
    (accumulator : FeeAccumulator) : Option (FillAmounts × FeeAccumulator) :=
  let quantum := policy.balanceQuantumMicro
  if (quantum ≠ 100 ∧ quantum ≠ 10000) ∨ 1000000 < policy.coefficientPpm ∨ quantity = 0 then none
  else if price.raw ≠ 0 ∧ int64Max / price.raw < quantity then none
  else do
    let fee ← ceilProduct quantity (policy.coefficientPpm * price.raw * (10000 - price.raw))
    roundFill buy (quantity * price.raw) fee quantum accumulator

/-- Charge one fill of a buy. -/
def chargeBuyFill (quantity : ℕ) (price : Price) (policy : FeePolicy)
    (accumulator : FeeAccumulator) : Option (FillCharge × FeeAccumulator) :=
  (fillAmounts true quantity price policy accumulator).map fun (fill, left) =>
    (⟨fill.notional, fill.tradeFee, fill.roundingFee, fill.rebate, fill.change⟩, left)

/-- Credit one fill of a sale. -/
def creditSellFill (quantity : ℕ) (price : Price) (policy : FeePolicy)
    (accumulator : FeeAccumulator) : Option (FillCredit × FeeAccumulator) :=
  (fillAmounts false quantity price policy accumulator).map fun (fill, left) =>
    (⟨fill.notional, fill.tradeFee, fill.roundingFee, fill.rebate, fill.change⟩, left)

/-! ### What a fill charges -/

section Fill

variable {quantity : ℕ} {price : Price} {policy : FeePolicy} {accumulator left : FeeAccumulator}

/-- The quadratic factor of the fee is largest at half a contract unit. -/
theorem feeFactor_le (policy : FeePolicy) (price : Price) :
    policy.coefficientPpm * price.raw * (10000 - price.raw) ≤
      policy.coefficientPpm * 25000000 := by
  rw [mul_assoc]
  refine Nat.mul_le_mul_left _ ?_
  obtain ⟨raw, hraw⟩ := price
  obtain ⟨rest, hrest⟩ := Nat.exists_eq_add_of_le hraw
  have hsub : 10000 - raw = rest := by omega
  rw [hsub]
  zify at hrest ⊢
  nlinarith [sq_nonneg ((raw : ℤ) - rest)]

theorem feeFactor_le_uint64Max (hp : policy.coefficientPpm ≤ 1000000) :
    policy.coefficientPpm * price.raw * (10000 - price.raw) ≤ uint64Max := by
  have := feeFactor_le policy price
  simp only [uint64Max]
  omega

/-- The fee of the ledger is the exact fee. -/
theorem ceilProduct_fee (hp : policy.coefficientPpm ≤ 1000000)
    (hq : ¬(price.raw ≠ 0 ∧ int64Max / price.raw < quantity)) {fee : ℕ}
    (h : ceilProduct quantity (policy.coefficientPpm * price.raw * (10000 - price.raw)) =
      some fee) : fee = exactFee quantity price policy := by
  rcases Nat.eq_zero_or_pos price.raw with h0 | hpos
  · simp only [h0, mul_zero, zero_mul, ceilProduct, if_true, Option.some.injEq] at h
    simp [exactFee, h0, ← h]
  · have hle : quantity ≤ int64Max / price.raw := by omega
    have hmax : quantity ≤ uint64Max :=
      hle.trans ((Nat.div_le_self _ _).trans (by decide))
    rw [ceilProduct_eq hmax (feeFactor_le_uint64Max hp)] at h
    split_ifs at h
    exact (Option.some.inj h).symm

/-- Rounding a buy: the debit is the notional, the fee and the change of the accumulator, and the
accumulator grows by less than a quantum. -/
theorem roundFill_buy_spec {notional fee quantum : ℕ} (hpos : 0 < quantum) {fill : FillAmounts}
    (h : roundFill true notional fee quantum accumulator = some (fill, left)) :
    fill.notional = notional ∧ fill.tradeFee = fee ∧
      fill.change + accumulator.roundingMicro = notional + fee + left.roundingMicro ∧
      notional ≤ fill.change ∧ left.roundingMicro + 1 ≤ accumulator.roundingMicro + quantum := by
  simp only [roundFill, cond_true, decide_eq_true_eq, true_and] at h
  split_ifs at h with h1 h2
  simp only [Option.some.injEq, Prod.mk.injEq] at h
  obtain ⟨rfl, rfl⟩ := h
  set rounding := (quantum - (notional + fee) % quantum) % quantum with hround
  set accumulated := accumulator.roundingMicro + rounding
  have hlt : rounding < quantum := Nat.mod_lt _ hpos
  -- The rebate is a part both of the accumulated rounding and of this fill's fee and rounding.
  set rebate := min (accumulated / quantum) ((fee + rounding) / quantum) * quantum
  have hle1 : rebate ≤ accumulated :=
    (Nat.mul_le_mul_right _ (min_le_left _ _)).trans (Nat.div_mul_le_self _ _)
  have hle2 : rebate ≤ fee + rounding :=
    (Nat.mul_le_mul_right _ (min_le_right _ _)).trans (Nat.div_mul_le_self _ _)
  refine ⟨rfl, rfl, ?_, ?_, ?_⟩ <;> dsimp only <;> omega

/-- Rounding a buy succeeds far from the 64-bit bounds. -/
theorem roundFill_buy_isSome {notional fee quantum : ℕ} (hpos : 0 < quantum)
    (htotal : notional + fee + quantum ≤ 1000000000000000000)
    (hacc : accumulator.roundingMicro ≤ 1000000000000000000) :
    (roundFill true notional fee quantum accumulator).isSome := by
  have hround := Nat.mod_lt (quantum - (notional + fee) % quantum) hpos
  have hfee : ¬int64Max - fee < notional := by simp only [int64Max]; omega
  have hfits : ¬(int64Max - (quantum - (notional + fee) % quantum) % quantum < notional + fee ∨
      uint64Max - (quantum - (notional + fee) % quantum) % quantum <
        accumulator.roundingMicro) := by
    simp only [int64Max, uint64Max]
    omega
  simp only [roundFill, cond_true, decide_eq_true_eq, true_and]
  rw [if_neg hfee, if_neg hfits, Option.isSome_some]

/-- **What a buy charges.** The notional and the fee are exact, the debit is the notional, the
fee and the change of the accumulator, and the accumulator grows by less than a quantum. -/
theorem chargeBuyFill_spec {charge : FillCharge}
    (h : chargeBuyFill quantity price policy accumulator = some (charge, left)) :
    policy.Valid ∧ 0 < quantity ∧ charge.notional = quantity * price.raw ∧
      charge.tradeFee = exactFee quantity price policy ∧
      charge.debit + accumulator.roundingMicro =
        charge.notional + charge.tradeFee + left.roundingMicro ∧
      charge.notional ≤ charge.debit ∧
      left.roundingMicro + 1 ≤ accumulator.roundingMicro + policy.balanceQuantumMicro := by
  simp only [chargeBuyFill, fillAmounts, Option.map_eq_some_iff, Prod.exists] at h
  obtain ⟨fill, left', h, hmap⟩ := h
  split_ifs at h with h1 h2
  obtain ⟨fee, hfee, h⟩ := Option.bind_eq_some_iff.mp h
  have hexact := ceilProduct_fee (by omega) h2 hfee
  obtain ⟨hnotional, htrade, hdebit, hle, hacc⟩ := roundFill_buy_spec (by omega) h
  simp only [Prod.mk.injEq] at hmap
  obtain ⟨rfl, rfl⟩ := hmap
  refine ⟨⟨by omega, by omega⟩, by omega, hnotional, htrade.trans hexact, ?_, ?_, hacc⟩ <;>
    dsimp only <;> omega

/-- The fee of a fill bounded by the peak of the quadratic. -/
theorem exactFee_le (quantity : ℕ) (price : Price) (hp : policy.coefficientPpm ≤ 1000000) :
    exactFee quantity price policy ≤ quantity * 2500 := by
  rw [exactFee, ceilDiv_le_iff_le_mul (by decide)]
  have h := feeFactor_le policy price
  calc quantity * (policy.coefficientPpm * price.raw * (10000 - price.raw))
      ≤ quantity * 25000000000000 := Nat.mul_le_mul_left _ (by omega)
    _ = feeDenominator * (quantity * 2500) := by simp only [feeDenominator]; ring

/-- **Bounded buys succeed.** With a valid policy, a buy of at most `10 ^ 12` centicontracts
succeeds as long as the accumulator is far from the 64-bit bound. -/
theorem chargeBuyFill_isSome (hp : policy.Valid) (hq : 0 < quantity)
    (hmax : quantity ≤ 1000000000000) (hacc : accumulator.roundingMicro ≤ 1000000000000000000) :
    (chargeBuyFill quantity price policy accumulator).isSome := by
  obtain ⟨hcoef, hquantum⟩ := hp
  have hprice := price.le_scale
  have hfee := exactFee_le quantity price hcoef
  have hnotional : quantity * price.raw ≤ 1000000000000 * 10000 := Nat.mul_le_mul hmax hprice
  have hsize : ¬(price.raw ≠ 0 ∧ int64Max / price.raw < quantity) := by
    rintro ⟨h0, hlt⟩
    rw [Nat.div_lt_iff_lt_mul (by omega)] at hlt
    simp only [int64Max] at hlt
    omega
  have hceil : ceilProduct quantity (policy.coefficientPpm * price.raw * (10000 - price.raw)) =
      some (exactFee quantity price policy) := by
    rw [ceilProduct_eq (by simp only [uint64Max]; omega) (feeFactor_le_uint64Max hcoef),
      ← exactFee, if_pos (by simp only [int64Max]; omega)]
  simp only [chargeBuyFill, fillAmounts, Option.isSome_map]
  rw [if_neg (by omega), if_neg hsize, hceil, Option.bind_eq_bind, Option.bind_some]
  exact roundFill_buy_isSome (by omega) (by omega) hacc

end Fill

end EventMarket.Core
