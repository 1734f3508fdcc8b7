import EventMarket.Core.ExecutionCost

/-!
# Fees on machine words

The source computes a fill in unsigned 64-bit words, with a check before every operation that could
wrap. Here the same steps are taken on `UInt64`, wrapping included, and compared with the ledger
over the natural numbers: no step wraps, and a fill fails exactly when one of its exact amounts
leaves its type.

## Main definitions

* `ceilProductFast`, `ceilProductSerial`, `ceilProduct64`: the fee ceiling on machine words.
* `MachinePolicy`, `fillAmounts64`: one fill on machine words.
* `FillOverflows`: the exact amounts of a fill do not fit.

## Main results

* `ceilProduct64_toNat`, `fillAmounts64_toNat`: the machine words compute the ledger.
* `fee_arithmetic_exact`: exact ceilings, and failure only on overflow.
-/

namespace EventMarket.Core

/-- `std::numeric_limits<std::int64_t>::max()` as an unsigned word. -/
def maximum64 : UInt64 := 9223372036854775807

/-- The denominator of the fee as an unsigned word. -/
def denominator64 : UInt64 := 10000000000

@[simp] theorem maximum64_toNat : maximum64.toNat = int64Max := by decide

@[simp] theorem denominator64_toNat : denominator64.toNat = feeDenominator := by decide

/-! ### Words that do not wrap -/

section Word

variable {a b : UInt64}

theorem toNat_add_of_le (h : a.toNat + b.toNat ≤ uint64Max) :
    (a + b).toNat = a.toNat + b.toNat := by
  rw [UInt64.toNat_add, Nat.mod_eq_of_lt (by simp only [uint64Max] at h; omega)]

theorem toNat_mul_of_le (h : a.toNat * b.toNat ≤ uint64Max) :
    (a * b).toNat = a.toNat * b.toNat := by
  rw [UInt64.toNat_mul, Nat.mod_eq_of_lt (by simp only [uint64Max] at h; omega)]

theorem toNat_sub_of_toNat_le (h : b.toNat ≤ a.toNat) : (a - b).toNat = a.toNat - b.toNat :=
  UInt64.toNat_sub_of_le a b (UInt64.le_iff_toNat_le.mpr h)

theorem toNat_le_uint64Max (a : UInt64) : a.toNat ≤ uint64Max := by
  have := a.toNat_lt
  simp only [uint64Max]
  omega

/-- A checked addition below the largest signed word. -/
theorem maximum64_sub_lt_iff (h : a.toNat ≤ int64Max) :
    maximum64 - a < b ↔ int64Max - a.toNat < b.toNat := by
  rw [UInt64.lt_iff_toNat_lt, toNat_sub_of_toNat_le (by rwa [maximum64_toNat]), maximum64_toNat]

theorem toNat_two : (2 : UInt64).toNat = 2 := by decide

/-- The bit that the loop looks at. -/
theorem bit_ne_zero_iff (b : UInt64) {bit : ℕ} (hbit : bit < 64) :
    (b >>> UInt64.ofNat bit) &&& 1 ≠ 0 ↔ b.toNat.testBit bit = true := by
  have hshift : (UInt64.ofNat bit).toNat % 64 = bit := by
    rw [UInt64.toNat_ofNat', Nat.mod_eq_of_lt (by omega : bit < 2 ^ 64), Nat.mod_eq_of_lt hbit]
  rw [ne_eq, ← UInt64.toNat_inj, UInt64.toNat_and, UInt64.toNat_shiftRight, hshift, Nat.testBit,
    Nat.and_comm]
  simp

end Word

/-! ### The ceiling -/

/-- The bits `bit - 1, …, 0` of the division during the multiplication. -/
def ceilProductLoop64 (a b : UInt64) : ℕ → UInt64 → UInt64 → Option (UInt64 × UInt64)
  | 0, quotient, remainder => some (quotient, remainder)
  | bit + 1, quotient, remainder =>
    if maximum64 / 2 < quotient then none
    else do
      let (quotient, remainder) ←
        if (b >>> UInt64.ofNat bit) &&& 1 ≠ 0 then
          let add := a / denominator64
          if maximum64 - add < quotient * 2 then none
          else some (quotient * 2 + add, remainder * 2 + a % denominator64)
        else some (quotient * 2, remainder * 2)
      let carry := remainder / denominator64
      if maximum64 - carry < quotient then none
      else ceilProductLoop64 a b bit (quotient + carry) (remainder % denominator64)

/-- The ceiling by a single division, of a product that fits into one word. -/
def ceilProductFast (a b : UInt64) : Option UInt64 :=
  let product := a * b
  let result := product / denominator64 + if product % denominator64 ≠ 0 then 1 else 0
  if result ≤ maximum64 then some result else none

/-- The ceiling bit by bit. -/
def ceilProductSerial (a b : UInt64) : Option UInt64 := do
  let (quotient, remainder) ← ceilProductLoop64 a b 64 0 0
  if remainder ≠ 0 then
    if quotient = maximum64 then none else some (quotient + 1)
  else some quotient

/-- `ceil_product`: the fast path is chosen by a division. -/
def ceilProduct64 (a b : UInt64) : Option UInt64 :=
  if b = 0 then some 0
  else if a ≤ 18446744073709551615 / b then ceilProductFast a b
  else ceilProductSerial a b

/-- **The bit-serial loop never wraps.** -/
theorem ceilProductLoop64_toNat (a b : UInt64) (bit : ℕ) (hbit : bit ≤ 64)
    (quotient remainder : UInt64) (hr : remainder.toNat < feeDenominator) :
    (ceilProductLoop64 a b bit quotient remainder).map
        (fun result => (result.1.toNat, result.2.toNat)) =
      ceilProductLoop a.toNat b.toNat bit quotient.toNat remainder.toNat := by
  induction bit generalizing quotient remainder with
  | zero => rfl
  | succ bit ih =>
    have hbit' := bit_ne_zero_iff b (Nat.lt_of_succ_le hbit)
    have ha := toNat_le_uint64Max a
    simp only [ceilProductLoop64, ceilProductLoop]
    have hguard : maximum64 / 2 < quotient ↔ int64Max / 2 < quotient.toNat := by
      rw [UInt64.lt_iff_toNat_lt, UInt64.toNat_div, maximum64_toNat, toNat_two]
    by_cases hhalf : int64Max / 2 < quotient.toNat
    · rw [if_pos (hguard.mpr hhalf), if_pos hhalf, Option.map_none]
    rw [if_neg (mt hguard.mp hhalf), if_neg hhalf]
    have hquotient : (quotient * 2).toNat = quotient.toNat * 2 :=
      toNat_mul_of_le (by simp only [int64Max, uint64Max, UInt64.reduceToNat] at *; omega)
    have hremainder : (remainder * 2).toNat = remainder.toNat * 2 :=
      toNat_mul_of_le (by simp only [feeDenominator, uint64Max, UInt64.reduceToNat] at *; omega)
    -- The carry, after either branch of the bit.
    have hcarry (next left : UInt64) (hnext : next.toNat ≤ int64Max)
        (hleft : left.toNat < 3 * feeDenominator) :
        (if maximum64 - left / denominator64 < next then none
          else ceilProductLoop64 a b bit (next + left / denominator64)
            (left % denominator64)).map (fun result => (result.1.toNat, result.2.toNat)) =
          if int64Max - left.toNat / feeDenominator < next.toNat then none
          else ceilProductLoop a.toNat b.toNat bit (next.toNat + left.toNat / feeDenominator)
            (left.toNat % feeDenominator) := by
      have hdiv : (left / denominator64).toNat = left.toNat / feeDenominator := by
        rw [UInt64.toNat_div, denominator64_toNat]
      have hmod : (left % denominator64).toNat = left.toNat % feeDenominator := by
        rw [UInt64.toNat_mod, denominator64_toNat]
      have hsmall : left.toNat / feeDenominator < 3 :=
        Nat.div_lt_of_lt_mul (by rwa [mul_comm])
      have hlimit := maximum64_sub_lt_iff (a := left / denominator64) (b := next)
        (by rw [hdiv]; simp only [int64Max]; omega)
      rw [hdiv] at hlimit
      by_cases hfits : int64Max - left.toNat / feeDenominator < next.toNat
      · rw [if_pos (hlimit.mpr hfits), if_pos hfits, Option.map_none]
      · rw [if_neg (mt hlimit.mp hfits), if_neg hfits]
        have hadd : (next + left / denominator64).toNat =
            next.toNat + left.toNat / feeDenominator := by
          rw [toNat_add_of_le (by rw [hdiv]; simp only [int64Max, uint64Max] at *; omega), hdiv]
        rw [ih (by omega) _ _ (by rw [hmod]; exact Nat.mod_lt _ (by decide)), hadd, hmod]
    by_cases hset : b.toNat.testBit bit = true
    · rw [if_pos (hbit'.mpr hset), if_pos hset]
      have hdiv : (a / denominator64).toNat = a.toNat / feeDenominator := by
        rw [UInt64.toNat_div, denominator64_toNat]
      have hmod : (a % denominator64).toNat = a.toNat % feeDenominator := by
        rw [UInt64.toNat_mod, denominator64_toNat]
      have hadd64 : a.toNat / feeDenominator ≤ int64Max := by
        rw [Nat.div_le_iff_le_mul_add_pred (by decide)]
        exact ha.trans (by decide)
      have hrest : a.toNat % feeDenominator < feeDenominator := Nat.mod_lt _ (by decide)
      have hlimit := maximum64_sub_lt_iff (a := a / denominator64) (b := quotient * 2)
        (by rw [hdiv]; exact hadd64)
      rw [hdiv, hquotient] at hlimit
      by_cases hfits : int64Max - a.toNat / feeDenominator < quotient.toNat * 2
      · rw [if_pos (hlimit.mpr hfits), if_pos hfits]
        simp only [Option.bind_eq_bind, Option.bind_none, Option.map_none]
      · rw [if_neg (mt hlimit.mp hfits), if_neg hfits]
        have hmax : quotient.toNat * 2 + a.toNat / feeDenominator ≤ int64Max :=
          Nat.add_le_of_le_sub hadd64 (not_lt.mp hfits)
        have hadd : (quotient * 2 + a / denominator64).toNat =
            quotient.toNat * 2 + a.toNat / feeDenominator := by
          rw [toNat_add_of_le (by rw [hdiv, hquotient]; exact hmax.trans (by decide)), hdiv,
            hquotient]
        have hleft : (remainder * 2 + a % denominator64).toNat =
            remainder.toNat * 2 + a.toNat % feeDenominator := by
          rw [toNat_add_of_le (by
            rw [hmod, hremainder]; simp only [feeDenominator, uint64Max] at *; omega),
            hmod, hremainder]
        have hstep := hcarry (quotient * 2 + a / denominator64)
          (remainder * 2 + a % denominator64) (by rw [hadd]; exact hmax) (by rw [hleft]; omega)
        rw [hadd, hleft] at hstep
        rw [Option.bind_eq_bind, Option.bind_some, Option.bind_eq_bind, Option.bind_some]
        dsimp only
        rw [hstep]
    · rw [if_neg (mt hbit'.mp hset), if_neg hset]
      have hstep := hcarry (quotient * 2) (remainder * 2)
        (by rw [hquotient]; exact Nat.mul_le_of_le_div _ _ _ (not_lt.mp hhalf))
        (by rw [hremainder]; exact (Nat.mul_lt_mul_of_pos_right hr two_pos).trans (by decide))
      rw [hquotient, hremainder] at hstep
      rw [Option.bind_eq_bind, Option.bind_some, Option.bind_eq_bind, Option.bind_some]
      dsimp only
      rw [hstep]

/-- A ceiling over the fee denominator as quotient and remainder. -/
theorem ceilDiv_feeDenominator (product : ℕ) :
    product ⌈/⌉ feeDenominator =
      product / feeDenominator + if product % feeDenominator ≠ 0 then 1 else 0 := by
  rw [Nat.ceilDiv_eq_add_pred_div]
  simp only [feeDenominator]
  split_ifs <;> omega

/-- The ceiling as a checked result: nothing when it is too large. -/
def checkedCeiling (product : ℕ) : Option ℕ :=
  if product ⌈/⌉ feeDenominator ≤ int64Max then some (product ⌈/⌉ feeDenominator) else none

theorem le_div_iff_toNat (a : UInt64) {b : UInt64} (hb : b ≠ 0) :
    a ≤ 18446744073709551615 / b ↔ a.toNat * b.toNat ≤ uint64Max := by
  have hpos : 0 < b.toNat := Nat.pos_of_ne_zero fun h => hb (UInt64.toNat_inj.mp h)
  have hall : (18446744073709551615 : UInt64).toNat = uint64Max := by decide
  rw [UInt64.le_iff_toNat_le, UInt64.toNat_div, hall, Nat.le_div_iff_mul_le hpos]

/-- The fast path is exact when the product fits into one word. -/
theorem ceilProductFast_toNat {a b : UInt64} (h : a.toNat * b.toNat ≤ uint64Max) :
    (ceilProductFast a b).map UInt64.toNat = checkedCeiling (a.toNat * b.toNat) := by
  have hproduct := toNat_mul_of_le h
  have hrest : a * b % denominator64 ≠ 0 ↔ a.toNat * b.toNat % feeDenominator ≠ 0 := by
    rw [ne_eq, ← UInt64.toNat_inj, UInt64.toNat_mod, hproduct, denominator64_toNat,
      UInt64.toNat_zero]
  have hresult : (a * b / denominator64 + if a * b % denominator64 ≠ 0 then 1 else 0).toNat =
      a.toNat * b.toNat ⌈/⌉ feeDenominator := by
    have hdiv : (a * b / denominator64).toNat = a.toNat * b.toNat / feeDenominator := by
      rw [UInt64.toNat_div, hproduct, denominator64_toNat]
    have hone : (if a * b % denominator64 ≠ 0 then (1 : UInt64) else 0).toNat =
        if a.toNat * b.toNat % feeDenominator ≠ 0 then 1 else 0 := by
      by_cases hzero : a.toNat * b.toNat % feeDenominator ≠ 0
      · rw [if_pos hzero, if_pos (hrest.mpr hzero), UInt64.toNat_one]
      · rw [if_neg hzero, if_neg (mt hrest.mp hzero), UInt64.toNat_zero]
    rw [toNat_add_of_le, hdiv, hone, ceilDiv_feeDenominator]
    rw [hdiv, hone]
    simp only [feeDenominator, uint64Max] at h ⊢
    split_ifs <;> omega
  unfold ceilProductFast checkedCeiling
  dsimp only
  rw [← hresult]
  generalize (a * b / denominator64 + if a * b % denominator64 ≠ 0 then 1 else 0) = result
  have hfits : result ≤ maximum64 ↔ result.toNat ≤ int64Max := by
    rw [UInt64.le_iff_toNat_le, maximum64_toNat]
  by_cases hle : result.toNat ≤ int64Max
  · rw [if_pos hle, if_pos (hfits.mpr hle), Option.map_some]
  · rw [if_neg hle, if_neg (mt hfits.mp hle), Option.map_none]

/-- **The bit-serial path is exact for all words.** -/
theorem ceilProductSerial_toNat (a b : UInt64) :
    (ceilProductSerial a b).map UInt64.toNat = checkedCeiling (a.toNat * b.toNat) := by
  have hloop := ceilProductLoop64_toNat a b 64 le_rfl 0 0 (by decide)
  rw [UInt64.toNat_zero,
    ceilProductLoop_eq (toNat_le_uint64Max a) 64 0 0 (by decide) (by decide)] at hloop
  have hbits : b.toNat % 2 ^ 64 = b.toNat := Nat.mod_eq_of_lt b.toNat_lt
  rw [zero_mul, zero_add, zero_mul, zero_add, hbits] at hloop
  have hceil := ceilDiv_feeDenominator (a.toNat * b.toNat)
  unfold ceilProductSerial checkedCeiling
  unfold checkedDivMod at hloop
  rw [hceil]
  cases hserial : ceilProductLoop64 a b 64 0 0 with
  | none =>
    rw [hserial, Option.map_none] at hloop
    have hbig : ¬a.toNat * b.toNat / feeDenominator ≤ int64Max := fun h => by
      rw [if_pos h] at hloop
      cases hloop
    rw [if_neg fun h => hbig ((Nat.le_add_right _ _).trans h)]
    rfl
  | some result =>
    obtain ⟨quotient, remainder⟩ := result
    rw [hserial, Option.map_some] at hloop
    by_cases hfits : a.toNat * b.toNat / feeDenominator ≤ int64Max
    · rw [if_pos hfits, Option.some.injEq, Prod.mk.injEq] at hloop
      obtain ⟨hquotient, hremainder⟩ := hloop
      dsimp only at hquotient hremainder
      rw [← hquotient] at hfits
      rw [← hquotient, ← hremainder, Option.bind_eq_bind, Option.bind_some]
      dsimp only
      have hzero : remainder ≠ 0 ↔ remainder.toNat ≠ 0 := by
        rw [ne_eq, ← UInt64.toNat_inj, UInt64.toNat_zero]
      have hmax : quotient = maximum64 ↔ quotient.toNat = int64Max := by
        rw [← UInt64.toNat_inj, maximum64_toNat]
      by_cases hrest : remainder.toNat ≠ 0
      · rw [if_pos (hzero.mpr hrest), if_pos hrest]
        by_cases hlast : quotient.toNat = int64Max
        · rw [if_pos (hmax.mpr hlast), if_neg (by omega), Option.map_none]
        · rw [if_neg (mt hmax.mp hlast), if_pos (by omega), Option.map_some,
            toNat_add_of_le, UInt64.toNat_one]
          rw [UInt64.toNat_one]
          exact (Nat.succ_le_of_lt (lt_of_le_of_ne hfits hlast)).trans (by decide)
      · rw [if_neg (mt hzero.mp hrest), if_neg hrest, add_zero, if_pos hfits, Option.map_some]
    · rw [if_neg hfits] at hloop
      cases hloop

/-- **`ceil_product` is exact.** -/
theorem ceilProduct64_toNat (a b : UInt64) :
    (ceilProduct64 a b).map UInt64.toNat = checkedCeiling (a.toNat * b.toNat) := by
  unfold ceilProduct64
  by_cases hb : b = 0
  · rw [if_pos hb, hb, UInt64.toNat_zero, mul_zero]
    rfl
  rw [if_neg hb]
  by_cases hfast : a ≤ 18446744073709551615 / b
  · rw [if_pos hfast, ceilProductFast_toNat ((le_div_iff_toNat a hb).mp hfast)]
  · rw [if_neg hfast, ceilProductSerial_toNat]

/-- The two paths agree wherever both apply. -/
theorem ceilProductFast_eq_serial {a b : UInt64} (h : a.toNat * b.toNat ≤ uint64Max) :
    ceilProductFast a b = ceilProductSerial a b := by
  have heq := (ceilProductFast_toNat h).trans (ceilProductSerial_toNat a b).symm
  exact Option.map_injective (fun _ _ => UInt64.toNat_inj.mp) heq

/-! ### One fill -/

/-- A fee policy in the two 32-bit words of the source. -/
structure MachinePolicy where
  coefficientPpm : UInt32
  balanceQuantumMicro : UInt32
  deriving DecidableEq, Repr

/-- The numbers of a policy. -/
def MachinePolicy.policy (policy : MachinePolicy) : FeePolicy :=
  ⟨policy.coefficientPpm.toNat, policy.balanceQuantumMicro.toNat⟩

/-- The amounts of one fill in words. -/
structure FillAmounts64 where
  notional : UInt64
  tradeFee : UInt64
  roundingFee : UInt64
  rebate : UInt64
  change : UInt64
  deriving DecidableEq, Repr

/-- The numbers of a fill. -/
def FillAmounts64.amounts (fill : FillAmounts64) : FillAmounts :=
  ⟨fill.notional.toNat, fill.tradeFee.toNat, fill.roundingFee.toNat, fill.rebate.toNat,
    fill.change.toNat⟩

/-- The second factor of the fee, `coefficient * price * (1 - price)`. -/
def feeFactor64 (price : Price) (policy : MachinePolicy) : UInt64 :=
  policy.coefficientPpm.toUInt64 * UInt64.ofNat price.raw * (10000 - UInt64.ofNat price.raw)

/-- The last steps of a fill, once its cash before rounding and the rounding are known. -/
def settleFill64 (buy : Bool) (notional fee quantum accumulator total rounding : UInt64) :
    Option (FillAmounts64 × UInt64) :=
  if (buy ∧ maximum64 - rounding < total) ∨ 18446744073709551615 - rounding < accumulator then none
  else
    let accumulated := accumulator + rounding
    let rebate := min (accumulated / quantum) ((fee + rounding) / quantum) * quantum
    some (⟨notional, fee, rounding, rebate,
      bif buy then total + rounding - rebate else total - rounding + rebate⟩, accumulated - rebate)

/-- The cash of a fill, from its notional and fee. -/
def roundFill64 (buy : Bool) (notional fee quantum accumulator : UInt64) :
    Option (FillAmounts64 × UInt64) :=
  if cond buy (decide (maximum64 - fee < notional)) (decide (notional < fee)) then none
  else
    let total := bif buy then notional + fee else notional - fee
    let rounding := bif buy then (quantum - total % quantum) % quantum else total % quantum
    settleFill64 buy notional fee quantum accumulator total rounding

/-- `fill_amounts` in words; the accumulator is a word as well. -/
def fillAmounts64 (buy : Bool) (quantity : Quantity) (price : Price) (policy : MachinePolicy)
    (accumulator : UInt64) : Option (FillAmounts64 × UInt64) :=
  let quantum := policy.balanceQuantumMicro.toUInt64
  if (quantum ≠ 100 ∧ quantum ≠ 10000) ∨ 1000000 < policy.coefficientPpm ∨ quantity.raw = 0 then
    none
  else
    let q := UInt64.ofNat quantity.raw
    let p := UInt64.ofNat price.raw
    if p ≠ 0 ∧ maximum64 / p < q then none
    else do
      let fee ← ceilProduct64 q (feeFactor64 price policy)
      roundFill64 buy (q * p) fee quantum accumulator

section Fill

variable {buy : Bool} {quantity : Quantity} {price : Price} {policy : MachinePolicy}

theorem toNat_quantity (quantity : Quantity) : (UInt64.ofNat quantity.raw).toNat = quantity.raw :=
  UInt64.toNat_ofNat_of_lt' (quantity.le_max.trans_lt (by decide))

theorem toNat_price (price : Price) : (UInt64.ofNat price.raw).toNat = price.raw :=
  UInt64.toNat_ofNat_of_lt' (price.le_scale.trans_lt (by decide))

/-- The factor of the fee does not wrap. -/
theorem feeFactor64_toNat (hp : policy.coefficientPpm.toNat ≤ 1000000) :
    (feeFactor64 price policy).toNat =
      policy.coefficientPpm.toNat * price.raw * (10000 - price.raw) := by
  have hprice := toNat_price price
  have hle := price.le_scale
  have hscale : (10000 : UInt64).toNat = 10000 := by decide
  have hcomplement : (10000 - UInt64.ofNat price.raw).toNat = 10000 - price.raw := by
    rw [toNat_sub_of_toNat_le (by rw [hprice, hscale]; exact hle), hprice, hscale]
  have hfirst : (policy.coefficientPpm.toUInt64 * UInt64.ofNat price.raw).toNat =
      policy.coefficientPpm.toNat * price.raw := by
    rw [toNat_mul_of_le, UInt32.toNat_toUInt64, hprice]
    rw [UInt32.toNat_toUInt64, hprice]
    exact (Nat.mul_le_mul hp hle).trans (by decide)
  rw [feeFactor64, toNat_mul_of_le, hfirst, hcomplement]
  rw [hfirst, hcomplement]
  exact @feeFactor_le_uint64Max price policy.policy hp

/-- The rebate does not wrap: it is a part of what has accumulated. -/
theorem rebate_toNat {fee rounding accumulator : UInt64} (quantum : UInt64)
    (haccumulated : accumulator.toNat + rounding.toNat ≤ uint64Max)
    (hfee : fee.toNat + rounding.toNat ≤ uint64Max) :
    (min ((accumulator + rounding) / quantum) ((fee + rounding) / quantum) * quantum).toNat =
      min ((accumulator.toNat + rounding.toNat) / quantum.toNat)
        ((fee.toNat + rounding.toNat) / quantum.toNat) * quantum.toNat := by
  have hmin (a b : UInt64) : (min a b).toNat = min a.toNat b.toNat := by
    have hdef : min a b = if a ≤ b then a else b := rfl
    rw [hdef]
    by_cases h : a ≤ b
    · rw [if_pos h, min_eq_left (UInt64.le_iff_toNat_le.mp h)]
    · rw [if_neg h, min_eq_right (not_le.mp (mt UInt64.le_iff_toNat_le.mpr h)).le]
  have hquanta : (min ((accumulator + rounding) / quantum) ((fee + rounding) / quantum)).toNat =
      min ((accumulator.toNat + rounding.toNat) / quantum.toNat)
        ((fee.toNat + rounding.toNat) / quantum.toNat) := by
    rw [hmin, UInt64.toNat_div, UInt64.toNat_div, toNat_add_of_le haccumulated,
      toNat_add_of_le hfee]
  rw [toNat_mul_of_le, hquanta]
  rw [hquanta]
  exact (Nat.mul_le_mul_right _ (min_le_left _ _)).trans
    ((Nat.div_mul_le_self _ _).trans haccumulated)

/-- A checked addition below the largest word. -/
theorem uint64Max_sub_lt_iff (a b : UInt64) :
    18446744073709551615 - a < b ↔ uint64Max - a.toNat < b.toNat := by
  have htop : (18446744073709551615 : UInt64).toNat = uint64Max := by decide
  rw [UInt64.lt_iff_toNat_lt,
    toNat_sub_of_toNat_le (by rw [htop]; exact toNat_le_uint64Max a), htop]

/-- The last steps of the ledger over the natural numbers. -/
def settleFill (buy : Bool) (notional fee quantum accumulator total rounding : ℕ) :
    Option (FillAmounts × FeeAccumulator) :=
  if (buy ∧ int64Max - rounding < total) ∨ uint64Max - rounding < accumulator then none
  else
    let accumulated := accumulator + rounding
    let rebate := min (accumulated / quantum) ((fee + rounding) / quantum) * quantum
    some (⟨notional, fee, rounding, rebate,
      bif buy then total + rounding - rebate else total - rounding + rebate⟩,
      ⟨accumulated - rebate⟩)

/-- **The last steps do not wrap** when the cash of the fill fits. -/
theorem settleFill64_toNat (notional : UInt64) {fee total rounding : UInt64}
    (quantum accumulator : UInt64) (hround : rounding.toNat ≤ 10000)
    (hbuy : buy = true → fee.toNat ≤ total.toNat)
    (hsell : buy = false → rounding.toNat ≤ total.toNat ∧ total.toNat + fee.toNat ≤ int64Max) :
    (settleFill64 buy notional fee quantum accumulator total rounding).map
        (fun result => (result.1.amounts, ⟨result.2.toNat⟩)) =
      settleFill buy notional.toNat fee.toNat quantum.toNat accumulator.toNat total.toNat
        rounding.toNat := by
  have hlimit := maximum64_sub_lt_iff (a := rounding) (b := total) (hround.trans (by decide))
  have hfails := or_congr (and_congr_right fun _ : buy = true => hlimit)
    (uint64Max_sub_lt_iff rounding accumulator)
  unfold settleFill64 settleFill
  by_cases hfits : (buy ∧ int64Max - rounding.toNat < total.toNat) ∨
      uint64Max - rounding.toNat < accumulator.toNat
  · rw [if_pos (hfails.mpr hfits), if_pos hfits, Option.map_none]
  rw [if_neg (mt hfails.mp hfits), if_neg hfits, Option.map_some]
  rw [not_or, not_and, not_lt, not_lt] at hfits
  have hadd : accumulator.toNat + rounding.toNat ≤ uint64Max :=
    Nat.add_le_of_le_sub (toNat_le_uint64Max rounding) hfits.2
  -- The fee and the rounding are a part of the cash before (a sale) or after (a buy) them.
  have hfee : fee.toNat + rounding.toNat ≤ int64Max := by
    cases hside : buy with
    | true =>
      exact (Nat.add_le_add_right (hbuy hside) _).trans
        (Nat.add_le_of_le_sub (hround.trans (by decide)) (hfits.1 hside))
    | false =>
      obtain ⟨hle, hsum⟩ := hsell hside
      omega
  have hrebate := rebate_toNat quantum hadd (hfee.trans (by decide))
  have hpart : min ((accumulator.toNat + rounding.toNat) / quantum.toNat)
      ((fee.toNat + rounding.toNat) / quantum.toNat) * quantum.toNat ≤
        accumulator.toNat + rounding.toNat :=
    (Nat.mul_le_mul_right _ (min_le_left _ _)).trans (Nat.div_mul_le_self _ _)
  have hfeepart : min ((accumulator.toNat + rounding.toNat) / quantum.toNat)
      ((fee.toNat + rounding.toNat) / quantum.toNat) * quantum.toNat ≤
        fee.toNat + rounding.toNat :=
    (Nat.mul_le_mul_right _ (min_le_right _ _)).trans (Nat.div_mul_le_self _ _)
  dsimp only [FillAmounts64.amounts]
  rw [toNat_sub_of_toNat_le (by rw [hrebate, toNat_add_of_le hadd]; exact hpart), hrebate,
    toNat_add_of_le hadd]
  cases hside : buy with
  | true =>
    have hsum : total.toNat + rounding.toNat ≤ int64Max :=
      Nat.add_le_of_le_sub (hround.trans (by decide)) (hfits.1 hside)
    have hle := hbuy hside
    rw [cond_true, cond_true, toNat_sub_of_toNat_le (by
      rw [hrebate, toNat_add_of_le (hsum.trans (by decide))]; omega), hrebate,
      toNat_add_of_le (hsum.trans (by decide))]
  | false =>
    obtain ⟨hle, hsum⟩ := hsell hside
    have hsub := toNat_sub_of_toNat_le hle
    have hback : (total - rounding).toNat + (min ((accumulator + rounding) / quantum)
        ((fee + rounding) / quantum) * quantum).toNat ≤ int64Max := by
      rw [hsub, hrebate]
      omega
    rw [cond_false, cond_false, toNat_add_of_le (hback.trans (by decide)), hsub, hrebate]

theorem roundFill_buy (notional fee quantum accumulator : ℕ) :
    roundFill true notional fee quantum ⟨accumulator⟩ =
      if int64Max - fee < notional then none
      else settleFill true notional fee quantum accumulator (notional + fee)
        ((quantum - (notional + fee) % quantum) % quantum) := by
  simp only [roundFill, settleFill, cond_true, decide_eq_true_eq]

theorem roundFill_sell (notional fee quantum accumulator : ℕ) :
    roundFill false notional fee quantum ⟨accumulator⟩ =
      if notional < fee then none
      else settleFill false notional fee quantum accumulator (notional - fee)
        ((notional - fee) % quantum) := by
  simp only [roundFill, settleFill, cond_false, decide_eq_true_eq]

/-- **The rounding of a fill does not wrap.** -/
theorem roundFill64_toNat (buy : Bool) {notional fee quantum : UInt64} (accumulator : UInt64)
    (hpos : 0 < quantum.toNat) (hquantum : quantum.toNat ≤ 10000)
    (hnotional : notional.toNat ≤ int64Max) (hfee : fee.toNat ≤ int64Max) :
    (roundFill64 buy notional fee quantum accumulator).map
        (fun result => (result.1.amounts, ⟨result.2.toNat⟩)) =
      roundFill buy notional.toNat fee.toNat quantum.toNat ⟨accumulator.toNat⟩ := by
  cases buy with
  | true =>
    have hguard := maximum64_sub_lt_iff (b := notional) hfee
    by_cases hcash : int64Max - fee.toNat < notional.toNat
    · rw [roundFill_buy, if_pos hcash, roundFill64, cond_true,
        if_pos (decide_eq_true (hguard.mpr hcash)), Option.map_none]
    have hsum : notional.toNat + fee.toNat ≤ int64Max :=
      Nat.add_le_of_le_sub hfee (not_lt.mp hcash)
    have htotal : (notional + fee).toNat = notional.toNat + fee.toNat :=
      toNat_add_of_le (hsum.trans (by decide))
    have hrest : ((notional + fee) % quantum).toNat =
        (notional.toNat + fee.toNat) % quantum.toNat := by rw [UInt64.toNat_mod, htotal]
    have hrounding : ((quantum - (notional + fee) % quantum) % quantum).toNat =
        (quantum.toNat - (notional.toNat + fee.toNat) % quantum.toNat) % quantum.toNat := by
      rw [UInt64.toNat_mod, toNat_sub_of_toNat_le (by
        rw [hrest]; exact (Nat.mod_lt _ hpos).le), hrest]
    have hround : ((quantum - (notional + fee) % quantum) % quantum).toNat ≤ 10000 := by
      rw [hrounding]
      exact (Nat.mod_lt _ hpos).le.trans hquantum
    have hfee : fee.toNat ≤ (notional + fee).toNat := by
      rw [htotal]
      exact Nat.le_add_left _ _
    have hsettle := settleFill64_toNat notional quantum accumulator hround
      (fun _ : true = true => hfee) (fun h => nomatch h)
    rw [htotal, hrounding] at hsettle
    rw [roundFill_buy, if_neg hcash, roundFill64, cond_true,
      if_neg (by rw [decide_eq_true_iff]; exact mt hguard.mp hcash)]
    exact hsettle
  | false =>
    have hguard : notional < fee ↔ notional.toNat < fee.toNat := UInt64.lt_iff_toNat_lt
    by_cases hcash : notional.toNat < fee.toNat
    · rw [roundFill_sell, if_pos hcash, roundFill64, cond_false,
        if_pos (decide_eq_true (hguard.mpr hcash)), Option.map_none]
    have htotal : (notional - fee).toNat = notional.toNat - fee.toNat :=
      toNat_sub_of_toNat_le (not_lt.mp hcash)
    have hrounding : ((notional - fee) % quantum).toNat =
        (notional.toNat - fee.toNat) % quantum.toNat := by rw [UInt64.toNat_mod, htotal]
    have hround : ((notional - fee) % quantum).toNat ≤ 10000 := by
      rw [hrounding]
      exact (Nat.mod_lt _ hpos).le.trans hquantum
    have hparts : ((notional - fee) % quantum).toNat ≤ (notional - fee).toNat ∧
        (notional - fee).toNat + fee.toNat ≤ int64Max := by
      rw [hrounding, htotal]
      exact ⟨Nat.mod_le _ _, by omega⟩
    have hsettle := settleFill64_toNat notional quantum accumulator hround
      (fun h : false = true => nomatch h) (fun _ => hparts)
    rw [htotal, hrounding] at hsettle
    rw [roundFill_sell, if_neg hcash, roundFill64, cond_false,
      if_neg (by rw [decide_eq_true_iff]; exact mt hguard.mp hcash)]
    exact hsettle

/-- **A fill in words is a fill of the ledger.** -/
theorem fillAmounts64_toNat (buy : Bool) (quantity : Quantity) (price : Price)
    (policy : MachinePolicy) (accumulator : UInt64) :
    (fillAmounts64 buy quantity price policy accumulator).map
        (fun result => (result.1.amounts, ⟨result.2.toNat⟩)) =
      fillAmounts buy quantity.raw price policy.policy ⟨accumulator.toNat⟩ := by
  have hq := toNat_quantity quantity
  have hp := toNat_price price
  have hquantum := UInt32.toNat_toUInt64 policy.balanceQuantumMicro
  have hhundred : policy.balanceQuantumMicro.toUInt64 = 100 ↔
      policy.policy.balanceQuantumMicro = 100 := by
    rw [← UInt64.toNat_inj, hquantum]
    rfl
  have htenth : policy.balanceQuantumMicro.toUInt64 = 10000 ↔
      policy.policy.balanceQuantumMicro = 10000 := by
    rw [← UInt64.toNat_inj, hquantum]
    rfl
  have hcoefficient : 1000000 < policy.coefficientPpm ↔ 1000000 < policy.policy.coefficientPpm :=
    UInt32.lt_iff_toNat_lt
  have hrejects := or_congr (and_congr (not_congr hhundred) (not_congr htenth))
    (or_congr_left (c := quantity.raw = 0) hcoefficient)
  unfold fillAmounts64 fillAmounts
  dsimp only
  by_cases hbad : (policy.policy.balanceQuantumMicro ≠ 100 ∧
      policy.policy.balanceQuantumMicro ≠ 10000) ∨ 1000000 < policy.policy.coefficientPpm ∨
      quantity.raw = 0
  · rw [if_pos (hrejects.mpr hbad), if_pos hbad, Option.map_none]
  rw [if_neg (mt hrejects.mp hbad), if_neg hbad]
  have hsize : (UInt64.ofNat price.raw ≠ 0 ∧
      maximum64 / UInt64.ofNat price.raw < UInt64.ofNat quantity.raw) ↔
        (price.raw ≠ 0 ∧ int64Max / price.raw < quantity.raw) := by
    rw [ne_eq, ← UInt64.toNat_inj, hp, UInt64.toNat_zero, UInt64.lt_iff_toNat_lt, UInt64.toNat_div,
      maximum64_toNat, hp, hq]
  by_cases hlarge : price.raw ≠ 0 ∧ int64Max / price.raw < quantity.raw
  · rw [if_pos (hsize.mpr hlarge), if_pos hlarge, Option.map_none]
  rw [if_neg (mt hsize.mp hlarge), if_neg hlarge]
  rw [not_or, not_and_or, not_not, not_not, not_or, not_lt] at hbad
  obtain ⟨hquanta, hppm, -⟩ := hbad
  have hnotional : quantity.raw * price.raw ≤ int64Max := by
    rcases Nat.eq_zero_or_pos price.raw with hzero | hpos
    · rw [hzero, mul_zero]
      exact Nat.zero_le _
    · exact (Nat.le_div_iff_mul_le hpos).mp (not_lt.mp fun h => hlarge ⟨hpos.ne', h⟩)
  have hproduct : (UInt64.ofNat quantity.raw * UInt64.ofNat price.raw).toNat =
      quantity.raw * price.raw := by
    rw [toNat_mul_of_le, hq, hp]
    rw [hq, hp]
    exact hnotional.trans (by decide)
  have hfactor := @feeFactor64_toNat price policy hppm
  have hceil := ceilProduct64_toNat (UInt64.ofNat quantity.raw) (feeFactor64 price policy)
  rw [hq, hfactor] at hceil
  have hexact := ceilProduct_eq (quantity.le_max.trans (by decide))
    (@feeFactor_le_uint64Max price policy.policy hppm)
  have hpolicy : policy.policy.coefficientPpm = policy.coefficientPpm.toNat := rfl
  rw [hpolicy] at hexact ⊢
  rw [hexact]
  unfold checkedCeiling at hceil
  rw [← hceil]
  cases hfee : ceilProduct64 (UInt64.ofNat quantity.raw) (feeFactor64 price policy) with
  | none => rfl
  | some fee =>
    have hfits : fee.toNat ≤ int64Max := by
      rw [hfee, Option.map_some] at hceil
      split_ifs at hceil with hle
      rwa [← Option.some.inj hceil] at hle
    have hrange : 0 < policy.balanceQuantumMicro.toUInt64.toNat ∧
        policy.balanceQuantumMicro.toUInt64.toNat ≤ 10000 := by
      rw [hquantum]
      change 0 < policy.policy.balanceQuantumMicro ∧ policy.policy.balanceQuantumMicro ≤ 10000
      omega
    have hround := roundFill64_toNat buy accumulator hrange.1 hrange.2
      (hproduct.symm ▸ hnotional) hfits
    rw [hproduct, hquantum] at hround
    rw [Option.bind_eq_bind, Option.bind_some, Option.map_some, Option.bind_eq_bind,
      Option.bind_some, hround]
    rfl

end Fill

/-! ### When a fill fails -/

/-- What rounds the exact cash of a fill to the balance quantum. -/
def exactRounding (buy : Bool) (notional fee quantum : ℕ) : ℕ :=
  if buy then quantum * ((notional + fee) ⌈/⌉ quantum) - (notional + fee)
  else (notional - fee) % quantum

/-- **Overflow.** An exact amount of the fill is outside its type: the notional, the fee, the debit
of a buy before its rebate, or the accumulator before the rebate. -/
def FillOverflows (buy : Bool) (quantity : ℕ) (price : Price) (policy : FeePolicy)
    (accumulator : ℕ) : Prop :=
  let notional := quantity * price.raw
  let fee := exactFee quantity price policy
  let quantum := policy.balanceQuantumMicro
  int64Max < notional ∨ int64Max < fee ∨
    (buy = true ∧ int64Max < quantum * ((notional + fee) ⌈/⌉ quantum)) ∨
    uint64Max < accumulator + exactRounding buy notional fee quantum

section Failure

variable {buy : Bool} {quantity : ℕ} {price : Price} {policy : FeePolicy} {accumulator : ℕ}

/-- **The fee never exceeds the revenue.** -/
theorem exactFee_le_notional {policy : FeePolicy} (quantity : ℕ) (price : Price)
    (hp : policy.coefficientPpm ≤ 1000000) :
    exactFee quantity price policy ≤ quantity * price.raw := by
  rw [exactFee, ceilDiv_le_iff_le_mul (by decide)]
  calc quantity * (policy.coefficientPpm * price.raw * (10000 - price.raw))
      = policy.coefficientPpm * (10000 - price.raw) * (quantity * price.raw) := by ring
    _ ≤ 1000000 * 10000 * (quantity * price.raw) :=
      Nat.mul_le_mul_right _ (Nat.mul_le_mul hp (Nat.sub_le _ _))
    _ = feeDenominator * (quantity * price.raw) := rfl

/-- Rounding up to a multiple of the quantum. -/
theorem add_round_eq {quantum : ℕ} (hpos : 0 < quantum) (total : ℕ) :
    total + (quantum - total % quantum) % quantum = quantum * (total ⌈/⌉ quantum) := by
  have hdiv := Nat.div_add_mod total quantum
  rw [Nat.ceilDiv_eq_add_pred_div]
  rcases Nat.eq_zero_or_pos (total % quantum) with hzero | hrest
  · have hlast : (total + quantum - 1) / quantum = total / quantum := by
      rw [Nat.div_eq_iff hpos, mul_comm]
      omega
    rw [hlast, hzero, Nat.sub_zero, Nat.mod_self]
    omega
  · have hlt := Nat.mod_lt total hpos
    have hlast : (total + quantum - 1) / quantum = total / quantum + 1 := by
      rw [Nat.div_eq_iff hpos, mul_comm, mul_add, mul_one]
      omega
    rw [hlast, Nat.mod_eq_of_lt (Nat.sub_lt hpos hrest), mul_add, mul_one]
    omega

theorem settleFill_tradeFee {notional fee quantum total rounding : ℕ} {fill : FillAmounts}
    {left : FeeAccumulator}
    (h : settleFill buy notional fee quantum accumulator total rounding = some (fill, left)) :
    fill.tradeFee = fee := by
  unfold settleFill at h
  split_ifs at h
  rw [← (Prod.mk.inj (Option.some.inj h)).1]

/-- **The fee of a fill is the exact fee.** -/
theorem fillAmounts_tradeFee {fill : FillAmounts} {left : FeeAccumulator}
    (hp : policy.coefficientPpm ≤ 1000000)
    (h : fillAmounts buy quantity price policy ⟨accumulator⟩ = some (fill, left)) :
    fill.tradeFee = exactFee quantity price policy := by
  unfold fillAmounts at h
  dsimp only at h
  split_ifs at h with hbad hlarge
  obtain ⟨fee, hfee, hround⟩ := Option.bind_eq_some_iff.mp h
  rw [← ceilProduct_fee hp hlarge hfee]
  cases buy with
  | true =>
    rw [roundFill_buy] at hround
    split_ifs at hround
    exact settleFill_tradeFee hround
  | false =>
    rw [roundFill_sell] at hround
    split_ifs at hround
    exact settleFill_tradeFee hround

/-- A fill of the ledger fails only on overflow. -/
theorem fillAmounts_eq_none_iff (buy : Bool) (hquantity : 0 < quantity)
    (hmax : quantity ≤ int64Max) (hp : policy.Valid) :
    fillAmounts buy quantity price policy ⟨accumulator⟩ = none ↔
      FillOverflows buy quantity price policy accumulator := by
  obtain ⟨hppm, hquanta⟩ := hp
  have hpos : 0 < policy.balanceQuantumMicro := by omega
  have hfee := exactFee_le_notional quantity price hppm
  have hceil := ceilProduct_eq (hmax.trans (by decide : int64Max ≤ uint64Max))
    (@feeFactor_le_uint64Max price policy hppm)
  rw [← exactFee] at hceil
  have hsize : (price.raw ≠ 0 ∧ int64Max / price.raw < quantity) ↔
      int64Max < quantity * price.raw := by
    rcases Nat.eq_zero_or_pos price.raw with hzero | hprice
    · rw [hzero, mul_zero]
      exact ⟨fun h => absurd rfl h.1, fun h => absurd h (Nat.not_lt_zero _)⟩
    · rw [Nat.div_lt_iff_lt_mul hprice]
      exact and_iff_right hprice.ne'
  unfold fillAmounts FillOverflows
  dsimp only
  rw [if_neg (by omega)]
  by_cases hnotional : int64Max < quantity * price.raw
  · rw [if_pos (hsize.mpr hnotional)]
    exact iff_of_true rfl (Or.inl hnotional)
  have hfits : exactFee quantity price policy ≤ int64Max := hfee.trans (not_lt.mp hnotional)
  rw [if_neg (mt hsize.mp hnotional), hceil, if_pos hfits, Option.bind_eq_bind, Option.bind_some]
  generalize exactFee quantity price policy = fee at *
  generalize quantity * price.raw = notional at *
  generalize policy.balanceQuantumMicro = quantum at *
  -- The two last checks, written as sums.
  have hsettle (side : Bool) (total rounding : ℕ) (hround : rounding ≤ 10000) :
      settleFill side notional fee quantum accumulator total rounding = none ↔
        (side = true ∧ int64Max < total + rounding) ∨ uint64Max < accumulator + rounding := by
    have htotal : int64Max - rounding < total ↔ int64Max < total + rounding :=
      Nat.sub_lt_iff_lt_add (hround.trans (by decide : 10000 ≤ int64Max))
    have hword : uint64Max - rounding < accumulator ↔ uint64Max < accumulator + rounding :=
      Nat.sub_lt_iff_lt_add (hround.trans (by decide : 10000 ≤ uint64Max))
    rw [← htotal, ← hword]
    unfold settleFill
    split_ifs with hfails
    · exact iff_of_true rfl hfails
    · exact iff_of_false (fun h => by cases h) hfails
  have hquantum : quantum ≤ 10000 := by omega
  have hnofee : ¬int64Max < fee := not_lt.mpr hfits
  unfold exactRounding
  cases buy with
  | true =>
    have hround := add_round_eq hpos (notional + fee)
    rw [roundFill_buy, ← hround, if_pos rfl, Nat.add_sub_cancel_left]
    have hlt := Nat.mod_lt (quantum - (notional + fee) % quantum) hpos
    generalize (quantum - (notional + fee) % quantum) % quantum = rounding at *
    have hcash : int64Max - fee < notional ↔ int64Max < notional + fee :=
      Nat.sub_lt_iff_lt_add hfits
    split_ifs with hguard
    · rw [hcash] at hguard
      exact iff_of_true rfl (Or.inr (Or.inr (Or.inl ⟨rfl, by omega⟩)))
    · rw [hsettle true _ _ (hlt.le.trans hquantum)]
      simp only [hnotional, hnofee, true_and, false_or]
  | false =>
    rw [roundFill_sell, if_neg (not_lt.mpr hfee), if_neg Bool.false_ne_true,
      hsettle false _ _ ((Nat.mod_lt _ hpos).le.trans hquantum)]
    simp only [Bool.false_eq_true, false_and, false_or, hnotional, hnofee]

end Failure

/-- **Fee arithmetic is exact and fails only on overflow.** For all words the ceiling is exact, or
nothing when it is too large, and its two paths agree wherever the product fits into a word. A fill
of a positive quantity under a valid policy fails exactly when one of its exact amounts overflows.
Its fee never exceeds the notional, so that a sale is never rejected for it, and the fee charged is
the exact one. -/
theorem fee_arithmetic_exact :
    (∀ a b : UInt64, (ceilProduct64 a b).map UInt64.toNat =
      if a.toNat * b.toNat ⌈/⌉ 10 ^ 10 ≤ 2 ^ 63 - 1 then some (a.toNat * b.toNat ⌈/⌉ 10 ^ 10)
      else none) ∧
    (∀ a b : UInt64, a.toNat * b.toNat < 2 ^ 64 → ceilProductFast a b = ceilProductSerial a b) ∧
    ∀ (buy : Bool) (quantity : Quantity) (price : Price) (policy : MachinePolicy)
      (accumulator : UInt64), 0 < quantity.raw → policy.policy.Valid →
      (fillAmounts64 buy quantity price policy accumulator = none ↔
        FillOverflows buy quantity.raw price policy.policy accumulator.toNat) ∧
      (∀ fee, ceilProduct64 (UInt64.ofNat quantity.raw) (feeFactor64 price policy) = some fee →
        quantity.raw * price.raw ≤ int64Max →
          ¬UInt64.ofNat quantity.raw * UInt64.ofNat price.raw < fee) ∧
      ∀ fill left, fillAmounts64 buy quantity price policy accumulator = some (fill, left) →
        fill.tradeFee.toNat =
          quantity.raw * policy.coefficientPpm.toNat * price.raw * (10000 - price.raw) ⌈/⌉
            10 ^ 10 := by
  refine ⟨ceilProduct64_toNat, fun a b h => ceilProductFast_eq_serial (Nat.le_of_lt_succ h),
    fun buy quantity price policy accumulator hquantity hpolicy => ⟨?_, ?_, ?_⟩⟩
  · rw [← fillAmounts_eq_none_iff buy hquantity quantity.le_max hpolicy,
      ← fillAmounts64_toNat, Option.map_eq_none_iff]
  · intro fee hfee hnotional
    have hceil := ceilProduct64_toNat (UInt64.ofNat quantity.raw) (feeFactor64 price policy)
    rw [hfee, Option.map_some, toNat_quantity, feeFactor64_toNat hpolicy.1, checkedCeiling] at hceil
    split_ifs at hceil
    have hproduct : (UInt64.ofNat quantity.raw * UInt64.ofNat price.raw).toNat =
        quantity.raw * price.raw := by
      rw [toNat_mul_of_le, toNat_quantity, toNat_price]
      rw [toNat_quantity, toNat_price]
      exact hnotional.trans (by decide)
    rw [UInt64.lt_iff_toNat_lt, hproduct, not_lt, Option.some.inj hceil]
    exact @exactFee_le_notional policy.policy quantity.raw price hpolicy.1
  · intro fill left hfill
    have hledger := fillAmounts64_toNat buy quantity price policy accumulator
    rw [hfill, Option.map_some] at hledger
    have hfee := fillAmounts_tradeFee hpolicy.1 hledger.symm
    dsimp only [FillAmounts64.amounts, exactFee, MachinePolicy.policy] at hfee
    have hden : feeDenominator = 10 ^ 10 := by decide
    rw [hfee, hden]
    simp only [mul_assoc]
end EventMarket.Core
