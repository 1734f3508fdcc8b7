import EventMarket.Core.ExecutionCost
import Mathlib.Algebra.BigOperators.Group.List.Basic

/-!
# Conservation in the fee ledger

The fills of one order share an accumulator, which the source passes by reference. Over any fills,
the cash that moves is the notional, the fees and what is left in the accumulator; a fill that
fails leaves the accumulator alone.

## Main definitions

* `fillOrder`: one fill with the accumulator as its state.
* `fillAll`: the fills of an order, one after the other.
* `Conserved`: the books of an order.

## Main results

* `fee_ledger_conservation`: the ledger is conserved over all sequences of fills.
-/

namespace EventMarket.Core

/-- One fill; the accumulator is written only after the last check has passed. -/
def fillOrder (buy : Bool) (policy : FeePolicy) (quantity : ℕ) (price : Price) :
    StateM FeeAccumulator (Option FillAmounts) := do
  let quantum := policy.balanceQuantumMicro
  if (quantum ≠ 100 ∧ quantum ≠ 10000) ∨ 1000000 < policy.coefficientPpm ∨ quantity = 0 then
    return none
  else if price.raw ≠ 0 ∧ int64Max / price.raw < quantity then return none
  else
    let notional := quantity * price.raw
    match ceilProduct quantity (policy.coefficientPpm * price.raw * (10000 - price.raw)) with
    | none => return none
    | some fee =>
      if cond buy (decide (int64Max - fee < notional)) (decide (notional < fee)) then return none
      else
        let total := bif buy then notional + fee else notional - fee
        let rounding := bif buy then (quantum - total % quantum) % quantum else total % quantum
        let accumulator ← get
        if (buy ∧ int64Max - rounding < total) ∨
            uint64Max - rounding < accumulator.roundingMicro then return none
        else
          let accumulated := accumulator.roundingMicro + rounding
          let rebate := min (accumulated / quantum) ((fee + rounding) / quantum) * quantum
          set ({ roundingMicro := accumulated - rebate } : FeeAccumulator)
          return some ⟨notional, fee, rounding, rebate,
            bif buy then total + rounding - rebate else total - rounding + rebate⟩

/-- The fills of an order. -/
def fillAll (buy : Bool) (policy : FeePolicy) (fills : List (ℕ × Price)) :
    StateM FeeAccumulator (List (Option FillAmounts)) :=
  fills.mapM fun (quantity, price) => fillOrder buy policy quantity price

section Fill

variable {buy : Bool} {policy : FeePolicy} {quantity : ℕ} {price : Price}
  {accumulator left : FeeAccumulator} {fill : FillAmounts}

/-- **A fill that fails leaves the accumulator unchanged**, any other one leaves the next one. -/
theorem fillOrder_run (buy : Bool) (policy : FeePolicy) (quantity : ℕ) (price : Price)
    (accumulator : FeeAccumulator) :
    (fillOrder buy policy quantity price).run accumulator =
      match fillAmounts buy quantity price policy accumulator with
      | some (fill, left) => (some fill, left)
      | none => (none, accumulator) := by
  unfold fillOrder fillAmounts
  dsimp only
  split_ifs
  · rfl
  · rfl
  cases ceilProduct quantity (policy.coefficientPpm * price.raw * (10000 - price.raw)) with
  | none => rfl
  | some fee =>
    simp only [Option.bind_eq_bind, Option.bind_some, roundFill]
    split_ifs with hcash hfits
    · rfl
    · simp only [StateT.run_bind, StateT.run_get, pure_bind, if_pos hfits]
      rfl
    · simp only [StateT.run_bind, StateT.run_get, pure_bind, if_neg hfits]
      rfl

/-- The amounts of one fill: the cash is a multiple of the quantum, and what it does not move is
the change of the accumulator. -/
structure FillBalanced (buy : Bool) (quantum : ℕ) (before after : FeeAccumulator)
    (fill : FillAmounts) : Prop where
  dvd : quantum ∣ fill.change
  rebate_le : fill.rebate ≤ fill.tradeFee + fill.roundingFee
  accumulated : after.roundingMicro + fill.rebate = before.roundingMicro + fill.roundingFee
  buys : buy = true → fill.notional ≤ fill.change ∧
    fill.change + fill.rebate = fill.notional + fill.tradeFee + fill.roundingFee
  sells : buy = false → fill.change ≤ fill.notional ∧
    fill.change + fill.tradeFee + fill.roundingFee = fill.notional + fill.rebate

theorem dvd_add_round {quantum : ℕ} (hpos : 0 < quantum) (total : ℕ) :
    quantum ∣ total + (quantum - total % quantum) % quantum := by
  rcases Nat.eq_zero_or_pos (total % quantum) with hzero | hrest
  · rw [hzero, Nat.sub_zero, Nat.mod_self, add_zero]
    exact Nat.dvd_of_mod_eq_zero hzero
  · have hlt := Nat.mod_lt total hpos
    rw [Nat.mod_eq_of_lt (Nat.sub_lt hpos hrest)]
    have hdiv := Nat.div_add_mod total quantum
    exact ⟨total / quantum + 1, by rw [mul_add, mul_one]; omega⟩

/-- Rounding a fill balances it. -/
theorem roundFill_balanced {notional fee quantum : ℕ} (hpos : 0 < quantum)
    (h : roundFill buy notional fee quantum accumulator = some (fill, left)) :
    FillBalanced buy quantum accumulator left fill := by
  unfold roundFill at h
  split at h
  · cases h
  rename_i hcash
  dsimp only at h
  split at h
  · cases h
  obtain ⟨rfl, rfl⟩ := Prod.mk.inj (Option.some.inj h)
  generalize hrounding : (bif buy
    then (quantum - (bif buy then notional + fee else notional - fee) %
    quantum) % quantum else (bif buy then notional + fee else notional - fee) % quantum) = rounding
    at *
  set quanta := min ((accumulator.roundingMicro + rounding) / quantum) ((fee + rounding) / quantum)
    with hquanta
  have haccumulated : quanta * quantum ≤ accumulator.roundingMicro + rounding :=
    (Nat.mul_le_mul_right _ (min_le_left _ _)).trans (Nat.div_mul_le_self _ _)
  have hfee : quanta * quantum ≤ fee + rounding :=
    (Nat.mul_le_mul_right _ (min_le_right _ _)).trans (Nat.div_mul_le_self _ _)
  have hrebate : quantum ∣ quanta * quantum := Dvd.intro_left quanta rfl
  cases buy with
  | true =>
    simp only [cond_true] at hrounding ⊢
    have hround := dvd_add_round hpos (notional + fee)
    rw [hrounding] at hround
    refine ⟨Nat.dvd_sub hround hrebate, hfee, ?_, fun _ => ⟨?_, ?_⟩, fun h => (nomatch h)⟩ <;>
      dsimp only <;> omega
  | false =>
    simp only [cond_false, decide_eq_true_eq, not_lt] at hrounding hcash ⊢
    have hround : quantum ∣ notional - fee - rounding := by
      rw [← hrounding]
      exact Nat.dvd_sub_mod _
    have hle : rounding ≤ notional - fee := by
      rw [← hrounding]
      exact Nat.mod_le _ _
    refine ⟨Nat.dvd_add hround hrebate, hfee, ?_, fun h => (nomatch h), fun _ => ⟨?_, ?_⟩⟩ <;>
      dsimp only <;> omega

theorem fillAmounts_balanced
    (h : fillAmounts buy quantity price policy accumulator = some (fill, left)) :
    FillBalanced buy policy.balanceQuantumMicro accumulator left fill := by
  unfold fillAmounts at h
  dsimp only at h
  split_ifs at h
  obtain ⟨fee, -, hround⟩ := Option.bind_eq_some_iff.mp h
  exact roundFill_balanced (by omega) hround

end Fill

/-! ### The fills of an order -/

/-- **The books of an order**: what its fills moved, and the accumulator that they leave. -/
structure Conserved (buy : Bool) (quantum : ℕ) (fills : List FillAmounts) (left : FeeAccumulator) :
    Prop where
  buys : buy = true → (fills.map FillAmounts.change).sum =
    (fills.map FillAmounts.notional).sum + (fills.map FillAmounts.tradeFee).sum +
      left.roundingMicro
  sells : buy = false → (fills.map FillAmounts.change).sum + (fills.map FillAmounts.tradeFee).sum +
    left.roundingMicro = (fills.map FillAmounts.notional).sum
  rebates : left.roundingMicro + (fills.map FillAmounts.rebate).sum =
    (fills.map FillAmounts.roundingFee).sum
  each : ∀ fill ∈ fills, quantum ∣ fill.change ∧ fill.rebate ≤ fill.tradeFee + fill.roundingFee ∧
    (buy = true → fill.notional ≤ fill.change) ∧ (buy = false → fill.change ≤ fill.notional)

theorem conserved_nil (buy : Bool) (quantum : ℕ) : Conserved buy quantum [] {} :=
  ⟨fun _ => rfl, fun _ => rfl, rfl, fun _ h => nomatch h⟩

/-- One more fill. -/
theorem Conserved.append {buy : Bool} {quantum : ℕ} {fills : List FillAmounts}
    {before after : FeeAccumulator} {fill : FillAmounts} (h : Conserved buy quantum fills before)
    (hfill : FillBalanced buy quantum before after fill) :
    Conserved buy quantum (fills ++ [fill]) after := by
  have haccumulated := hfill.accumulated
  refine ⟨fun hbuy => ?_, fun hsell => ?_, ?_, ?_⟩
  · have hmoved := (hfill.buys hbuy).2
    have hbefore := h.buys hbuy
    simp only [List.map_append, List.sum_append, List.map_cons, List.map_nil, List.sum_cons,
      List.sum_nil]
    omega
  · have hmoved := (hfill.sells hsell).2
    have hbefore := h.sells hsell
    simp only [List.map_append, List.sum_append, List.map_cons, List.map_nil, List.sum_cons,
      List.sum_nil]
    omega
  · have hbefore := h.rebates
    simp only [List.map_append, List.sum_append, List.map_cons, List.map_nil, List.sum_cons,
      List.sum_nil]
    omega
  · refine List.forall_mem_append.mpr ⟨h.each, ?_⟩
    simpa using ⟨hfill.dvd, hfill.rebate_le, fun hbuy => (hfill.buys hbuy).1,
      fun hsell => (hfill.sells hsell).1⟩

/-- The fills that have succeeded among some results. -/
def succeeded (results : List (Option FillAmounts)) : List FillAmounts := results.filterMap id

/-- **Conservation.** Over every sequence of fills of one order, from an empty accumulator and
after every part of the sequence: the books of the fills that succeed are conserved, and
cumulative rebates are at most the cumulative roundings. A fill that fails leaves the accumulator
as it is. -/
theorem fee_ledger_conservation (buy : Bool) (policy : FeePolicy) (fills : List (ℕ × Price)) :
    (∀ before, before <+: fills →
      Conserved buy policy.balanceQuantumMicro
          (succeeded ((fillAll buy policy before).run {}).1)
            ((fillAll buy policy before).run {}).2 ∧
        ((succeeded ((fillAll buy policy before).run {}).1).map FillAmounts.rebate).sum ≤
          ((succeeded ((fillAll buy policy before).run {}).1).map FillAmounts.roundingFee).sum) ∧
    ∀ quantity price accumulator left,
      (fillOrder buy policy quantity price).run accumulator = (none, left) →
        left = accumulator := by
  have hall : ∀ fills : List (ℕ × Price), Conserved buy policy.balanceQuantumMicro
      (succeeded ((fillAll buy policy fills).run {}).1) ((fillAll buy policy fills).run {}).2 := by
    intro fills
    induction fills using List.reverseRecOn with
    | nil => exact conserved_nil _ _
    | append_singleton fills last ih =>
      have hlast : (fillAll buy policy (fills ++ [last])).run {} =
          (((fillAll buy policy fills).run {}).1 ++
            [((fillOrder buy policy last.1 last.2).run ((fillAll buy policy fills).run {}).2).1],
            ((fillOrder buy policy last.1 last.2).run
              ((fillAll buy policy fills).run {}).2).2) := by
        simp only [fillAll, List.mapM_append, List.mapM_cons, List.mapM_nil]
        rfl
      rw [hlast, fillOrder_run]
      cases hfill : fillAmounts buy last.1 last.2 policy ((fillAll buy policy fills).run {}).2 with
      | none => simpa [succeeded] using ih
      | some filled =>
        have hnext := ih.append (fillAmounts_balanced hfill)
        simpa [succeeded] using hnext
  refine ⟨fun before _ => ⟨hall before, ?_⟩, fun quantity price accumulator left h => ?_⟩
  · have hrebates := (hall before).rebates
    omega
  · rw [fillOrder_run] at h
    split at h
    · cases h
    · exact (Prod.mk.inj h).2.symm

end EventMarket.Core
