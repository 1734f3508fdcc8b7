import EventMarket.Core.BasketSizingOptimal
import EventMarket.Core.MachineSizing
import EventMarket.Core.SearchBudget

/-!
# The sizing arithmetic stays in range

The checked sizing code of `MachineSizing` has a value on every input, the one of the sizing code
on unbounded numbers. Each expression has its own bound: the quantities are bounded by the
validated cap, prices by one contract unit, fee factors by the validated coefficient, and the
prefix sums by the worst-case reservation of the quantity passed, however deep the ladder is.
The counters stay below the evaluation budget, because the intervals of a stretch that are pruned
are fewer than its evaluations.

## Main definitions

* `CostPrefix.Bounded`, `Cursor.Bounded`: the bounds on which the arithmetic of a cursor rests.
* `Search.Counted`: the counters within the budget.

## Main results

* `buyReservation64_eq`: reservations.
* `Search.evaluate64_computes`, `Search.loop64_computes`: the pair search, step by step.
* `sizing_never_wraps`: the three entry points.
-/

namespace EventMarket.Core

open EventMarket.Foundations

/-! ### Words

A result of at most `10 ^ 18` is far from both bounds. -/

section Word

variable {a b : ℕ}

theorem addIn_int64 (h : a + b ≤ 1000000000000000000) : addIn int64Max a b = some (a + b) :=
  addIn_eq (h.trans (by decide))

theorem mulIn_int64 (h : a * b ≤ 1000000000000000000) : mulIn int64Max a b = some (a * b) :=
  mulIn_eq (h.trans (by decide))

theorem addIn_uint64 (h : a + b ≤ 1000000000000000000) : addIn uint64Max a b = some (a + b) :=
  addIn_eq (h.trans (by decide))

theorem mulIn_uint64 (h : a * b ≤ 1000000000000000000) : mulIn uint64Max a b = some (a * b) :=
  mulIn_eq (h.trans (by decide))

theorem inRange_int64 {x : ℤ} (h : -1000000000000000000 ≤ x) (h' : x ≤ 1000000000000000000) :
    inRange int64Min int64Max x = some x :=
  inRange_eq ((by decide : int64Min ≤ -1000000000000000000).trans h)
    (h'.trans (by decide : (1000000000000000000 : ℤ) ≤ int64Max))

end Word

/-! ### Reservations -/

/-- The charge of a bounded fill is bounded. -/
theorem chargeBuyFill_le {quantity : ℕ} {price : Price} {policy : FeePolicy}
    {accumulator left : FeeAccumulator} {charge : FillCharge}
    (h : chargeBuyFill quantity price policy accumulator = some (charge, left))
    (hquantity : quantity ≤ quantityBound)
    (hrounding : accumulator.roundingMicro ≤ 1000000000000) :
    charge.notional ≤ 1000000000000 ∧ charge.tradeFee ≤ 250000000000 ∧
      charge.debit ≤ 2300000000000 ∧ left.roundingMicro ≤ 1000000010000 := by
  obtain ⟨hvalid, -, hnotional, htrade, hdebit, -, hleft⟩ := chargeBuyFill_spec h
  have hfee := exactFee_le quantity price hvalid.1
  have hprice := Nat.mul_le_mul hquantity price.le_scale
  have hquantum := hvalid.2
  simp only [quantityBound] at hquantity hprice
  omega

/-- **Reservations stay in range.** -/
theorem buyReservation64_eq (quantity step : ℕ) (limit : Price) (fee : FeePolicy) :
    buyReservation64 quantity step limit fee = some (buyReservation quantity step limit fee) := by
  unfold buyReservation64 buyReservation
  by_cases hguard : quantityBound < quantity ∨ (step ≠ 1 ∧ step ≠ 100)
  · rw [if_pos hguard, if_pos (by tauto)]
  have hstep : 0 < step := by omega
  rw [if_neg hguard, modIn_eq hstep, Option.bind_eq_bind, Option.bind_some]
  by_cases hreject : quantity % step ≠ 0 ∨ ¬fee.Valid
  · rw [if_pos hreject, if_pos (by tauto)]
  have haccept : ¬(quantityBound < quantity ∨ (step ≠ 1 ∧ step ≠ 100) ∨ quantity % step ≠ 0 ∨
      ¬fee.Valid) := by tauto
  rw [if_neg hreject, if_neg haccept]
  by_cases hzero : quantity = 0
  · rw [if_pos hzero, if_pos hzero]
  rw [if_neg hzero, if_neg hzero]
  cases hpeak : chargeBuyFill quantity Price.half fee {} with
  | none => rfl
  | some peak =>
    have hquantity : quantity ≤ quantityBound := by omega
    obtain ⟨-, htrade, -, -⟩ := chargeBuyFill_le hpeak hquantity (Nat.zero_le _)
    have hlimit := Nat.mul_le_mul hquantity limit.le_scale
    have hquantum : fee.balanceQuantumMicro + 1 ≤ 10001 := by
      have hvalid : fee.Valid := by tauto
      have := hvalid.2
      omega
    have hsteps := Nat.mul_le_mul ((Nat.div_le_self quantity step).trans hquantity) hquantum
    simp only [quantityBound] at hlimit hsteps
    simp (disch := omega) only [mulIn_int64, addIn_int64, divIn_eq, Option.bind_eq_bind,
      Option.bind_some]

/-! ### Prefix sums -/

/-- The prefix sums are far from the bounds of a word. -/
structure CostPrefix.Bounded (passed : CostPrefix) : Prop where
  quantity_le : passed.quantity ≤ quantityBound
  notional_le : passed.notional ≤ 3000000000000
  debit_le : passed.debit ≤ 3000000000000
  rounding_le : passed.accumulator.roundingMicro ≤ 1000000000000

/-- The notionals of a list of fills are part of their debits. -/
theorem sum_notional_le {policy : FeePolicy} {fills : List BuyFill}
    {accumulator left : FeeAccumulator} {charges : List FillCharge}
    (h : chargeBuyFills policy fills accumulator = some (charges, left)) :
    (charges.map FillCharge.notional).sum ≤ totalDebit charges := by
  induction fills generalizing accumulator charges with
  | nil =>
    simp only [chargeBuyFills, Option.some.injEq, Prod.mk.injEq] at h
    obtain ⟨rfl, rfl⟩ := h
    exact le_refl _
  | cons fill fills ih =>
    obtain ⟨charge, middle, rest, rfl, hcharge, hrest⟩ := chargeBuyFills_cons_eq_some h
    obtain ⟨-, -, -, -, -, hle, -⟩ := chargeBuyFill_spec hcharge
    rw [List.map_cons, List.sum_cons, totalDebit_cons]
    exact Nat.add_le_add hle (ih hrest)

/-- **Prefix sums stay in range.** What a prefix has debited is at most the reservation of its
quantity at the highest price, whatever the number and the size of its levels. -/
theorem CostPrefix.Follows.bounded {depth : BuyDepth} {step bound : ℕ} {passed : CostPrefix}
    {levels : List BuyLevel} {fills : List BuyFill} {charges : List FillCharge}
    (h : passed.Follows depth step bound levels fills charges) (hstep : step = 1 ∨ step = 100)
    (hfee : depth.fees.Valid) (hle : passed.quantity ≤ quantityBound) : passed.Bounded := by
  have hr : Reservable passed.quantity step depth.fees := ⟨hle, hstep, h.dvd_quantity, hfee⟩
  have hreserve : totalDebit charges ≤
      reservationAmount passed.quantity step ⟨10000, le_rfl⟩ depth.fees :=
    sum_debit_le hr ⟨h.grid, fun fill _ => fill.price.le_scale, h.quantity.le⟩ h.charged
  have hdebit := hreserve.trans (reservationAmount_lt hr)
  refine ⟨hle, ?_, h.debit ▸ hdebit, h.rounding_le hr.step_pos hfee hle⟩
  rw [h.notional]
  exact (sum_notional_le h.charged).trans hdebit

/-- Passing a level keeps the sums in range. -/
theorem CostPrefix.Bounded.pass64_eq {passed : CostPrefix} (h : passed.Bounded) {count : ℕ}
    {price : Price} {fees : FeePolicy} {charge : FillCharge} {left : FeeAccumulator}
    (hcharge : chargeBuyFill count price fees passed.accumulator = some (charge, left))
    (hcount : count ≤ quantityBound) :
    passed.pass64 count charge left = some (passed.pass count charge left) := by
  obtain ⟨hnotional, -, hdebit, -⟩ := chargeBuyFill_le hcharge hcount h.rounding_le
  have hquantity := h.quantity_le
  simp only [quantityBound] at hquantity hcount
  have hnotionals := h.notional_le
  have hdebits := h.debit_le
  simp (disch := omega) only [CostPrefix.pass64, CostPrefix.pass, addIn_int64,
    Option.bind_eq_bind, Option.bind_some]

/-! ### Cursors of the pair search -/

/-- The grid of a cursor. -/
structure Cursor.Gridded (cursor : Cursor) : Prop where
  step_pos : 0 < cursor.step
  cap_le : cursor.cap ≤ quantityBound

/-- The bounds on which the arithmetic of a cursor rests. -/
structure Cursor.Bounded (cursor : Cursor) : Prop extends cursor.Gridded where
  fees : cursor.fees.Valid
  passed : cursor.passed.Bounded

namespace Cursor

variable {cursor : Cursor} {level : BuyLevel} {levels : List BuyLevel}

theorem levelSize_le (step cap : ℕ) (level : BuyLevel) : levelSize step cap level ≤ cap :=
  (Nat.div_mul_le_self _ _).trans (min_le_right _ _)

theorem size_le (cursor : Cursor) : cursor.size ≤ cursor.cap := by
  unfold size
  split
  · exact Nat.zero_le _
  · exact levelSize_le _ _ _

namespace Gridded

theorem levelSize64_eq (h : cursor.Gridded) (level : BuyLevel) :
    levelSize64 cursor.step cursor.cap level = some (levelSize cursor.step cursor.cap level) := by
  have hsize := levelSize_le cursor.step cursor.cap level
  have hcap := h.cap_le
  unfold levelSize quantityBound at *
  simp (disch := omega) only [levelSize64, divIn_eq h.step_pos, mulIn_int64, Option.bind_eq_bind,
    Option.bind_some]

theorem size64_eq (h : cursor.Gridded) (hlevels : cursor.levels = level :: levels) :
    cursor.size64 = some cursor.size := by
  simp only [size64, size, hlevels, h.levelSize64_eq]

theorem seek64_eq (h : cursor.Gridded) : cursor.seek64 = some cursor.seek := by
  have hseek (levels : List BuyLevel) : seekLevels64 cursor.step cursor.cap levels =
      some (levels.dropWhile fun level => levelSize cursor.step cursor.cap level = 0) := by
    induction levels with
    | nil => rfl
    | cons level levels ih =>
      rw [seekLevels64, h.levelSize64_eq, Option.bind_eq_bind, Option.bind_some,
        List.dropWhile_cons, ih]
      by_cases hzero : levelSize cursor.step cursor.cap level = 0 <;> simp [hzero]
  simp only [seek64, seek, hseek, Option.bind_eq_bind, Option.bind_some]

end Gridded

theorem price64_eq (hlevels : cursor.levels = level :: levels) :
    cursor.price64 = some cursor.price := by
  simp only [price64, price, hlevels]

namespace Bounded

theorem stop64_eq (h : cursor.Bounded) (hlevels : cursor.levels = level :: levels) :
    cursor.stop64 = some cursor.stop := by
  have hsize := cursor.size_le.trans h.cap_le
  have hquantity := h.passed.quantity_le
  simp only [quantityBound] at hsize hquantity
  simp (disch := omega) only [stop64, stop, h.size64_eq hlevels, addIn_int64, Option.bind_eq_bind,
    Option.bind_some]

/-- **Passing a level stays in range.** -/
theorem advance64_eq (h : cursor.Bounded) (hlevels : cursor.levels = level :: levels) :
    cursor.advance64 = some cursor.advance := by
  simp only [advance64, advance, h.size64_eq hlevels, price64_eq hlevels, Option.bind_eq_bind,
    Option.bind_some]
  cases hcharge : chargeBuyFill cursor.size cursor.price cursor.fees
    cursor.passed.accumulator with
  | none => rfl
  | some charge =>
    simp only [h.passed.pass64_eq hcharge (cursor.size_le.trans h.cap_le), Option.bind_some]

end Bounded

theorem Follows.gridded {depth : BuyDepth} {limits : SizingLimits} {fills : List BuyFill}
    {charges : List FillCharge} (h : cursor.Follows depth limits fills charges)
    (hl : limits.Valid) : cursor.Gridded where
  step_pos := by
    have := hl.2.1
    rw [h.step]
    omega
  cap_le := h.cap ▸ hl.1

/-- A cursor that follows its ladder on valid input is in range. -/
theorem Follows.bounded {depth : BuyDepth} {limits : SizingLimits} {fills : List BuyFill}
    {charges : List FillCharge} (h : cursor.Follows depth limits fills charges)
    (hl : limits.Valid) (hd : depth.Valid) (hle : cursor.passed.quantity ≤ quantityBound) :
    cursor.Bounded :=
  { h.gridded hl with
    fees := h.fees ▸ hd.1
    passed := h.toFollows.bounded hl.2.1 hd.1 hle }

end Cursor

/-! ### Evaluations of the pair search -/

/-- A reservation is bounded. -/
theorem buyReservation_le {quantity step reserve : ℕ} {limit : Price} {fee : FeePolicy}
    (h : buyReservation quantity step limit fee = some reserve) : reserve ≤ 3000000000000 := by
  have hr := buyReservation_eq_some h
  rw [buyReservation_eq hr, Option.some.injEq] at h
  exact h ▸ reservationAmount_lt hr

theorem buildOrder_reservation_le {depth : BuyDepth} {step quantity : ℕ} {leg : SizedLeg}
    (hr : Reservable quantity step depth.fees) (h : buildOrder depth step quantity = some leg) :
    leg.reservation ≤ 3000000000000 := by
  obtain ⟨_, _, _, -, -, rfl⟩ := (buildOrder_eq_some_iff hr).mp h
  exact reservationAmount_lt hr

namespace Search

section Leg

variable {search : Search} {leg : Fin 2} {q : ℕ}

theorem feeFactor64_eq {bound : ℕ} (hbound : 1000000000000000000 ≤ bound) {fees : FeePolicy}
    (hfees : fees.Valid) (price : Price) :
    feeFactor64 bound fees price =
      some (fees.coefficientPpm * price.raw * (10000 - price.raw)) := by
  have hprice := price.le_scale
  have hscaled := Nat.mul_le_mul hfees.1 hprice
  have hfactor := Nat.mul_le_mul hscaled (Nat.sub_le 10000 price.raw)
  simp (disch := omega) only [feeFactor64, mulIn_eq, subIn_eq, Option.bind_eq_bind,
    Option.bind_some]

theorem feeFactor_lt {cursor : Cursor} (hfees : cursor.fees.Valid) :
    feeFactor cursor ≤ 25000000000000 := by
  have := feeFactor_le cursor.fees cursor.price
  have := hfees.1
  unfold feeFactor
  omega

theorem feeCeilError_le (cursor : Cursor) (q : ℕ) : feeCeilError cursor q ≤ feeDenominator := by
  unfold feeCeilError
  dsimp only
  split_ifs
  · exact Nat.sub_le _ _
  · exact Nat.zero_le _

/-- **The product under the fee ceiling is reduced first**, so that it stays in range. -/
theorem feeCeilError64_eq {cursor : Cursor} (hfees : cursor.fees.Valid)
    (hle : cursor.passed.quantity ≤ q) (hq : q ≤ quantityBound) :
    feeCeilError64 cursor cursor.price q = some (feeCeilError cursor q) := by
  have hdenominator : 0 < feeDenominator := by decide
  have hreduced := (Nat.mod_lt (feeFactor cursor) hdenominator).le
  have hproduct := Nat.mul_le_mul ((Nat.sub_le q cursor.passed.quantity).trans hq) hreduced
  have hremainder := Nat.mod_lt
    ((q - cursor.passed.quantity) * (feeFactor cursor % feeDenominator)) hdenominator
  have hword : quantityBound * feeDenominator = 1000000000000000000 := by decide
  have hfactor : feeFactor64 uint64Max cursor.fees cursor.price = some (feeFactor cursor) :=
    feeFactor64_eq (by decide) hfees cursor.price
  unfold feeCeilError64 feeCeilError
  rw [hfactor, subIn_eq hle]
  simp only [modIn_eq hdenominator, mulIn_uint64 (hproduct.trans hword.le), subIn_eq hremainder.le,
    Option.bind_eq_bind, Option.bind_some]
  split_ifs <;> rfl

theorem legReservation64_eq {level : BuyLevel} {levels : List BuyLevel}
    (hlevels : (search.cursors leg).levels = level :: levels) (q : ℕ) :
    search.legReservation64 leg q = some (search.legReservation leg q) := by
  simp only [legReservation64, legReservation, Cursor.price64_eq hlevels, buyReservation64_eq,
    Option.bind_eq_bind, Option.bind_some]

/-- **Reservations of a pair stay in range**, also where the source reports the largest word. -/
theorem reservation64_eq (hlevels : ∀ leg, (search.cursors leg).levels ≠ []) (q : ℕ) :
    search.reservation64 q = some (search.reservation q) := by
  obtain ⟨level0, levels0, hlevels0⟩ := List.exists_cons_of_ne_nil (hlevels 0)
  obtain ⟨level1, levels1, hlevels1⟩ := List.exists_cons_of_ne_nil (hlevels 1)
  simp only [reservation64, reservation, legReservation64_eq hlevels0, legReservation64_eq hlevels1,
    Option.bind_eq_bind, Option.bind_some]
  cases hreserve0 : search.legReservation 0 q with
  | none => rfl
  | some reserve0 =>
    cases hreserve1 : search.legReservation 1 q with
    | none => rfl
    | some reserve1 =>
      have h0 := buyReservation_le hreserve0
      have h1 := buyReservation_le hreserve1
      exact addIn_int64 (by omega)

/-- The sums of an evaluation are far from the bounds of a word. -/
structure Totals.Bounded (totals : Totals) : Prop where
  neg_le : -100000000000000 ≤ totals.margin
  margin_le : totals.margin ≤ 100000000000000
  reserve_le : totals.reserve ≤ 100000000000000
  rounding_le : totals.rounding ≤ 100000000000000
  error_le : totals.error ≤ 100000000000000

/-- The sums with one more leg. -/
def Totals.add (totals : Totals) (leg : SizedLeg) (rounding error : ℕ) : Totals where
  margin := totals.margin - leg.debit
  reserve := totals.reserve + leg.reservation
  rounding := totals.rounding + rounding
  error := totals.error + error

/-- What an evaluation computes for one leg is bounded. -/
theorem evaluateLeg_le (search : Search) (hb : (search.cursors leg).Bounded)
    (hq : q ≤ quantityBound)
    {sized : SizedLeg} {rounding : ℕ} (h : search.evaluateLeg leg q = some (sized, rounding)) :
    sized.debit ≤ 5300000000000 ∧ sized.reservation ≤ 3000000000000 ∧
      rounding ≤ 1000000010000 := by
  obtain ⟨⟨charge, left⟩, hcharge, h⟩ := Option.bind_eq_some_iff.mp h
  obtain ⟨reserve, hreserve, h⟩ := Option.bind_eq_some_iff.mp h
  simp only [Option.some.injEq, Prod.mk.injEq] at h
  obtain ⟨rfl, rfl⟩ := h
  obtain ⟨-, -, hdebit, hleft⟩ :=
    chargeBuyFill_le hcharge ((Nat.sub_le _ _).trans hq) hb.passed.rounding_le
  have hpassed := hb.passed.debit_le
  exact ⟨by dsimp only; omega, buyReservation_le hreserve, hleft⟩

/-- **One leg stays in range.** -/
theorem addLeg64_eq (search : Search) (hb : (search.cursors leg).Bounded)
    (hlevels : (search.cursors leg).levels ≠ []) (hle : (search.cursors leg).passed.quantity ≤ q)
      (hq : q ≤ quantityBound) {totals : Totals}
    (ht : totals.Bounded) :
    search.addLeg64 leg q totals = some ((search.evaluateLeg leg q).map fun a =>
      (a.1, totals.add a.1 a.2 (feeCeilError (search.cursors leg) q))) := by
  obtain ⟨level, levels, hcons⟩ := List.exists_cons_of_ne_nil hlevels
  obtain ⟨hneg, hmargin, hreserve, hrounding, herror⟩ := ht
  have hceiling := feeCeilError_le (search.cursors leg) q
  unfold addLeg64 evaluateLeg
  simp only [subIn_eq hle, Cursor.price64_eq hcons, legReservation64_eq hcons,
    feeCeilError64_eq hb.fees hle hq, Option.bind_eq_bind, Option.bind_some]
  cases hcharge : chargeBuyFill (q - (search.cursors leg).passed.quantity)
      (search.cursors leg).price (search.cursors leg).fees
      (search.cursors leg).passed.accumulator with
  | none => rfl
  | some charge =>
    cases hreserved : search.legReservation leg q with
    | none => rfl
    | some reservation =>
      obtain ⟨hnotional, -, hdebit, hleft⟩ :=
        chargeBuyFill_le hcharge ((Nat.sub_le _ _).trans hq) hb.passed.rounding_le
      have hdebits := hb.passed.debit_le
      have hnotionals := hb.passed.notional_le
      have hreservation := buyReservation_le hreserved
      simp only [feeDenominator] at hceiling
      simp (disch := omega) only [addIn_int64, addIn_uint64, inRange_int64, Option.bind_some,
        Option.map_some, Totals.add]

end Leg

section Evaluate

variable {depth : Fin 2 → BuyDepth} {limits : SizingLimits} {search : Search} {q : ℕ}

theorem Tracks.bounded (ht : search.Tracks depth limits) (hl : limits.Valid)
    (hd : ∀ leg, (depth leg).Valid) (leg : Fin 2)
    (hle : (search.cursors leg).passed.quantity ≤ quantityBound) :
    (search.cursors leg).Bounded := by
  obtain ⟨fills, charges, hf⟩ := ht.follows leg
  exact hf.bounded hl (hd leg) hle

theorem levels_ne_nil_of_size_pos {cursor : Cursor} (h : 0 < cursor.size) : cursor.levels ≠ [] := by
  obtain ⟨level, levels, hlevels, -⟩ := cursor.exists_level_of_size_pos h
  simp [hlevels]

/-- **Evaluations stay in range.** -/
theorem evaluate64_computes (hl : limits.Valid) (hd : ∀ leg, (depth leg).Valid)
    (hmax : limits.maxEvaluations ≤ uint64Max) (ht : search.Tracks depth limits)
    (hr : search.Reaches limits q) (hw : search.Within) :
    Computes (search.evaluate64 q) (search.evaluate q) := by
  have hq : q ≤ quantityBound := (hr.le_cap.trans limits.gridCap_le).trans hl.1
  have hle (leg : Fin 2) : (search.cursors leg).passed.quantity ≤ q := (hr.prefix_lt leg).le
  have hb (leg : Fin 2) : (search.cursors leg).Bounded :=
    ht.bounded hl hd leg ((hle leg).trans hq)
  have hlevels (leg : Fin 2) : (search.cursors leg).levels ≠ [] := by
    have := hr.prefix_lt leg
    have := hr.le_stop leg
    refine levels_ne_nil_of_size_pos ?_
    unfold Cursor.stop at this
    omega
  unfold evaluate64 evaluate
  refine .ite (fun _ => .throw _) fun hbudget => ?_
  have hlimits := ht.limits_eq
  have hcount : search.evaluatedQuantities + 1 ≤ uint64Max := by
    unfold Within at hw
    rw [hlimits] at hw hbudget
    omega
  have hbound := hq
  simp only [quantityBound] at hbound
  refine .lift (addIn_eq hcount) (.lift (mulIn_int64 (by omega)) ?_)
  set counted : Search := { search with evaluatedQuantities := search.evaluatedQuantities + 1 }
  have hstart : Totals.Bounded { margin := ((q * 10000 : ℕ) : ℤ) } := by
    constructor <;> dsimp only <;> omega
  refine .lift (counted.addLeg64_eq (hb 0) (hlevels 0) (hle 0) hq hstart) ?_
  dsimp only
  have hceiling0 := feeCeilError_le (counted.cursors 0) q
  have hceiling1 := feeCeilError_le (counted.cursors 1) q
  simp only [feeDenominator] at hceiling0 hceiling1
  cases heval0 : counted.evaluateLeg 0 q with
  | none => exact .throw _
  | some leg0 =>
    obtain ⟨hdebit0, hreserve0, hrounding0⟩ := counted.evaluateLeg_le (hb 0) hq heval0
    have htotals : Totals.Bounded (Totals.add { margin := ((q * 10000 : ℕ) : ℤ) } leg0.1 leg0.2
        (feeCeilError (counted.cursors 0) q)) := by
      constructor <;> simp only [Totals.add] <;> omega
    refine .lift (counted.addLeg64_eq (hb 1) (hlevels 1) (hle 1) hq htotals) ?_
    cases heval1 : counted.evaluateLeg 1 q with
    | none => exact .throw _
    | some leg1 =>
      obtain ⟨hdebit1, hreserve1, hrounding1⟩ := counted.evaluateLeg_le (hb 1) hq heval1
      have hdenominator : 0 < feeDenominator := by decide
      have hceilings : (0 + feeCeilError (counted.cursors 0) q +
        feeCeilError (counted.cursors 1) q) /
          feeDenominator ≤ 100000000000000 := (Nat.div_le_self _ _).trans (by omega)
      have hnonneg := Int.natCast_nonneg
        ((0 + feeCeilError (counted.cursors 0) q + feeCeilError (counted.cursors 1) q) /
          feeDenominator)
      refine .lift (inRange_int64 ?_ ?_) (.lift (divIn_eq hdenominator)
        (.lift (inRange_int64 ?_ ?_) ?_))
      iterate 4 simp only [Totals.add]; omega
      simp only [Totals.add, Nat.zero_add]
      push_cast
      exact .pure _

end Evaluate

/-! ### Intervals and counters -/

section Interval

variable {depth : Fin 2 → BuyDepth} {limits : SizingLimits} {search other : Search}

/-- **The counters are within the budget**, and fewer intervals are pruned than quantities
evaluated, by `slack`. -/
structure Counted (search : Search) (slack : ℕ) : Prop where
  within : search.Within
  pruned : search.intervalsPruned + slack ≤ search.evaluatedQuantities

theorem evaluate_counts {q : ℕ} {value : Evaluation} (h : search.evaluate q = .ok (value, other)) :
    other.evaluatedQuantities = search.evaluatedQuantities + 1 ∧
      other.intervalsPruned = search.intervalsPruned ∧ (search.Within → other.Within) := by
  have hlogged := search.evaluate_logged q
  rw [h] at hlogged
  refine ⟨hlogged.2.1, ?_, hlogged.2.2⟩
  unfold evaluate at h
  split at h
  · simp at h
  · dsimp only at h
    split at h
    · simp only [Except.ok.injEq, Prod.mk.injEq] at h
      exact h.2 ▸ rfl
    · simp at h

theorem Counted.evaluate {q slack : ℕ} {value : Evaluation} (hc : search.Counted slack)
    (h : search.evaluate q = .ok (value, other)) : other.Counted (slack + 1) := by
  obtain ⟨hcount, hpruned, hwithin⟩ := evaluate_counts h
  have := hc.pruned
  exact ⟨hwithin hc.within, by omega⟩

/-- An interval is halved by an evaluation, so that it prunes at most one part more than it
evaluates quantities. -/
theorem interval_pruned (fuel : ℕ) : ∀ {search other : Search} {low high : Evaluation},
    search.interval fuel low high = .ok other →
      other.intervalsPruned + search.evaluatedQuantities ≤
        search.intervalsPruned + other.evaluatedQuantities + 1 := by
  induction fuel with
  | zero =>
    intro search other low high h
    obtain rfl := Except.ok.inj h
    omega
  | succ fuel ih =>
    intro search other low high h
    simp only [interval] at h
    split at h
    · obtain rfl := Except.ok.inj h
      omega
    generalize (if search.slope ≥ 0 then high.upper else low.upper) = upper at h
    split at h
    · obtain rfl := Except.ok.inj h
      dsimp only
      omega
    obtain ⟨⟨value, next⟩, hmid, h⟩ := bind_eq_ok h
    obtain ⟨left, hleft, h⟩ := bind_eq_ok h
    dsimp only at hleft h
    obtain ⟨hcount, hpruned, -⟩ := evaluate_counts hmid
    have hbelow := ih hleft
    have habove := ih h
    omega

theorem Counted.interval {fuel slack : ℕ} {low high : Evaluation} (hc : search.Counted (slack + 1))
    (h : search.interval fuel low high = .ok other) : other.Counted slack := by
  have hlogged := interval_logged fuel search low high
  rw [h] at hlogged
  have hpruned := interval_pruned fuel h
  have := hc.pruned
  exact ⟨hlogged.2.2 hc.within, by omega⟩

/-- **Intervals stay in range.** -/
theorem interval64_computes (hl : limits.Valid) (hd : ∀ leg, (depth leg).Valid)
    (hmax : limits.maxEvaluations ≤ uint64Max) (fuel : ℕ) :
    ∀ {search : Search} {low high : Evaluation}, search.Tracks depth limits →
      search.Reaches limits low.q → search.Reaches limits high.q → low.q ≤ high.q →
      search.Counted 1 →
      Computes (search.interval64 fuel low high) (search.interval fuel low high) := by
  have hstep : 0 < limits.step.raw := by have := hl.2.1; omega
  induction fuel with
  | zero => exact fun _ _ _ _ _ => .pure _
  | succ fuel ih =>
    intro search low high ht hlow hhigh hle hc
    simp only [interval64, interval, ht.limits_eq]
    refine .lift (subIn_eq hle) (.ite (fun _ => .pure _) fun hnarrow => ?_)
    generalize (if search.slope ≥ 0 then high.upper else low.upper) = upper
    have hwithin := hc.within
    unfold Within at hwithin
    rw [ht.limits_eq] at hwithin
    have hpruned := hc.pruned
    refine .ite (fun _ => .lift (addIn_eq (by omega)) (.pure _)) fun _ => ?_
    obtain ⟨-, hmidlow, hmidhigh, hmiddvd, -, -⟩ := halve_spec hstep hlow.dvd hhigh.dvd hnarrow
    have hcap := (hhigh.le_cap.trans limits.gridCap_le).trans hl.1
    simp only [quantityBound] at hcap
    refine .lift (divIn_eq hstep) (.lift (divIn_eq Nat.two_pos) (.lift (mulIn_int64 (by omega))
      (.lift (addIn_int64 (by omega)) ?_)))
    set mid := low.q + (high.q - low.q) / limits.step.raw / 2 * limits.step.raw
    have hrmid := hlow.between hhigh hmiddvd hmidlow.le hmidhigh.le
    refine (evaluate64_computes hl hd hmax ht hrmid hc.within).bind fun result hmid => ?_
    obtain ⟨value, next⟩ := result
    obtain ⟨hq, hsame⟩ := evaluate_ok hmid
    have hcnext := hc.evaluate hmid
    have hrvalue : next.Reaches limits value.q := hq.symm ▸ hsame.reaches hrmid
    have hbelow : low.q ≤ value.q := by omega
    have habove : value.q ≤ high.q := by omega
    refine (ih (hsame.tracks ht) (hsame.reaches hlow) hrvalue hbelow
      ⟨hcnext.within, (Nat.le_succ _).trans hcnext.pruned⟩).bind fun left hleft => ?_
    have hsame' := hsame.trans (interval_ok fuel hleft)
    exact ih (hsame'.tracks ht) ((interval_ok fuel hleft).reaches hrvalue) (hsame'.reaches hhigh)
      habove (hcnext.interval hleft)

end Interval

/-! ### Funding -/

section Funding

variable {depth : Fin 2 → BuyDepth} {limits : SizingLimits} {search : Search}

/-- **The binary search stays in range.** -/
theorem fundedSteps64_eq (hlevels : ∀ leg, (search.cursors leg).levels ≠ [])
    (hstep : search.limits.step.raw ≤ 100) (fuel : ℕ) :
    ∀ low high : ℕ, high ≤ quantityBound →
      search.fundedSteps64 fuel low high = some (search.fundedSteps fuel low high) := by
  induction fuel with
  | zero => exact fun _ _ _ => rfl
  | succ fuel ih =>
    intro low high hhigh
    have hbound := hhigh
    simp only [quantityBound] at hbound
    unfold fundedSteps64 fundedSteps
    by_cases hlt : low < high
    swap
    · rw [if_neg hlt, if_neg hlt]
    rw [if_pos hlt, if_pos hlt]
    have hmid : low + (high - low + 1) / 2 ≤ 100000000 := by omega
    have hquantity := Nat.mul_le_mul hmid hstep
    simp (disch := omega) only [subIn_eq, addIn_int64, divIn_eq, mulIn_int64,
      reservation64_eq hlevels, Option.bind_eq_bind, Option.bind_some]
    split_ifs
    · exact ih _ _ hhigh
    · exact ih _ _ (by omega)

/-- **The last funded quantity stays in range.** -/
theorem lastFunded64_eq (hl : limits.Valid) (hlimits : search.limits = limits)
    (hlevels : ∀ leg, (search.cursors leg).levels ≠ []) {first stop : ℕ}
    (hfirst : limits.step.raw ≤ first) (hle : first ≤ stop) (hstop : stop ≤ quantityBound) :
    search.lastFunded64 first stop = some (search.lastFunded first stop) := by
  subst hlimits
  have hsteps := hl.2.1
  have hpos : 0 < search.limits.step.raw := by omega
  have hone : 1 ≤ first / search.limits.step.raw := (Nat.one_le_div_iff hpos).mpr hfirst
  have hhigh := (Nat.div_le_self stop search.limits.step.raw).trans hstop
  have hlow : first / search.limits.step.raw - 1 ≤ stop / search.limits.step.raw :=
    (Nat.sub_le _ _).trans (Nat.div_le_div_right hle)
  obtain ⟨-, hfunded, -, -⟩ := search.fundedSteps_spec (stop / search.limits.step.raw)
    (first / search.limits.step.raw - 1) (stop / search.limits.step.raw) hlow (Nat.sub_le _ _)
  have hproduct := Nat.mul_le_mul_right search.limits.step.raw hfunded
  have hcancel := Nat.div_mul_le_self stop search.limits.step.raw
  have hbound : stop ≤ 100000000 := hstop
  simp (disch := omega) only [lastFunded64, lastFunded, reservation64_eq hlevels, divIn_eq,
    subIn_eq, search.fundedSteps64_eq hlevels (by omega) _ _ _ hhigh, mulIn_int64,
    Option.bind_eq_bind, Option.bind_some]
  split_ifs <;> rfl

/-- **The slope stays in range.** -/
theorem marginSlope64_eq (hfees : ∀ leg, (search.cursors leg).fees.Valid)
    (hlevels : ∀ leg, (search.cursors leg).levels ≠ []) :
    search.marginSlope64 = some search.marginSlope := by
  obtain ⟨level0, levels0, hlevels0⟩ := List.exists_cons_of_ne_nil (hlevels 0)
  obtain ⟨level1, levels1, hlevels1⟩ := List.exists_cons_of_ne_nil (hlevels 1)
  have hprice0 := (search.cursors 0).price.le_scale
  have hprice1 := (search.cursors 1).price.le_scale
  have hfactor0 := feeFactor_lt (hfees 0)
  have hfactor1 := feeFactor_lt (hfees 1)
  unfold feeFactor at hfactor0 hfactor1
  have hword : 1000000000000000000 ≤ int64Max := by decide
  simp (disch := first | assumption | omega | (simp only [feeDenominator]; omega)) only
    [marginSlope64, marginSlope, Cursor.price64_eq hlevels0, Cursor.price64_eq hlevels1,
      feeFactor64_eq hword (hfees 0), feeFactor64_eq hword (hfees 1), inRange_int64, feeFactor,
      Option.bind_eq_bind, Option.bind_some]

end Funding

/-! ### The main loop -/

section Loop

variable {depth : Fin 2 → BuyDepth} {limits : SizingLimits} {search : Search} {first stop : ℕ}

/-- On a stretch both cursors are in range and on a level. -/
theorem OnStretch.bounded (h : search.OnStretch limits first stop)
    (ht : search.Tracks depth limits) (hl : limits.Valid) (hd : ∀ leg, (depth leg).Valid)
    (leg : Fin 2) : (search.cursors leg).Bounded ∧ (search.cursors leg).levels ≠ [] := by
  have hpassed : (search.cursors leg).passed.quantity ≤ quantityBound :=
    ((h.passed_lt leg).le.trans (h.first_le.trans h.le_cap)).trans (limits.gridCap_le.trans hl.1)
  exact ⟨ht.bounded hl hd leg hpassed, levels_ne_nil_of_size_pos (h.size_pos leg)⟩

/-- The grid of both cursors. -/
def Gridded (search : Search) : Prop := ∀ leg, (search.cursors leg).Gridded

theorem Tracks.gridded (ht : search.Tracks depth limits) (hl : limits.Valid) :
    search.Gridded := by
  intro leg
  obtain ⟨fills, charges, hf⟩ := ht.follows leg
  exact hf.gridded hl

theorem seek64_eq (hgridded : search.Gridded) : search.seek64 = some search.seek := by
  simp only [seek64, seek, (hgridded 0).seek64_eq, (hgridded 1).seek64_eq, Option.bind_eq_bind,
    Option.bind_some]
  split_ifs <;> rfl

theorem passLevel64_computes {cursor : Cursor} (hb : cursor.Bounded)
    (hlevels : cursor.levels ≠ []) :
    Computes (search.passLevel64 stop cursor) (search.passLevel stop cursor) := by
  obtain ⟨level, levels, hcons⟩ := List.exists_cons_of_ne_nil hlevels
  refine .lift (hb.stop64_eq hcons) (.ite (fun _ => .lift (hb.advance64_eq hcons) ?_)
    fun _ => .pure _)
  cases cursor.advance with
  | none => exact .throw _
  | some next => exact .pure _

/-- **Passing the levels that end stays in range.** -/
theorem advance64_computes
    (hb : ∀ leg, (search.cursors leg).Bounded ∧ (search.cursors leg).levels ≠ []) :
    Computes (search.advance64 stop) (search.advance stop) :=
  (passLevel64_computes (hb 0).1 (hb 0).2).bind fun _ _ =>
    (passLevel64_computes (hb 1).1 (hb 1).2).bind fun _ _ => .pure _

theorem evaluateHigh64_computes (hl : limits.Valid) (hd : ∀ leg, (depth leg).Valid)
    (hmax : limits.maxEvaluations ≤ uint64Max) (ht : search.Tracks depth limits)
    {last : ℕ} (hr : search.Reaches limits last) (hw : search.Within) (low : Evaluation) :
    Computes (search.evaluateHigh64 low first last) (search.evaluateHigh low first last) :=
  .ite (fun _ => .pure _) fun _ => evaluate64_computes hl hd hmax ht hr hw

theorem Counted.evaluateHigh {other : Search} {low value : Evaluation} {last slack : ℕ}
    (hc : search.Counted slack) (h : search.evaluateHigh low first last = .ok (value, other)) :
    other.Counted slack := by
  unfold Search.evaluateHigh at h
  split at h
  · simp only [Except.ok.injEq, Prod.mk.injEq] at h
    exact h.2 ▸ hc
  · have hnext := hc.evaluate h
    exact ⟨hnext.within, (Nat.le_succ _).trans hnext.pruned⟩

/-- **Stretches stay in range.** -/
theorem stretch64_computes (hl : limits.Valid) (hd : ∀ leg, (depth leg).Valid)
    (hmax : limits.maxEvaluations ≤ uint64Max) (ht : search.Tracks depth limits)
    (hon : search.OnStretch limits first stop) {last : ℕ} (hfirst : limits.step.raw ∣ first)
    (hlast : limits.step.raw ∣ last) (hle : first ≤ last) (hstop : last ≤ stop)
    (hc : search.Counted 0) :
    Computes (search.stretch64 first last) (search.stretch first last) := by
  have hb := hon.bounded ht hl hd
  refine .lift (marginSlope64_eq (fun leg => (hb leg).1.fees) fun leg => (hb leg).2) ?_
  set start : Search := { search with slope := search.marginSlope }
  have htstart : start.Tracks depth limits := ⟨ht.limits_eq, ht.follows⟩
  have honstart : start.OnStretch limits first stop := hon.congr rfl
  have hcstart : start.Counted 0 := ⟨hc.within, hc.pruned⟩
  have hrfirst := honstart.reaches hfirst le_rfl hon.first_le
  have hrlast := honstart.reaches hlast hle hstop
  refine (evaluate64_computes hl hd hmax htstart hrfirst hcstart.within).bind
    fun ⟨low, s1⟩ hlow => ?_
  obtain ⟨hlowq, hsame1⟩ := evaluate_ok hlow
  have hc1 := hcstart.evaluate hlow
  refine (evaluateHigh64_computes hl hd hmax (hsame1.tracks htstart) (hsame1.reaches hrlast)
    hc1.within low).bind fun ⟨high, s2⟩ hhigh => ?_
  obtain ⟨hhighq, hsame2⟩ := evaluateHigh_ok hlowq hhigh
  have hsame := hsame1.trans hsame2
  exact interval64_computes hl hd hmax _ (hsame.tracks htstart)
    (hlowq.symm ▸ hsame.reaches hrfirst) (hhighq.symm ▸ hsame.reaches hrlast)
    (by omega) (hc1.evaluateHigh hhigh)

theorem Counted.stretch {other : Search} {last : ℕ} (hc : search.Counted 0)
    (h : search.stretch first last = .ok other) : other.Counted 0 := by
  obtain ⟨⟨low, s1⟩, hlow, h⟩ := bind_eq_ok h
  obtain ⟨⟨high, s2⟩, hhigh, h⟩ := bind_eq_ok h
  have hcstart : Counted { search with slope := search.marginSlope } 0 := ⟨hc.within, hc.pruned⟩
  exact ((hcstart.evaluate hlow).evaluateHigh hhigh).interval h

theorem Counted.seek (hc : search.Counted 0) : search.seek.1.Counted 0 := by
  have hpruned : search.seek.1.intervalsPruned = search.intervalsPruned := by
    unfold Search.seek
    dsimp only
    split <;> rfl
  constructor
  · rw [Within, search.seek_limits, search.seek_evaluatedQuantities]
    exact hc.within
  · rw [hpruned, search.seek_evaluatedQuantities]
    exact hc.pruned

theorem Counted.advance {other : Search} (hc : search.Counted 0)
    (h : search.advance stop = .ok other) : other.Counted 0 := by
  obtain ⟨cursor0, -, h⟩ := bind_eq_ok h
  obtain ⟨cursor1, -, h⟩ := bind_eq_ok h
  obtain rfl := Except.ok.inj h
  exact ⟨hc.within, hc.pruned⟩

/-- **The loop stays in range.** -/
theorem loop64_computes (hl : limits.Valid) (hd : ∀ leg, (depth leg).Valid)
    (hmax : limits.maxEvaluations ≤ uint64Max) (fuel : ℕ) :
    ∀ {search : Search} {first : ℕ} (funded : Bool), search.Tracks depth limits →
      search.AtFirst limits first → search.Counted 0 →
      Computes (search.loop64 fuel first funded) (search.loop fuel first funded) := by
  have hstep : 0 < limits.step.raw := by have := hl.2.1; omega
  have hgrid : limits.gridCap ≤ 100000000 := limits.gridCap_le.trans hl.1
  have hmul : mulIn int64Max (limits.cap.raw / limits.step.raw) limits.step.raw =
      some limits.gridCap := mulIn_int64 (hgrid.trans (by decide))
  induction fuel with
  | zero => exact fun _ _ _ _ => .pure _
  | succ fuel ih =>
    intro search first funded ht hfirst hc
    simp only [loop64, loop, ht.limits_eq, ← SizingLimits.gridCap.eq_def limits]
    refine .lift (divIn_eq hstep) (.lift hmul (.ite (fun _ => .pure _) fun hcap => ?_))
    have htracks := (search.seek_spec hl ht).1
    refine .lift (seek64_eq (ht.gridded hl)) ?_
    have hcsought := hc.seek
    have hon := search.seek_onStretch hl ht hfirst (not_lt.mp hcap)
    generalize search.seek = result at htracks hcsought hon ⊢
    obtain ⟨sought, found⟩ := result
    dsimp only at htracks hcsought hon ⊢
    cases found with
    | false => exact .pure _
    | true =>
      simp only [Bool.not_true, Bool.false_eq_true, if_false]
      replace hon := hon rfl
      have hb := hon.bounded htracks hl hd
      obtain ⟨level0, levels0, hlevels0⟩ := List.exists_cons_of_ne_nil (hb 0).2
      obtain ⟨level1, levels1, hlevels1⟩ := List.exists_cons_of_ne_nil (hb 1).2
      refine .lift ((hb 0).1.stop64_eq hlevels0) (.lift ((hb 1).1.stop64_eq hlevels1) ?_)
      set stop := min limits.gridCap (min (sought.cursors 0).stop (sought.cursors 1).stop)
      have hstop := hon.le_cap
      refine .lift (lastFunded64_eq hl htracks.limits_eq (fun leg => (hb leg).2)
        (Nat.le_of_dvd hfirst.pos hfirst.dvd) hon.first_le (hstop.trans hgrid)) ?_
      obtain ⟨hlastdvd, hlastle, -, -, -⟩ :=
        sought.lastFunded_spec hl htracks.limits_eq hfirst.dvd hfirst.pos hon.dvd hon.first_le
      set last := sought.lastFunded first stop
      refine .ite (fun _ => .pure _) fun hfunded => ?_
      refine (stretch64_computes hl hd hmax htracks hon hfirst.dvd hlastdvd (not_lt.mp hfunded)
        hlastle hcsought).bind fun next hnext => ?_
      refine .ite (fun _ => .pure _) fun hend => ?_
      obtain ⟨hlimits, hcursors⟩ := stretch_ok hnext
      have htnext : next.Tracks depth limits :=
        ⟨hlimits.trans htracks.limits_eq, hcursors ▸ htracks.follows⟩
      have hsteps : limits.step.raw ≤ 100 := by have := hl.2.1; omega
      rw [htnext.limits_eq]
      refine .lift (addIn_int64 (by omega)) ((advance64_computes (hcursors ▸ hb)).bind
        fun other hother => ?_)
      obtain ⟨other', hother', htother, -, hfirstother, -⟩ :=
        (hon.congr hcursors).advance hl hd htnext (by omega)
      obtain rfl := Except.ok.inj (hother'.symm.trans hother)
      exact ih true htother hfirstother ((hcsought.stretch hnext).advance hother)

/-- Passing levels keeps the grid. -/
theorem passLevel_gridded {cursor next : Cursor} (h : search.passLevel stop cursor = .ok next)
    (hg : cursor.Gridded) : next.Gridded := by
  unfold passLevel at h
  split at h
  · cases hadvance : cursor.advance with
    | none => simp [hadvance] at h
    | some advanced =>
      rw [hadvance] at h
      obtain rfl := Except.ok.inj h
      obtain ⟨_, -, hnext⟩ := Option.bind_eq_some_iff.mp hadvance
      obtain rfl := Option.some.inj hnext
      exact ⟨hg.step_pos, hg.cap_le⟩
  · obtain rfl := Except.ok.inj h
    exact hg

theorem seek_gridded (hg : search.Gridded) : search.seek.1.Gridded := by
  have hseek (leg : Fin 2) : (search.cursors leg).seek.1.Gridded :=
    ⟨(hg leg).step_pos, (hg leg).cap_le⟩
  unfold Search.seek
  dsimp only
  split
  · exact Fin.forall_fin_two.mpr ⟨hseek 0, hg 1⟩
  · exact Fin.forall_fin_two.mpr ⟨hseek 0, hseek 1⟩

/-- The loop keeps the grid. -/
theorem loop_gridded (fuel : ℕ) : ∀ {search other : Search} {first : ℕ} {funded funded' : Bool},
    search.loop fuel first funded = .ok (other, funded') → search.Gridded → other.Gridded := by
  induction fuel with
  | zero =>
    intro search other first funded funded' h hg
    simp only [loop, Except.ok.injEq, Prod.mk.injEq] at h
    exact h.1 ▸ hg
  | succ fuel ih =>
    intro search other first funded funded' h hg
    have hsought := seek_gridded hg
    simp only [loop] at h
    split at h
    · simp only [Except.ok.injEq, Prod.mk.injEq] at h
      exact h.1 ▸ hg
    split at h
    · simp only [Except.ok.injEq, Prod.mk.injEq] at h
      exact h.1 ▸ hsought
    split at h
    · simp only [Except.ok.injEq, Prod.mk.injEq] at h
      exact h.1 ▸ hsought
    obtain ⟨next, hnext, h⟩ := bind_eq_ok h
    have hgnext : next.Gridded := by
      unfold Search.Gridded
      rw [(stretch_ok hnext).2]
      exact hsought
    split at h
    · simp only [Except.ok.injEq, Prod.mk.injEq] at h
      exact h.1 ▸ hgnext
    obtain ⟨advanced, hadvanced, h⟩ := bind_eq_ok h
    obtain ⟨cursor0, hcursor0, hadvanced⟩ := bind_eq_ok hadvanced
    obtain ⟨cursor1, hcursor1, hadvanced⟩ := bind_eq_ok hadvanced
    obtain rfl := Except.ok.inj hadvanced
    exact ih h (Fin.forall_fin_two.mpr
      ⟨passLevel_gridded hcursor0 (hgnext 0), passLevel_gridded hcursor1 (hgnext 1)⟩)

/-! ### The whole search -/

/-- **The result stays in range.** The best margin is more than the minimum, hence an amount of
cash. -/
theorem finish64_eq (hl : limits.Valid) (hg : search.Gridded)
    (hcovers : search.Covers depth limits fun _ => True) (funded : Bool) :
    search.finish64 funded = some (search.finish funded) := by
  unfold finish64 finish
  cases hbest : search.best with
  | none =>
    have hstatus : search.emptyStatus64 funded = some (search.emptyStatus funded) := by
      unfold emptyStatus64 emptyStatus
      split_ifs with hfunded hstart hfound <;> simp_all [seek64_eq hg]
    simp only [hstatus, Option.bind_eq_bind, Option.bind_some]
  | some best =>
    have hcandidate : (pairTask depth limits).Candidate best.order :=
      (hcovers.bestOn.mem best.order (by simp [hbest])).1
    have hq : best.q ≤ 100000000 := hcandidate.le_cap.trans hl.1
    have hlow := hcandidate.margin_lt
    have hhigh : best.order.margin 10000 ≤ best.q * 10000 :=
      sub_le_self _ (Finset.sum_nonneg fun _ _ => Int.natCast_nonneg _)
    simp only [pairTask] at hlow
    rw [← (hcovers.consistent best hbest).1] at hlow hhigh
    have hword : best.margin ≤ (int64Max : ℤ) :=
      (show best.margin ≤ 1000000000000 by omega).trans (by decide)
    simp only [mulIn_int64 (show best.q * 10000 ≤ 1000000000000000000 by omega),
      inRange_eq (show 0 ≤ best.margin by omega) hword, Option.bind_eq_bind, Option.bind_some]

end Loop

end Search

/-- **The pair search stays in range.** -/
theorem sizeBuyPair64_eq (depth : Fin 2 → BuyDepth) (limits : SizingLimits)
    (hmax : limits.maxEvaluations ≤ uint64Max) :
    sizeBuyPair64 depth limits = some (sizeBuyPair depth limits) := by
  unfold sizeBuyPair64 sizeBuyPair
  by_cases hvalid : limits.Valid ∧ (depth 0).Valid ∧ (depth 1).Valid
  swap
  · rw [if_neg hvalid, if_neg hvalid]
  rw [if_pos hvalid, if_pos hvalid]
  obtain ⟨hl, hd0, hd1⟩ := hvalid
  have hd : ∀ leg, (depth leg).Valid := Fin.forall_fin_two.mpr ⟨hd0, hd1⟩
  set search : Search :=
    { limits, cursors := ![.start (depth 0) limits, .start (depth 1) limits] } with hsearch
  obtain ⟨ht, -, hfirst⟩ := start_spec hl hd hsearch
  obtain ⟨htracks, hbest, -, -, hlevel⟩ := search.seek_spec hl ht
  have hcounted : search.seek.1.Counted 0 :=
    Search.Counted.seek ⟨Nat.zero_le _, le_refl _⟩
  have hgridded := Search.seek_gridded (ht.gridded hl)
  unfold Search.run64 Search.run
  rw [Search.seek64_eq (ht.gridded hl), Option.bind_eq_bind, Option.bind_some]
  generalize search.seek = result at hfirst htracks hbest hlevel hcounted hgridded ⊢
  obtain ⟨sought, found⟩ := result
  dsimp only at hfirst htracks hbest hlevel hcounted hgridded ⊢
  cases found with
  | false => rfl
  | true =>
    simp only [Bool.not_true, Bool.false_eq_true, if_false]
    have hlevels (leg : Fin 2) := Search.levels_ne_nil_of_size_pos (hlevel rfl leg).2
    obtain ⟨level0, levels0, hlevels0⟩ := List.exists_cons_of_ne_nil (hlevels 0)
    obtain ⟨level1, levels1, hlevels1⟩ := List.exists_cons_of_ne_nil (hlevels 1)
    have hprice0 := (sought.cursors 0).price.le_scale
    have hprice1 := (sought.cursors 1).price.le_scale
    simp (disch := omega) only [Cursor.price64_eq hlevels0, Cursor.price64_eq hlevels1,
      addIn_int64, Option.bind_eq_bind, Option.bind_some]
    by_cases hprice : (sought.cursors 0).price.raw + (sought.cursors 1).price.raw ≥ 10000
    · rw [if_pos hprice, if_pos hprice]
    rw [if_neg hprice, if_neg hprice, htracks.limits_eq]
    have hloop := Search.loop64_computes hl hd hmax
      ((sought.cursors 0).levels.length + (sought.cursors 1).levels.length + 1) false htracks
      hfirst hcounted
    unfold Computes at hloop
    rw [hloop, Option.bind_some]
    rcases Search.loop_covers hl hd _ false htracks hfirst (Nat.lt_succ_self _)
        (Search.covers_of_best_none hbest) with ⟨out, hfail⟩ | ⟨other, funded, hother, hall⟩
    · rw [hfail]
    · rw [hother]
      exact Search.finish64_eq hl (Search.loop_gridded _ hother hgridded) hall funded

/-! ### The basket enumeration -/

/-- **Completing levels stays in range.** -/
theorem CostCursor.complete64_eq {depth : BuyDepth} {bound q : ℕ} (hfee : depth.fees.Valid)
    (hbound : bound ≤ quantityBound) (hq : q ≤ bound) {levels : List BuyLevel} :
    ∀ {passed : CostPrefix} {fills : List BuyFill} {charges : List FillCharge},
      passed.Follows depth 1 bound levels fills charges → passed.quantity < q →
      (∀ level ∈ levels, level.quantity.raw ≠ 0) →
      complete64 depth.fees q levels passed = some (complete depth.fees q levels passed) := by
  induction levels with
  | nil => exact fun _ _ _ => rfl
  | cons level levels ih =>
    intro passed fills charges hf hlt hnonzero
    unfold complete64 complete
    rw [subIn_eq hlt.le, Option.bind_eq_bind, Option.bind_some]
    by_cases hless : level.quantity.raw < q - passed.quantity
    swap
    · rw [if_neg hless, if_neg hless]
    rw [if_pos hless, if_pos hless]
    have hpassed : passed.Bounded := hf.bounded (Or.inl rfl) hfee (by omega)
    cases hcharge : chargeBuyFill level.quantity.raw level.price depth.fees
      passed.accumulator with
    | none => rfl
    | some charge =>
      have hpos : 0 < level.quantity.raw := Nat.pos_of_ne_zero (hnonzero level List.mem_cons_self)
      have hwhole : level.quantity.raw / 1 * 1 = level.quantity.raw := by rw [Nat.div_one, mul_one]
      have hnext := hf.pass (hwhole.symm ▸ hpos) (hwhole.symm ▸ hcharge)
      rw [hwhole] at hnext
      simp only [hpassed.pass64_eq hcharge (by omega), Option.bind_eq_bind, Option.bind_some]
      exact ih hnext (by simp only [CostPrefix.pass]; omega)
        fun other hmem => hnonzero other (List.mem_cons_of_mem _ hmem)

/-- **One leg of a basket stays in range.** -/
theorem CostCursor.at64_eq {depth : BuyDepth} {bound q : ℕ} {cursor : CostCursor}
    (hfee : depth.fees.Valid) (hbound : bound ≤ quantityBound) (hq : q ≤ bound)
    (h : cursor.Before depth bound q) (hsome : (orderFills 1 depth.levels q).isSome) :
    cursor.at64 q = some (cursor.at q) := by
  obtain ⟨fills, charges, hf⟩ := h.follows
  obtain ⟨level, rest, passed, fills', charges', hcomplete, hf', hlt, -, -⟩ :=
    CostCursor.complete_spec hfee hbound hq hf h.lt h.nonzero
      (hf.orderFills_isSome h.lt.le hq hsome)
  have hcomplete64 := CostCursor.complete64_eq hfee hbound hq hf h.lt h.nonzero
  have hpassed : passed.Bounded := hf'.bounded (Or.inl rfl) hfee (by omega)
  simp only [CostCursor.at64, CostCursor.at, CostCursor.last64, h.fees, hcomplete64, hcomplete,
    subIn_eq hlt.le, buyReservation64_eq, Option.bind_eq_bind, Option.bind_some]
  cases hcharge : chargeBuyFill (q - passed.quantity) level.price depth.fees
    passed.accumulator with
  | none => rfl
  | some charge =>
    cases hreserve : buyReservation q 1 level.price depth.fees with
    | none => rfl
    | some reserve =>
      obtain ⟨hnotional, -, hdebit, -⟩ := chargeBuyFill_le hcharge (by omega) hpassed.rounding_le
      have hnotionals := hpassed.notional_le
      have hdebits := hpassed.debit_le
      simp (disch := omega) only [addIn_int64, Option.bind_some]

namespace BasketSearch

variable {depth : Fin 3 → BuyDepth} {limits : SizingLimits} {search : BasketSearch} {q : ℕ}

/-- **The legs of a basket stay in range.** -/
theorem evaluate64_eq (hl : limits.ValidBasket) (hd : ∀ leg, (depth leg).ValidBasket)
    (ht : search.Tracks depth limits q) (hdvd : basketQuantityStep ∣ q) (hpos : 0 < q)
    (hq : q ≤ basketAvailable depth limits.cap.raw) {legs : Fin 3 → SizedLeg}
    {cursors : Fin 3 → CostCursor} (heval : search.evaluate q = some (legs, cursors)) :
    search.evaluate64 q = some (some (legs, cursors,
      (legs 0).debit + (legs 1).debit + (legs 2).debit,
      (legs 0).reservation + (legs 1).reservation + (legs 2).reservation)) ∧
      ∀ leg, (legs leg).debit ≤ 3000000000000 ∧ (legs leg).reservation ≤ 3000000000000 := by
  have hcap : q ≤ limits.cap.raw :=
    hq.trans (((min_le_left _ _).trans (min_le_left _ _)).trans (min_le_left _ _))
  have hat (leg : Fin 3) : (search.cursors leg).at64 q = some ((search.cursors leg).at q) :=
    CostCursor.at64_eq (hd leg).2.1 hl.cap_le hcap (ht.before leg)
      ((le_basketAvailable_iff hcap).mp hq leg)
  obtain ⟨legs', cursors', heval', hbuilt, -⟩ := search.evaluate_spec hl hd ht hdvd hpos hq
  obtain ⟨rfl, rfl⟩ := Prod.mk.inj (Option.some.inj (heval.symm.trans heval'))
  have hle (leg : Fin 3) :
      (legs leg).debit ≤ 3000000000000 ∧ (legs leg).reservation ≤ 3000000000000 := by
    have hv := basketTask_valid hl hd
    have hr := hv.reservable leg hdvd hcap
    have hdebit := debit_le_reservation (hv.ascending leg) hr (hbuilt.built leg)
    have hreserve := buildOrder_reservation_le hr (hbuilt.built leg)
    exact ⟨hdebit.trans hreserve, hreserve⟩
  refine ⟨?_, hle⟩
  simp only [evaluate, Option.bind_eq_bind] at heval
  obtain ⟨⟨leg0, cursor0⟩, h0, heval⟩ := Option.bind_eq_some_iff.mp heval
  obtain ⟨⟨leg1, cursor1⟩, h1, heval⟩ := Option.bind_eq_some_iff.mp heval
  obtain ⟨⟨leg2, cursor2⟩, h2, heval⟩ := Option.bind_eq_some_iff.mp heval
  obtain ⟨rfl, rfl⟩ := Prod.mk.inj (Option.some.inj heval)
  have hle0 : leg0.debit ≤ 3000000000000 ∧ leg0.reservation ≤ 3000000000000 := hle 0
  have hle1 : leg1.debit ≤ 3000000000000 ∧ leg1.reservation ≤ 3000000000000 := hle 1
  have hle2 : leg2.debit ≤ 3000000000000 ∧ leg2.reservation ≤ 3000000000000 := hle 2
  simp (disch := omega) only [evaluate64, hat, h0, h1, h2, addIn_int64, Option.bind_eq_bind,
    Option.bind_some]
  rfl

/-- **The enumeration stays in range.** -/
theorem loop64_computes (hl : limits.ValidBasket) (hd : ∀ leg, (depth leg).ValidBasket)
    (hmax : limits.maxEvaluations ≤ uint64Max) (fuel : ℕ) :
    ∀ {search : BasketSearch} {q : ℕ}, search.Tracks depth limits q → basketQuantityStep ∣ q →
      0 < q → search.evaluatedQuantities ≤ limits.maxEvaluations →
      Computes (search.loop64 fuel (basketAvailable depth limits.cap.raw) q)
        (search.loop fuel (basketAvailable depth limits.cap.raw) q) := by
  induction fuel with
  | zero => exact fun _ _ _ _ => .pure _
  | succ fuel ih =>
    intro search q ht hdvd hpos hcount
    obtain rfl := ht.limits_eq
    unfold loop64 loop
    refine .ite (fun _ => .pure _) fun hend => .ite (fun _ => .throw _) fun hbudget => ?_
    have hq : q ≤ 10000 := by
      have havailable : basketAvailable depth search.limits.cap.raw ≤ search.limits.cap.raw :=
        ((min_le_left _ _).trans (min_le_left _ _)).trans (min_le_left _ _)
      exact (not_lt.mp hend).trans (havailable.trans hl.2.1)
    obtain ⟨legs, cursors, heval, hbuilt, hbefore⟩ :=
      search.evaluate_spec hl hd ht hdvd hpos (not_lt.mp hend)
    set counted : BasketSearch :=
      { search with evaluatedQuantities := search.evaluatedQuantities + 1 } with hcounted
    have htcounted : counted.Tracks depth search.limits q := ⟨rfl, ht.before⟩
    obtain ⟨heval64, hle⟩ := counted.evaluate64_eq hl hd htcounted hdvd hpos (not_lt.mp hend) heval
    have hle0 := hle 0
    have hle1 := hle 1
    have hle2 := hle 2
    have heval' : counted.evaluate q = some (legs, cursors) := heval
    refine .lift (addIn_eq (by omega)) (.lift (mulIn_int64 (by omega)) (.lift heval64 ?_))
    dsimp only
    rw [heval']
    refine .lift (inRange_int64 (by omega) (by omega)) (.ite (fun _ => .pure _) fun hfunded =>
      .lift (addIn_int64 (by simp only [basketQuantityStep]; omega)) ?_)
    set next : BasketSearch := { search with
      cursors
      evaluatedQuantities := search.evaluatedQuantities + 1
      oneContractDiagnostic := if q = basketQuantityStep then some (basket q legs)
        else search.oneContractDiagnostic }
    have hnext : next.evaluatedQuantities ≤ search.limits.maxEvaluations := by
      change search.evaluatedQuantities + 1 ≤ _
      omega
    set reserve := (legs 0).reservation + (legs 1).reservation + (legs 2).reservation
    obtain ⟨hlimits, hcursors, -, hevaluated⟩ := next.consider_frame (basket q legs) reserve
    have htnext : (next.consider (basket q legs) reserve).Tracks depth search.limits
        (q + basketQuantityStep) :=
      ⟨hlimits, fun leg => hcursors ▸ (hbefore leg).mono (Nat.le_add_right _ _)⟩
    exact ih htnext (dvd_add hdvd dvd_rfl) (by omega) (hevaluated.le.trans hnext)

end BasketSearch

/-- **Saturated depth stays in range**, however large the quantities of the levels are. -/
theorem saturatedDepth64_eq {cap : ℕ} (hcap : cap ≤ quantityBound) (levels : List BuyLevel) :
    ∀ total ≤ cap, saturatedDepth64 cap levels total = some (levels.foldl
      (fun total level => min cap (total + min level.quantity.raw cap)) total) := by
  simp only [quantityBound] at hcap
  induction levels with
  | nil => exact fun _ _ => rfl
  | cons level levels ih =>
    intro total htotal
    rw [saturatedDepth64, addIn_int64 (by omega), Option.bind_eq_bind, Option.bind_some,
      List.foldl_cons, ih _ (min_le_left _ _)]

/-- **The basket enumeration stays in range.** -/
theorem sizeBuyBasket64_eq (depth : Fin 3 → BuyDepth) (limits : SizingLimits)
    (hmax : limits.maxEvaluations ≤ uint64Max) :
    sizeBuyBasket64 depth limits = some (sizeBuyBasket depth limits) := by
  unfold sizeBuyBasket64 sizeBuyBasket
  by_cases hvalid : limits.ValidBasket ∧ (depth 0).ValidBasket ∧ (depth 1).ValidBasket ∧
      (depth 2).ValidBasket
  swap
  · rw [if_neg hvalid, if_neg hvalid]
  rw [if_pos hvalid, if_pos hvalid]
  obtain ⟨hl, hd0, hd1, hd2⟩ := hvalid
  have hd : ∀ leg, (depth leg).ValidBasket := by
    simp only [Fin.forall_fin_succ, Fin.isEmpty.forall_iff, and_true]
    exact ⟨hd0, hd1, hd2⟩
  have havailable : basketAvailable64 depth limits.cap.raw =
      some (basketAvailable depth limits.cap.raw) := by
    simp only [basketAvailable64, basketAvailable, saturatedDepth,
      saturatedDepth64_eq hl.cap_le _ 0 (Nat.zero_le _), Option.bind_eq_bind, Option.bind_some]
  simp only [havailable, Option.bind_eq_bind, Option.bind_some]
  by_cases hnone : basketAvailable depth limits.cap.raw < basketQuantityStep
  · rw [if_pos hnone, if_pos hnone]
  rw [if_neg hnone, if_neg hnone]
  set search : BasketSearch := { limits, cursors := fun leg => .start (depth leg) } with hsearch
  have ht : search.Tracks depth limits basketQuantityStep := by
    refine ⟨rfl, fun leg => ⟨rfl, ⟨_, _, CostPrefix.start_follows (hd leg).2.2.1⟩,
      (hd leg).2.2.2, ?_⟩⟩
    exact (by decide : 0 < basketQuantityStep)
  have hloop := BasketSearch.loop64_computes hl hd hmax
    (basketAvailable depth limits.cap.raw / basketQuantityStep) ht dvd_rfl (by decide)
    (Nat.zero_le _)
  unfold Computes at hloop
  rw [hloop, Option.bind_some]
  cases search.loop (basketAvailable depth limits.cap.raw / basketQuantityStep)
      (basketAvailable depth limits.cap.raw) basketQuantityStep <;> rfl

/-! ### All entry points -/

/-- **Sizing arithmetic never wraps.** On every input, with every sum, difference, product,
quotient and remainder checked, the reservation, the pair search and the basket enumeration have a
value, and it is the one computed on unbounded numbers. The evaluation budget is a 64-bit word. -/
theorem sizing_never_wraps :
    (∀ (quantity step : ℕ) (limit : Price) (fee : FeePolicy),
      buyReservation64 quantity step limit fee = some (buyReservation quantity step limit fee)) ∧
    (∀ (depth : Fin 2 → BuyDepth) (limits : SizingLimits), limits.maxEvaluations ≤ uint64Max →
      sizeBuyPair64 depth limits = some (sizeBuyPair depth limits)) ∧
    ∀ (depth : Fin 3 → BuyDepth) (limits : SizingLimits), limits.maxEvaluations ≤ uint64Max →
      sizeBuyBasket64 depth limits = some (sizeBuyBasket depth limits) :=
  ⟨buyReservation64_eq, sizeBuyPair64_eq, sizeBuyBasket64_eq⟩

theorem sizing_never_wraps_sample :
    (buyReservation64 100 100 ⟨4000, by decide⟩ ⟨70000, 10000⟩).isSome = true ∧
      (sizeBuyPair64 sampleDepth sampleLimits).isSome = true ∧
      (sizeBuyBasket64 sampleBasketDepth sampleBasketLimits).isSome = true := by
  refine ⟨?_, ?_, ?_⟩
  · rw [sizing_never_wraps.1]
    rfl
  · rw [sizing_never_wraps.2.1 _ _ (by decide)]
    rfl
  · rw [sizing_never_wraps.2.2 _ _ (by decide)]
    rfl

end EventMarket.Core
