import EventMarket.Core.NetSizing
import EventMarket.Core.SizingTask
import Mathlib.Algebra.Order.Floor.Div
import Mathlib.Tactic.Linarith

/-!
# The pair search is exhaustive

The search of `EventMarket.Core.NetSizing` evaluates a few quantities and prunes the others. This
file proves that what it returns is what an exhaustive search over the grid would return.

A cursor follows its ladder: what an order costs from scratch is what the cursor has passed and
one more fill. On a stretch where both cursors stay on one level the exact margin is below a
linear function of the quantity, so the bound at one end covers an interval. Funding is monotone,
so the stretch ends where the cash does. The main loop carries these facts from stretch to
stretch.

## Main definitions

* `pairTask`: the sizing task of a pair of ladders.
* `Cursor.Follows`: the cost kept by a cursor is the cost of the levels it passed, as
  `CostPrefix.Follows` says.
* `Search.Covers`: the best value of a search is the best of the covered quantities.

## Main results

* `Search.evaluate_spec`: an evaluation is the order built from scratch.
* `Search.interval_covers`, `Search.loop_covers`: what the search has covered.
* `sizeBuyPair_exhaustive`: the search and the exhaustive search agree.
-/

namespace EventMarket.Core

open Foundations

/-- The sizing task of a pair: one dollar a pair, levels and quantities on one grid. -/
def pairTask (depth : Fin 2 → BuyDepth) (limits : SizingLimits) : SizingTask 2 where
  depth
  payout := 10000
  step := limits.step.raw
  fillStep := limits.step.raw
  cap := limits.cap.raw
  available := limits.available.raw
  minimumMargin := limits.minimumMargin.raw

/-- The pair that an evaluation or a quote describes. -/
def Evaluation.order (value : Evaluation) : LegOrder 2 := ⟨value.q, value.legs⟩

def SizedPair.order (pair : SizedPair) : LegOrder 2 := ⟨pair.quantity, pair.legs⟩

theorem pairTask_valid {depth : Fin 2 → BuyDepth} {limits : SizingLimits} (hl : limits.Valid)
    (hd : ∀ leg, (depth leg).Valid) : (pairTask depth limits).Valid where
  fillStep_eq := hl.2.1
  fillStep_dvd := dvd_rfl
  step_pos := by
    have := hl.2.1
    simp only [pairTask]
    omega
  cap_le := hl.1
  fees_valid := fun leg => (hd leg).1
  ascending := fun leg => (hd leg).2.2

/-! ### Cursors follow their ladders -/

section Cursor

variable {depth : BuyDepth} {limits : SizingLimits} {cursor : Cursor}
  {fills : List BuyFill} {charges : List FillCharge}

/-- The largest grid quantity within the cap. -/
def SizingLimits.gridCap (limits : SizingLimits) : ℕ :=
  limits.cap.raw / limits.step.raw * limits.step.raw

theorem SizingLimits.dvd_gridCap (limits : SizingLimits) : limits.step.raw ∣ limits.gridCap :=
  Dvd.intro_left _ rfl

theorem SizingLimits.le_gridCap {q : ℕ} (hdvd : limits.step.raw ∣ q) (hq : q ≤ limits.cap.raw) :
    q ≤ limits.gridCap := by
  obtain ⟨k, rfl⟩ := hdvd
  rcases Nat.eq_zero_or_pos limits.step.raw with h0 | hpos
  · simp [h0]
  · have hk : k ≤ limits.cap.raw / limits.step.raw :=
      (Nat.le_div_iff_mul_le hpos).mpr (by rwa [mul_comm])
    calc limits.step.raw * k = k * limits.step.raw := mul_comm _ _
      _ ≤ limits.gridCap := Nat.mul_le_mul_right _ hk

theorem SizingLimits.gridCap_le (limits : SizingLimits) : limits.gridCap ≤ limits.cap.raw :=
  Nat.div_mul_le_self _ _

/-- Two different multiples of the step are a step apart. -/
theorem add_step_le_of_lt {step a b : ℕ} (ha : step ∣ a) (hb : step ∣ b) (h : a < b) :
    a + step ≤ b := by
  have := Nat.le_of_dvd (Nat.sub_pos_of_lt h) (Nat.dvd_sub hb ha)
  omega

/-- The middle of a wide range of the grid is a grid quantity strictly inside. -/
theorem halve_spec {step low high : ℕ} (hstep : 0 < step) (hlow : step ∣ low) (hhigh : step ∣ high)
    (hwide : ¬high - low ≤ step) :
    2 ≤ (high - low) / step ∧ low < low + (high - low) / step / 2 * step ∧
      low + (high - low) / step / 2 * step < high ∧
      step ∣ low + (high - low) / step / 2 * step ∧
      low + (high - low) / step / 2 * step - low = (high - low) / step / 2 * step ∧
      high - (low + (high - low) / step / 2 * step) =
        ((high - low) / step - (high - low) / step / 2) * step := by
  have hspan : (high - low) / step * step = high - low :=
    Nat.div_mul_cancel (Nat.dvd_sub hhigh hlow)
  have hmiddvd : step ∣ low + (high - low) / step / 2 * step :=
    dvd_add hlow (Dvd.intro_left _ rfl)
  set steps := (high - low) / step
  have htwo : 2 ≤ steps := by
    by_contra hone
    have : steps * step ≤ 1 * step := Nat.mul_le_mul_right _ (by omega)
    omega
  have hhalf : steps / 2 * step + (steps - steps / 2) * step = high - low := by
    rw [← hspan, ← Nat.add_mul]
    congr 1
    omega
  have hleft : 0 < steps / 2 * step := Nat.mul_pos (by omega) hstep
  have hright : 0 < (steps - steps / 2) * step := Nat.mul_pos (by omega) hstep
  exact ⟨htwo, by omega, by omega, hmiddvd, by omega, by omega⟩

/-- The size of a level is its floored quantity, capped by the grid cap. -/
theorem levelSize_eq (level : BuyLevel) :
    Cursor.levelSize limits.step.raw limits.cap.raw level =
      min (level.quantity.raw / limits.step.raw * limits.step.raw) limits.gridCap := by
  have hmono : Monotone fun x : ℕ => x / limits.step.raw * limits.step.raw :=
    fun a b hab => Nat.mul_le_mul_right _ (Nat.div_le_div_right hab)
  exact hmono.map_min

/-- **The cursor follows its ladder.** -/
structure Cursor.Follows (depth : BuyDepth) (limits : SizingLimits) (cursor : Cursor)
    (fills : List BuyFill) (charges : List FillCharge) : Prop extends
    cursor.passed.Follows depth limits.step.raw limits.gridCap cursor.levels fills charges where
  fees : cursor.fees = depth.fees
  step : cursor.step = limits.step.raw
  cap : cursor.cap = limits.cap.raw

theorem Cursor.start_follows (hd : depth.Valid) :
    (Cursor.start depth limits).Follows depth limits [] [] :=
  { CostPrefix.start_follows hd.2.2 with
    fees := rfl
    step := rfl
    cap := rfl }

/-- The level a cursor is on. -/
theorem Cursor.exists_level_of_size_pos (h : 0 < cursor.size) :
    ∃ level levels, cursor.levels = level :: levels ∧ cursor.price = level.price ∧
      cursor.size = Cursor.levelSize cursor.step cursor.cap level := by
  unfold Cursor.size at h ⊢
  unfold Cursor.price
  cases hlevels : cursor.levels with
  | nil => simp [hlevels] at h
  | cons level levels => exact ⟨level, levels, rfl, rfl, rfl⟩

namespace Cursor.Follows

/-- Seeking passes levels that take nothing. -/
theorem seek (h : cursor.Follows depth limits fills charges) (hl : limits.Valid) :
    cursor.seek.1.Follows depth limits fills charges := by
  have hcap : 0 < limits.gridCap := by
    have hstep : 0 < limits.step.raw := by have := hl.2.1; omega
    exact Nat.mul_pos (Nat.div_pos hl.2.2.1 hstep) hstep
  have hskip : ∀ levels : List BuyLevel,
      cursor.passed.Follows depth limits.step.raw limits.gridCap levels fills charges →
      cursor.passed.Follows depth limits.step.raw limits.gridCap (levels.dropWhile fun level =>
        Cursor.levelSize cursor.step cursor.cap level = 0) fills charges := by
    intro levels
    induction levels with
    | nil => exact id
    | cons level levels ih =>
      intro hf
      rw [List.dropWhile_cons]
      split_ifs with hzero
      · rw [decide_eq_true_eq, h.step, h.cap, levelSize_eq] at hzero
        exact ih (hf.drop (by omega))
      · exact hf
  exact { hskip cursor.levels h.toFollows with
    fees := h.fees
    step := h.step
    cap := h.cap }

/-- A cursor with no level left has no order beyond its prefix. -/
theorem orderFills_eq_none (h : cursor.Follows depth limits fills charges)
    (hlevels : cursor.levels = []) {q : ℕ} (hlt : cursor.passed.quantity < q)
    (hcap : q ≤ limits.gridCap) : orderFills limits.step.raw depth.levels q = none :=
  CostPrefix.Follows.orderFills_eq_none (hlevels ▸ h.toFollows) hlt hcap

/-- **Passing a level.** A level that ends below the cap is charged whole, and the cursor follows
from its end. -/
theorem advance (h : cursor.Follows depth limits fills charges) (hl : limits.Valid)
    (hd : depth.Valid) (hsize : 0 < cursor.size) (hstop : cursor.stop < limits.gridCap) :
    ∃ next fills charges, cursor.advance = some next ∧ next.Follows depth limits fills charges ∧
      next.passed.quantity = cursor.stop ∧ next.levels = cursor.levels.tail := by
  have hgrid := limits.gridCap_le
  obtain ⟨level, levels, hlevels, hprice, heq⟩ := cursor.exists_level_of_size_pos hsize
  rw [h.step, h.cap, levelSize_eq] at heq
  unfold Cursor.stop at hstop
  have hwhole : cursor.size = level.quantity.raw / limits.step.raw * limits.step.raw := by omega
  obtain ⟨charge, left, hcharge⟩ := h.exists_charge (by have := hl.2.1; omega) hd.1
    level.price _ hsize (by have := hl.1; omega)
  have hf : cursor.passed.Follows depth limits.step.raw limits.gridCap (level :: levels) fills
      charges := hlevels ▸ h.toFollows
  refine ⟨{ cursor with
    levels := cursor.levels.tail
    passed := cursor.passed.pass cursor.size charge left },
    fills ++ [⟨cursor.size, level.price⟩], charges ++ [charge], ?_, ?_, rfl, rfl⟩
  · simp only [Cursor.advance, h.fees, hprice, hcharge, Option.bind_eq_bind, Option.bind_some]
  · rw [hwhole] at hcharge hsize
    simp only [hlevels, List.tail_cons, hwhole]
    exact { hf.pass hsize hcharge with
      fees := h.fees
      step := h.step
      cap := h.cap }

end Cursor.Follows

/-- A cursor that found a level has something to take there. -/
theorem Cursor.seek_size_pos (h : cursor.seek.2 = true) : 0 < cursor.seek.1.size := by
  simp only [Cursor.seek, Cursor.size] at h ⊢
  cases hlevels : cursor.levels.dropWhile fun level =>
      decide (Cursor.levelSize cursor.step cursor.cap level = 0) with
  | nil => simp [hlevels] at h
  | cons level levels =>
    have hhead := List.head_dropWhile_not (fun level =>
      decide (Cursor.levelSize cursor.step cursor.cap level = 0)) (l := cursor.levels)
      (by simp [hlevels])
    simp only [hlevels, List.head_cons, decide_eq_false_iff_not] at hhead
    exact Nat.pos_of_ne_zero hhead

theorem Cursor.seek_levels_eq_nil (h : cursor.seek.2 = false) : cursor.seek.1.levels = [] := by
  simpa [Cursor.seek] using h

theorem Cursor.seek_length_le (cursor : Cursor) :
    cursor.seek.1.levels.length ≤ cursor.levels.length :=
  (List.dropWhile_sublist _).length_le

/-- A cursor on a level that takes something stays there. -/
theorem Cursor.seek_eq_self (h : 0 < cursor.size) : cursor.seek.1 = cursor := by
  unfold Cursor.size at h
  unfold Cursor.seek
  cases hlevels : cursor.levels with
  | nil => simp [hlevels] at h
  | cons level levels =>
    rw [hlevels] at h
    rw [List.dropWhile_cons, if_neg (by simpa using h.ne')]
    simp [← hlevels]

end Cursor

/-! ### The continuous margin -/

/-- The debit of a leg without its roundings, over the fee denominator; it is linear in the
quantity. -/
def Cursor.continuousDebit (cursor : Cursor) (q : ℕ) : ℤ :=
  feeDenominator * (cursor.passed.debit - cursor.passed.accumulator.roundingMicro +
    (q - cursor.passed.quantity) * cursor.price.raw) +
      (q - cursor.passed.quantity) * Search.feeFactor cursor

/-- The margin of a pair without its roundings, over the fee denominator. -/
def Search.continuousMargin (search : Search) (q : ℕ) : ℤ :=
  feeDenominator * (q * 10000) - (search.cursors 0).continuousDebit q -
    (search.cursors 1).continuousDebit q

/-- The continuous margin is linear, with the slope of the search. -/
theorem Search.continuousMargin_sub (search : Search) (q q' : ℕ) :
    search.continuousMargin q' - search.continuousMargin q = search.marginSlope * (q' - q) := by
  unfold Search.continuousMargin Search.marginSlope Cursor.continuousDebit
  ring

/-- The fee of the fill beyond the prefix is its exact share and the ceiling error. -/
theorem feeDenominator_mul_exactFee (cursor : Cursor) (q : ℕ) :
    feeDenominator * exactFee (q - cursor.passed.quantity) cursor.price cursor.fees =
      (q - cursor.passed.quantity) * Search.feeFactor cursor + Search.feeCeilError cursor q := by
  set n := q - cursor.passed.quantity with hn
  have hmod : n * (Search.feeFactor cursor % feeDenominator) % feeDenominator =
      n * Search.feeFactor cursor % feeDenominator := Nat.mul_mod_mod _ _ _
  unfold Search.feeCeilError exactFee
  rw [← hn, hmod, ← Search.feeFactor, Nat.ceilDiv_eq_add_pred_div]
  generalize n * Search.feeFactor cursor = x
  simp only [feeDenominator]
  split_ifs <;> omega

/-- What a charged fill beyond the prefix adds to the continuous debit. -/
theorem Cursor.continuousDebit_add {cursor : Cursor} {q : ℕ} (hle : cursor.passed.quantity ≤ q)
    {charge : FillCharge} {left : FeeAccumulator}
    (h : chargeBuyFill (q - cursor.passed.quantity) cursor.price cursor.fees
      cursor.passed.accumulator =
      some (charge, left)) :
    (feeDenominator : ℤ) * (cursor.passed.debit + charge.debit : ℕ) =
      cursor.continuousDebit q + Search.feeCeilError cursor q +
        feeDenominator * left.roundingMicro := by
  obtain ⟨-, -, hnotional, htrade, hdebit, -, -⟩ := chargeBuyFill_spec h
  have hfee := feeDenominator_mul_exactFee cursor q
  obtain ⟨n, rfl⟩ := Nat.exists_eq_add_of_le hle
  rw [Nat.add_sub_cancel_left] at hnotional htrade hfee
  rw [hnotional, htrade] at hdebit
  unfold Cursor.continuousDebit
  zify at hdebit hfee
  push_cast
  linear_combination (feeDenominator : ℤ) * hdebit + hfee

/-! ### Evaluations -/

section Search

variable {depth : Fin 2 → BuyDepth} {limits : SizingLimits} {search : Search}
  {q : ℕ} {P : ℕ → Prop}

/-- Both cursors of the search follow their ladders. -/
structure Search.Tracks (depth : Fin 2 → BuyDepth) (limits : SizingLimits) (search : Search) :
    Prop where
  limits_eq : search.limits = limits
  follows : ∀ leg, ∃ fills charges,
    (search.cursors leg).Follows (depth leg) limits fills charges

/-- The quantity ends on the current level of both cursors. -/
structure Search.Reaches (limits : SizingLimits) (search : Search) (q : ℕ) : Prop where
  dvd : limits.step.raw ∣ q
  prefix_lt : ∀ leg, (search.cursors leg).passed.quantity < q
  le_stop : ∀ leg, q ≤ (search.cursors leg).stop
  le_cap : q ≤ limits.gridCap

/-- Only the best value and the counters differ. -/
structure Search.SameCursors (search other : Search) : Prop where
  limits_eq : other.limits = search.limits
  cursors_eq : other.cursors = search.cursors
  slope_eq : other.slope = search.slope

theorem Search.SameCursors.refl (search : Search) : search.SameCursors search := ⟨rfl, rfl, rfl⟩

theorem Search.SameCursors.trans {other third : Search} (h : search.SameCursors other)
    (h' : other.SameCursors third) : search.SameCursors third :=
  ⟨h'.1.trans h.1, h'.2.trans h.2, h'.3.trans h.3⟩

theorem Search.SameCursors.tracks {other : Search} (h : search.SameCursors other)
    (ht : search.Tracks depth limits) : other.Tracks depth limits where
  limits_eq := h.limits_eq.trans ht.limits_eq
  follows := h.cursors_eq ▸ ht.follows

theorem Search.SameCursors.reaches {other : Search} (h : search.SameCursors other)
    (hr : search.Reaches limits q) : other.Reaches limits q where
  dvd := hr.dvd
  prefix_lt := h.cursors_eq ▸ hr.prefix_lt
  le_stop := h.cursors_eq ▸ hr.le_stop
  le_cap := hr.le_cap

theorem Search.SameCursors.continuousMargin {other : Search} (h : search.SameCursors other)
    (q : ℕ) : other.continuousMargin q = search.continuousMargin q := by
  simp only [Search.continuousMargin, h.cursors_eq]

/-- The evaluation of a quantity is the pair built from scratch, with the bound of the continuous
margin. -/
structure Evaluation.Exact (depth : Fin 2 → BuyDepth) (limits : SizingLimits) (search : Search)
    (value : Evaluation) : Prop where
  built : (pairTask depth limits).Built value.order
  margin_eq : value.margin = value.order.margin 10000
  reserve_eq : value.reserve = value.order.reserve
  upper_eq : value.upper = search.continuousMargin value.q / feeDenominator

/-- **One leg of an evaluation.** It is the order built from scratch, and its debit is the
continuous debit and the roundings. -/
theorem Search.evaluateLeg_spec (hl : limits.Valid) (hd : ∀ leg, (depth leg).Valid)
    (ht : search.Tracks depth limits) (hr : search.Reaches limits q) (leg : Fin 2) :
    ∃ sized rounding, search.evaluateLeg leg q = some (sized, rounding) ∧
      buildOrder (depth leg) limits.step.raw q = some sized ∧
      (feeDenominator : ℤ) * sized.debit = (search.cursors leg).continuousDebit q +
        Search.feeCeilError (search.cursors leg) q + feeDenominator * rounding := by
  obtain ⟨fills, charges, hf⟩ := ht.follows leg
  have hlt := hr.prefix_lt leg
  have hstop := hr.le_stop leg
  have hgrid := limits.gridCap_le
  have hcap := hr.le_cap
  unfold Cursor.stop at hstop
  obtain ⟨level, levels, hlevels, hprice, hsize⟩ :=
    (search.cursors leg).exists_level_of_size_pos (by omega)
  rw [hf.step, hf.cap, levelSize_eq] at hsize
  have hres : Reservable q limits.step.raw (depth leg).fees :=
    (pairTask_valid hl hd).reservable leg hr.dvd (by simp only [pairTask]; omega)
  obtain ⟨charge, left, hcharge⟩ := hf.exists_charge hres.step_pos (hd leg).1 level.price
    (q - (search.cursors leg).passed.quantity) (by omega) (by have := hl.1; omega)
  have hfollows : (search.cursors leg).passed.Follows (depth leg) limits.step.raw limits.gridCap
      (level :: levels) fills charges := hlevels ▸ hf.toFollows
  refine ⟨_, left.roundingMicro, ?_,
    hfollows.buildOrder_eq hres hlt hcap (by omega) hcharge, ?_⟩
  · simp only [Search.evaluateLeg, Search.legReservation, ht.limits_eq, hf.fees, hprice, hcharge,
      buyReservation_eq hres, Option.bind_eq_bind, Option.bind_some]
  · rw [← hf.fees, ← hprice] at hcharge
    exact Cursor.continuousDebit_add hlt.le hcharge

/-- **Evaluations are exact.** On a stretch an evaluation either runs out of budget or returns the
pair built from scratch and compares it with the best value. -/
theorem Search.evaluate_spec (hl : limits.Valid) (hd : ∀ leg, (depth leg).Valid)
    (ht : search.Tracks depth limits) (hr : search.Reaches limits q) :
    search.evaluate q = .error (search.failed .searchBudgetExceeded) ∨
      ∃ value other, search.evaluate q = .ok (value, other) ∧ value.q = q ∧
        value.Exact depth limits search ∧ search.SameCursors other ∧
        other.best = if value.margin > limits.minimumMargin.raw ∧
          improves search.best value = true then some value else search.best := by
  unfold Search.evaluate
  by_cases hbudget : search.evaluatedQuantities = search.limits.maxEvaluations
  · exact Or.inl (if_pos hbudget)
  rw [if_neg hbudget]
  obtain ⟨leg0, rounding0, heval0, hbuild0, hdebit0⟩ := search.evaluateLeg_spec hl hd ht hr 0
  obtain ⟨leg1, rounding1, heval1, hbuild1, hdebit1⟩ := search.evaluateLeg_spec hl hd ht hr 1
  have heval (leg : Fin 2) (count : ℕ) :
      Search.evaluateLeg { search with evaluatedQuantities := count } leg q =
        search.evaluateLeg leg q := rfl
  right
  simp only [heval, heval0, heval1]
  refine ⟨_, _, rfl, rfl, ⟨⟨?_, hr.dvd, hr.le_cap.trans limits.gridCap_le, ?_⟩, ?_, ?_, ?_⟩,
    ⟨rfl, rfl, rfl⟩, by rw [ht.limits_eq]⟩
  · exact (Nat.zero_le _).trans_lt (hr.prefix_lt 0)
  · exact Fin.forall_fin_two.mpr ⟨hbuild0, hbuild1⟩
  · simp only [LegOrder.margin, Evaluation.order, Fin.sum_univ_two]
    simp
    ring
  · simp [LegOrder.reserve, Evaluation.order, Fin.sum_univ_two]
  · -- The bound is the floor of the continuous margin.
    simp only [Search.continuousMargin, feeDenominator] at hdebit0 hdebit1 ⊢
    omega

/-- The margin of an order that ends on the current levels is below the continuous margin. -/
theorem Search.margin_le (hl : limits.Valid) (hd : ∀ leg, (depth leg).Valid)
    (ht : search.Tracks depth limits) {order : LegOrder 2}
    (ho : (pairTask depth limits).Built order) (hr : search.Reaches limits order.quantity) :
    order.margin 10000 ≤ search.continuousMargin order.quantity / feeDenominator := by
  obtain ⟨leg0, rounding0, -, hbuild0, hdebit0⟩ := search.evaluateLeg_spec hl hd ht hr 0
  obtain ⟨leg1, rounding1, -, hbuild1, hdebit1⟩ := search.evaluateLeg_spec hl hd ht hr 1
  have hleg0 : order.legs 0 = leg0 := Option.some.inj ((ho.built 0).symm.trans hbuild0)
  have hleg1 : order.legs 1 = leg1 := Option.some.inj ((ho.built 1).symm.trans hbuild1)
  simp only [LegOrder.margin, Fin.sum_univ_two, hleg0, hleg1]
  simp only [Search.continuousMargin, feeDenominator] at hdebit0 hdebit1 ⊢
  push_cast
  omega

/-! ### Covered quantities -/

/-- **What the search has covered.** The best value is the best of the candidates at the covered
quantities. -/
structure Search.Covers (depth : Fin 2 → BuyDepth) (limits : SizingLimits) (search : Search)
    (P : ℕ → Prop) : Prop where
  consistent : ∀ best ∈ search.best,
    best.margin = best.order.margin 10000 ∧ best.reserve = best.order.reserve
  bestOn : BestOn (LegOrder.key 10000) ((pairTask depth limits).candidates P)
    (search.best.map Evaluation.order)

theorem Search.Covers.congr {Q : ℕ → Prop} (h : search.Covers depth limits P)
    (hPQ : ∀ order, (pairTask depth limits).Candidate order →
      (P order.quantity ↔ Q order.quantity)) : search.Covers depth limits Q where
  consistent := h.consistent
  bestOn := SizingTask.bestOn_congr h.bestOn hPQ

theorem Search.Covers.of_best {other : Search} (h : search.Covers depth limits P)
    (hbest : other.best = search.best) : other.Covers depth limits P where
  consistent := hbest ▸ h.consistent
  bestOn := hbest ▸ h.bestOn

/-- The comparison of the source is the comparison of keys. -/
theorem improves_eq_true_iff {best value : Evaluation}
    (hbest : best.margin = best.order.margin 10000 ∧ best.reserve = best.order.reserve)
    (hvalue : value.margin = value.order.margin 10000 ∧ value.reserve = value.order.reserve) :
    Search.improves (some best) value = true ↔
      best.order.key 10000 < value.order.key 10000 := by
  rw [LegOrder.key_lt_iff, LegOrder.Beats, ← hbest.1, ← hbest.2, ← hvalue.1, ← hvalue.2]
  simp only [Search.improves, Evaluation.order, Bool.or_eq_true, Bool.and_eq_true,
    decide_eq_true_eq, beq_iff_eq, gt_iff_lt]
  rw [eq_comm (a := value.margin)]

/-- **An evaluation covers its quantity.** -/
theorem Search.Covers.evaluate {other : Search} {value : Evaluation}
    (h : search.Covers depth limits P) (hv : value.Exact depth limits search)
    (hfunded : value.order.reserve ≤ limits.available.raw)
    (hbest : other.best = if value.margin > limits.minimumMargin.raw ∧
      improves search.best value = true then some value else search.best) :
    other.Covers depth limits fun q => P q ∨ q = value.q := by
  by_cases hmargin : value.margin > limits.minimumMargin.raw
  · have hcandidate : (pairTask depth limits).Candidate value.order :=
      { hv.built with
        funded := hfunded
        margin_lt := hv.margin_eq ▸ hmargin }
    have hinsert := (pairTask depth limits).bestOn_insert h.bestOn hcandidate
    have hkeep : other.best.map Evaluation.order =
        keepBest (LegOrder.key 10000) (search.best.map Evaluation.order) value.order := by
      rw [hbest]
      cases hsearch : search.best with
      | none => simp [hmargin, improves, keepBest]
      | some best =>
        have himproves := improves_eq_true_iff (h.consistent best hsearch)
          ⟨hv.margin_eq, hv.reserve_eq⟩
        simp only [himproves, hmargin, true_and, keepBest, Option.map_some]
        split_ifs <;> rfl
    refine ⟨fun best hmem => ?_, hkeep ▸ hinsert⟩
    rw [hbest] at hmem
    split_ifs at hmem
    · obtain rfl := Option.some.inj hmem
      exact ⟨hv.margin_eq, hv.reserve_eq⟩
    · exact h.consistent best hmem
  · rw [if_neg fun hboth => hmargin hboth.1] at hbest
    refine ⟨hbest ▸ h.consistent, hbest ▸ ?_⟩
    refine (pairTask depth limits).bestOn_union h.bestOn fun order horder hq => absurd ?_ hmargin
    rw [horder.eq_of_quantity hv.built hq] at horder
    rw [hv.margin_eq]
    exact horder.margin_lt

/-! ### Intervals -/

theorem Search.Reaches.between {low high : ℕ} (hlow : search.Reaches limits low)
    (hhigh : search.Reaches limits high) (hdvd : limits.step.raw ∣ q) (h1 : low ≤ q)
    (h2 : q ≤ high) : search.Reaches limits q where
  dvd := hdvd
  prefix_lt := fun leg => (hlow.prefix_lt leg).trans_le h1
  le_stop := fun leg => h2.trans (hhigh.le_stop leg)
  le_cap := h2.trans hhigh.le_cap

theorem Search.SameCursors.exact {other : Search} {value : Evaluation}
    (h : search.SameCursors other) (hv : value.Exact depth limits search) :
    value.Exact depth limits other :=
  { hv with upper_eq := h.continuousMargin value.q ▸ hv.upper_eq }

/-- The end of an interval towards which the slope ascends bounds the margins inside. -/
theorem Search.margin_le_upper (hl : limits.Valid) (hd : ∀ leg, (depth leg).Valid)
    (ht : search.Tracks depth limits) (hslope : search.slope = search.marginSlope)
    {low high : Evaluation} (hlow : low.Exact depth limits search)
    (hhigh : high.Exact depth limits search) {order : LegOrder 2}
    (ho : (pairTask depth limits).Built order) (hr : search.Reaches limits order.quantity)
    (h1 : low.q ≤ order.quantity) (h2 : order.quantity ≤ high.q) :
    order.margin 10000 ≤ if search.slope ≥ 0 then high.upper else low.upper := by
  refine (search.margin_le hl hd ht ho hr).trans ?_
  split_ifs with hsign
  · rw [hhigh.upper_eq]
    refine Int.ediv_le_ediv (by decide) ?_
    have := search.continuousMargin_sub order.quantity high.q
    rw [← hslope] at this
    have : 0 ≤ search.slope * ((high.q : ℤ) - order.quantity) :=
      mul_nonneg hsign (by omega)
    omega
  · rw [hlow.upper_eq]
    refine Int.ediv_le_ediv (by decide) ?_
    have := search.continuousMargin_sub low.q order.quantity
    rw [← hslope] at this
    have : search.slope * ((order.quantity : ℤ) - low.q) ≤ 0 :=
      mul_nonpos_of_nonpos_of_nonneg (by omega) (by omega)
    omega

/-- **Pruning loses nothing.** A candidate inside a pruned interval is dominated by the best
value: its margin is below the bound, and on a tie it reserves no less and is larger. -/
theorem Search.dominated_of_prunable (hl : limits.Valid) (hd : ∀ leg, (depth leg).Valid)
    (ht : search.Tracks depth limits) (h : search.Covers depth limits P) {low : Evaluation}
    {upper : ℤ} (hprune : search.prunable low upper = true) {order : LegOrder 2}
    (ho : (pairTask depth limits).Candidate order) (hlt : low.q < order.quantity)
    (hupper : order.margin 10000 ≤ upper) :
    ∃ best ∈ search.best.map Evaluation.order, order.key 10000 ≤ best.key 10000 := by
  unfold Search.prunable at hprune
  cases hbest : search.best with
  | none =>
    have hmargin := ho.margin_lt
    rw [hbest] at hprune
    simp only [ht.limits_eq, decide_eq_true_eq] at hprune
    simp only [pairTask] at hmargin
    omega
  | some best =>
    rw [hbest] at hprune
    simp only [Bool.or_eq_true, Bool.and_eq_true, decide_eq_true_eq, beq_iff_eq] at hprune
    have hcons := h.consistent best hbest
    have hmem := (h.bestOn.mem best.order (by simp [hbest])).1
    refine ⟨best.order, by simp, (LegOrder.key_lt_iff.mpr ?_).le⟩
    rcases hprune with hbelow | ⟨hmeet, htie⟩
    · exact Or.inl (by omega)
    · rcases lt_or_eq_of_le (hupper.trans (hmeet.trans hcons.1).le) with hless | heq
      · exact Or.inl hless
      · have hquantity : best.order.quantity < order.quantity := by
          simp only [Evaluation.order]
          omega
        have hreserve := hmem.toBuilt.reserve_mono (pairTask_valid hl hd) ho.toBuilt hquantity.le
        exact Or.inr ⟨heq, by omega⟩

/-- **Intervals are covered.** Between two evaluated and funded quantities of one stretch the
search covers everything, unless it runs out of budget. -/
theorem Search.interval_covers (hl : limits.Valid) (hd : ∀ leg, (depth leg).Valid) (fuel : ℕ) :
    ∀ {search : Search} {low high : Evaluation} {P : ℕ → Prop},
      search.Tracks depth limits → search.slope = search.marginSlope →
      low.Exact depth limits search → high.Exact depth limits search →
      search.Reaches limits low.q → search.Reaches limits high.q → low.q ≤ high.q →
      (high.q - low.q) / limits.step.raw < fuel →
      high.order.reserve ≤ limits.available.raw → search.Covers depth limits P →
      (∃ out : Search, search.interval fuel low high =
        .error (out.failed .searchBudgetExceeded)) ∨
      ∃ other, search.interval fuel low high = .ok other ∧ search.SameCursors other ∧
        other.Covers depth limits fun q => P q ∨ low.q < q ∧ q < high.q := by
  have hstep : 0 < limits.step.raw := by have := hl.2.1; omega
  induction fuel with
  | zero =>
    intro search low high P _ _ _ _ _ _ _ hfuel
    exact absurd hfuel (Nat.not_lt_zero _)
  | succ fuel ih =>
    intro search low high P ht hslope hlow hhigh hrlow hrhigh hle hfuel hfunded hcovers
    simp only [Search.interval, ht.limits_eq]
    by_cases hnarrow : high.q - low.q ≤ limits.step.raw
    · -- Nothing of the grid lies strictly between.
      refine Or.inr ⟨search, if_pos hnarrow, .refl search, hcovers.congr fun order ho => ?_⟩
      refine (or_iff_left fun hbetween => ?_).symm
      have := add_step_le_of_lt hrlow.dvd ho.dvd hbetween.1
      have := add_step_le_of_lt ho.dvd hrhigh.dvd hbetween.2
      simp only [pairTask] at *
      omega
    rw [if_neg hnarrow]
    by_cases hprune :
      search.prunable low (if search.slope ≥ 0 then high.upper else low.upper) = true
    · refine Or.inr ⟨_, if_pos hprune, ⟨ht.limits_eq.symm, rfl, rfl⟩, ⟨hcovers.consistent, ?_⟩⟩
      refine (pairTask depth limits).bestOn_union hcovers.bestOn
        fun order ho hbetween => ?_
      exact search.dominated_of_prunable hl hd ht hcovers hprune ho hbetween.1
        (search.margin_le_upper hl hd ht hslope hlow hhigh ho.toBuilt
          (hrlow.between hrhigh ho.dvd hbetween.1.le hbetween.2.le) hbetween.1.le hbetween.2.le)
    rw [if_neg hprune]
    -- The middle is a grid quantity strictly between the ends.
    obtain ⟨htwo, hmidlow, hmidlt, hmiddvd, hlowmid, hmidhigh⟩ :=
      halve_spec hstep hrlow.dvd hrhigh.dvd hnarrow
    set steps := (high.q - low.q) / limits.step.raw
    set mid := low.q + steps / 2 * limits.step.raw
    have hmidle : mid ≤ high.q := hmidlt.le
    have hrmid : search.Reaches limits mid := hrlow.between hrhigh hmiddvd (by omega) hmidle
    rcases search.evaluate_spec hl hd ht hrmid with hfail | ⟨value, next, heval, hq, hvalue,
      hsame, hbest⟩
    · exact Or.inl ⟨search, by rw [hfail]; rfl⟩
    have hvfunded : value.order.reserve ≤ limits.available.raw :=
      (hvalue.built.reserve_mono (pairTask_valid hl hd) hhigh.built (by
        simp only [Evaluation.order, hq, hmidle])).trans hfunded
    have hmidcovers := hcovers.evaluate hvalue hvfunded hbest
    simp only [heval]
    rcases ih (hsame.tracks ht) ((hsame.slope_eq.trans hslope).trans (by
        simp only [Search.marginSlope, hsame.cursors_eq])) (hsame.exact hlow) (hsame.exact hvalue)
        (hsame.reaches hrlow) (hsame.reaches (hq.symm ▸ hrmid)) (by omega)
        (by rw [hq, hlowmid, Nat.mul_div_cancel _ hstep]; omega) hvfunded hmidcovers with
      ⟨out, hfail⟩ | ⟨left, hleft, hsameleft, hleftcovers⟩
    · exact Or.inl ⟨out, by simp only [bind, Except.bind, hfail]⟩
    have hsame' := hsame.trans hsameleft
    rcases ih (hsame'.tracks ht) ((hsame'.slope_eq.trans hslope).trans (by
        simp only [Search.marginSlope, hsame'.cursors_eq])) (hsame'.exact hvalue)
        (hsame'.exact hhigh) (hsame'.reaches (hq.symm ▸ hrmid)) (hsame'.reaches hrhigh) (by omega)
        (by rw [hq, hmidhigh, Nat.mul_div_cancel _ hstep]; omega) hfunded hleftcovers with
      ⟨out, hfail⟩ | ⟨right, hright, hsameright, hrightcovers⟩
    · exact Or.inl ⟨out, by simp only [bind, Except.bind, hleft, hfail]⟩
    refine Or.inr ⟨right, by simp only [bind, Except.bind, hleft, hright],
      hsame'.trans hsameright, hrightcovers.congr fun order ho => ?_⟩
    rw [hq]
    constructor
    · rintro (((hP | hmid) | hbetween) | hbetween)
      · exact Or.inl hP
      · exact Or.inr (by omega)
      · exact Or.inr (by omega)
      · exact Or.inr (by omega)
    · rintro (hP | hbetween)
      · exact Or.inl (Or.inl (Or.inl hP))
      · rcases lt_trichotomy order.quantity mid with hlt | heq | hgt
        · exact Or.inl (Or.inr ⟨hbetween.1, hlt⟩)
        · exact Or.inl (Or.inl (Or.inr heq))
        · exact Or.inr ⟨hgt, hbetween.2⟩

/-! ### Funding -/

/-- A reached quantity can be built, and the search reserves what the built pair reserves. -/
theorem Search.Reaches.exists_built (hl : limits.Valid) (hd : ∀ leg, (depth leg).Valid)
    (ht : search.Tracks depth limits) (hr : search.Reaches limits q) :
    ∃ order : LegOrder 2, (pairTask depth limits).Built order ∧ order.quantity = q ∧
      search.reservation q = order.reserve := by
  have hleg {leg : Fin 2} {sized : SizedLeg} {rounding : ℕ}
      (h : search.evaluateLeg leg q = some (sized, rounding)) :
      search.legReservation leg q = some sized.reservation := by
    simp only [Search.evaluateLeg, Option.bind_eq_bind] at h
    obtain ⟨_, -, h⟩ := Option.bind_eq_some_iff.mp h
    obtain ⟨reserve, hreserve, h⟩ := Option.bind_eq_some_iff.mp h
    simp only [Option.some.injEq, Prod.mk.injEq] at h
    obtain ⟨rfl, -⟩ := h
    exact hreserve
  obtain ⟨leg0, _, heval0, hbuild0, -⟩ := search.evaluateLeg_spec hl hd ht hr 0
  obtain ⟨leg1, _, heval1, hbuild1, -⟩ := search.evaluateLeg_spec hl hd ht hr 1
  refine ⟨⟨q, ![leg0, leg1]⟩, ⟨(Nat.zero_le _).trans_lt (hr.prefix_lt 0), hr.dvd,
    hr.le_cap.trans limits.gridCap_le, Fin.forall_fin_two.mpr ⟨hbuild0, hbuild1⟩⟩, rfl, ?_⟩
  simp [Search.reservation, hleg heval0, hleg heval1, LegOrder.reserve, Fin.sum_univ_two]

/-- The binary search ends on a boundary: what it returns is funded or the lower end, and the next
step is not funded or beyond the upper end. -/
theorem Search.fundedSteps_spec (search : Search) (fuel : ℕ) :
    ∀ low high : ℕ, low ≤ high → high - low ≤ fuel →
      low ≤ search.fundedSteps fuel low high ∧ search.fundedSteps fuel low high ≤ high ∧
      (search.fundedSteps fuel low high = low ∨
        search.reservation (search.fundedSteps fuel low high * search.limits.step.raw) ≤
          search.limits.available.raw) ∧
      (search.fundedSteps fuel low high = high ∨
        search.limits.available.raw <
          search.reservation ((search.fundedSteps fuel low high + 1) *
            search.limits.step.raw)) := by
  induction fuel with
  | zero =>
    intro low high hle hfuel
    have : low = high := by omega
    simp [Search.fundedSteps, this]
  | succ fuel ih =>
    intro low high hle hfuel
    unfold Search.fundedSteps
    by_cases hlt : low < high
    · simp only [if_pos hlt]
      split_ifs with hmid
      · obtain ⟨h1, h2, h3, h4⟩ :=
          ih (low + (high - low + 1) / 2) high (by omega) (by omega)
        refine ⟨by omega, h2, Or.inr ?_, h4⟩
        rcases h3 with h3 | h3
        · rw [h3]
          exact hmid
        · exact h3
      · obtain ⟨h1, h2, h3, h4⟩ :=
          ih low (low + (high - low + 1) / 2 - 1) (by omega) (by omega)
        refine ⟨h1, by omega, h3, Or.inr ?_⟩
        rcases h4 with h4 | h4
        · rw [h4, Nat.sub_add_cancel (by omega)]
          exact not_le.mp hmid
        · exact h4
    · have : low = high := by omega
      rw [if_neg hlt]
      exact ⟨le_rfl, hle, Or.inl rfl, Or.inl this⟩

/-- **The last funded quantity.** It is at most a step before the stretch; from the start of the
stretch on it is funded, and one step further, within the stretch, is not. -/
theorem Search.lastFunded_spec (hl : limits.Valid) (hlimits : search.limits = limits)
    {first stop : ℕ} (hfirst : limits.step.raw ∣ first) (hpos : 0 < first)
    (hstop : limits.step.raw ∣ stop) (hle : first ≤ stop) :
    limits.step.raw ∣ search.lastFunded first stop ∧ search.lastFunded first stop ≤ stop ∧
      first ≤ search.lastFunded first stop + limits.step.raw ∧
      (first ≤ search.lastFunded first stop →
        search.reservation (search.lastFunded first stop) ≤ limits.available.raw) ∧
      (search.lastFunded first stop < stop → limits.available.raw <
        search.reservation (search.lastFunded first stop + limits.step.raw)) := by
  have hstep : 0 < limits.step.raw := by have := hl.2.1; omega
  simp only [Search.lastFunded, hlimits]
  by_cases hfunded : limits.available.raw < search.reservation stop
  · rw [if_pos hfunded]
    obtain ⟨a, rfl⟩ := hfirst
    obtain ⟨b, rfl⟩ := hstop
    simp only [Nat.mul_div_cancel_left _ hstep]
    have ha : 0 < a := Nat.pos_of_mul_pos_left hpos
    have hab : a ≤ b := Nat.le_of_mul_le_mul_left hle hstep
    obtain ⟨h1, h2, h3, h4⟩ :=
      search.fundedSteps_spec b (a - 1) b (by omega) (by omega)
    rw [hlimits] at h3 h4
    set r := search.fundedSteps b (a - 1) b
    have hr : r * limits.step.raw + limits.step.raw = (r + 1) * limits.step.raw := by ring
    refine ⟨Dvd.intro_left _ rfl, ?_, ?_, fun hge => ?_, fun _ => ?_⟩
    · rw [mul_comm]
      exact Nat.mul_le_mul_left _ h2
    · rw [hr, mul_comm]
      exact Nat.mul_le_mul_right _ (by omega)
    · rcases h3 with h3 | h3
      · rw [mul_comm] at hge
        have := Nat.le_of_mul_le_mul_right hge hstep
        omega
      · exact h3
    · rw [hr]
      rcases h4 with h4 | h4
      · rcases h3 with h3 | h3
        · omega
        · rw [h4, mul_comm] at h3
          omega
      · exact h4
  · rw [if_neg hfunded]
    exact ⟨hstop, le_rfl, by omega, fun _ => not_lt.mp hfunded, fun h => absurd h (lt_irrefl _)⟩

/-! ### The main loop -/

/-- The next stretch starts at `first`: both cursors have passed less, and each either ends just
before it or is on a level that reaches it. -/
structure Search.AtFirst (limits : SizingLimits) (search : Search) (first : ℕ) : Prop where
  dvd : limits.step.raw ∣ first
  pos : 0 < first
  prefix_lt : ∀ leg, (search.cursors leg).passed.quantity < first
  near : ∀ leg, (search.cursors leg).passed.quantity + limits.step.raw = first ∨
    0 < (search.cursors leg).size ∧ first ≤ (search.cursors leg).stop

/-- Seeking a pair of cursors: they follow as before, and either both are on a level or one has
none left. -/
theorem Search.seek_spec (hl : limits.Valid) (ht : search.Tracks depth limits) :
    search.seek.1.Tracks depth limits ∧ search.seek.1.best = search.best ∧
      (∀ leg, (search.seek.1.cursors leg).passed.quantity = (search.cursors leg).passed.quantity ∧
        (search.seek.1.cursors leg).levels.length ≤ (search.cursors leg).levels.length) ∧
      (search.seek.2 = false → ∃ leg, (search.seek.1.cursors leg).levels = []) ∧
      (search.seek.2 = true → ∀ leg, search.seek.1.cursors leg = (search.cursors leg).seek.1 ∧
        0 < (search.seek.1.cursors leg).size) := by
  obtain ⟨fills0, charges0, hf0⟩ := ht.follows 0
  obtain ⟨fills1, charges1, hf1⟩ := ht.follows 1
  have hlength0 := (search.cursors 0).seek_length_le
  have hlength1 := (search.cursors 1).seek_length_le
  cases hfound0 : (search.cursors 0).seek.2 with
  | false =>
    have hseek : search.seek =
        ({ search with cursors := ![(search.cursors 0).seek.1, search.cursors 1] }, false) := by
      simp [Search.seek, hfound0]
    rw [hseek]
    refine ⟨⟨ht.limits_eq, Fin.forall_fin_two.mpr ⟨⟨_, _, hf0.seek hl⟩, ⟨_, _, hf1⟩⟩⟩, rfl,
      Fin.forall_fin_two.mpr ⟨⟨rfl, hlength0⟩, ⟨rfl, le_rfl⟩⟩, fun _ => ⟨0, ?_⟩, by simp⟩
    exact Cursor.seek_levels_eq_nil hfound0
  | true =>
    have hseek : search.seek = ({ search with
        cursors := ![(search.cursors 0).seek.1, (search.cursors 1).seek.1] },
        (search.cursors 1).seek.2) := by
      simp [Search.seek, hfound0]
    rw [hseek]
    refine ⟨⟨ht.limits_eq, Fin.forall_fin_two.mpr ⟨⟨_, _, hf0.seek hl⟩, ⟨_, _, hf1.seek hl⟩⟩⟩, rfl,
      Fin.forall_fin_two.mpr ⟨⟨rfl, hlength0⟩, ⟨rfl, hlength1⟩⟩, fun hfound1 => ⟨1, ?_⟩,
      fun hfound1 => Fin.forall_fin_two.mpr ⟨⟨rfl, ?_⟩, ⟨rfl, ?_⟩⟩⟩
    · exact Cursor.seek_levels_eq_nil hfound1
    · exact Cursor.seek_size_pos hfound0
    · exact Cursor.seek_size_pos hfound1

/-- A cursor on a level takes at least a step. -/
theorem Cursor.Follows.step_le_size {depth : BuyDepth} {cursor : Cursor} {fills : List BuyFill}
    {charges : List FillCharge} (h : cursor.Follows depth limits fills charges)
    (hsize : 0 < cursor.size) : limits.step.raw ≤ cursor.size ∧ limits.step.raw ∣ cursor.size := by
  have hdvd : limits.step.raw ∣ cursor.size := by
    unfold Cursor.size
    cases cursor.levels with
    | nil => exact dvd_zero _
    | cons level levels => exact h.step ▸ Dvd.intro_left _ rfl
  exact ⟨Nat.le_of_dvd hsize hdvd, hdvd⟩

/-- A candidate needs depth on both legs. -/
theorem Search.not_candidate_of_exhausted (hl : limits.Valid) (hd : ∀ leg, (depth leg).Valid)
    (ht : search.Tracks depth limits) {leg : Fin 2} (hlevels : (search.cursors leg).levels = [])
    {order : LegOrder 2} (ho : (pairTask depth limits).Candidate order)
    (hlt : (search.cursors leg).passed.quantity < order.quantity) : False := by
  obtain ⟨fills, charges, hf⟩ := ht.follows leg
  have hv := pairTask_valid hl hd
  have hsome := (buildOrder_isSome_iff (hv.ascending leg)
    (hv.reservable leg ho.dvd ho.le_cap)).mp (by rw [ho.built leg]; rfl)
  have hnone := hf.orderFills_eq_none hlevels hlt (limits.le_gridCap ho.dvd ho.le_cap)
  simp only [pairTask] at hsome
  rw [hnone] at hsome
  exact Bool.false_ne_true hsome

/-- A quantity that is not funded keeps out every larger candidate. -/
theorem Search.not_candidate_of_unfunded (hl : limits.Valid) (hd : ∀ leg, (depth leg).Valid)
    (ht : search.Tracks depth limits) (hr : search.Reaches limits q)
    (hunfunded : limits.available.raw < search.reservation q) {order : LegOrder 2}
    (ho : (pairTask depth limits).Candidate order) (hle : q ≤ order.quantity) : False := by
  obtain ⟨built, hbuilt, hq, hreserve⟩ := hr.exists_built hl hd ht
  have hmono := hbuilt.reserve_mono (pairTask_valid hl hd) ho.toBuilt (hq ▸ hle)
  have hfunded := ho.funded
  simp only [pairTask] at hfunded
  omega

/-- **From stretch to stretch.** Passing the levels that end at `stop` succeeds below the cap,
leaves the search at the next grid quantity and shortens the ladders. -/
theorem Search.advance_spec (hl : limits.Valid) (hd : ∀ leg, (depth leg).Valid)
    (ht : search.Tracks depth limits) {stop : ℕ} (hsize : ∀ leg, 0 < (search.cursors leg).size)
    (hdvd : limits.step.raw ∣ stop) (hcap : stop < limits.gridCap)
    (hpassed : ∀ leg, (search.cursors leg).passed.quantity < stop)
    (hle : ∀ leg, stop ≤ (search.cursors leg).stop)
    (hend : ∃ leg, (search.cursors leg).stop = stop) :
    ∃ other, search.advance stop = .ok other ∧ other.Tracks depth limits ∧
      other.best = search.best ∧ other.AtFirst limits (stop + limits.step.raw) ∧
      (other.cursors 0).levels.length + (other.cursors 1).levels.length <
        (search.cursors 0).levels.length + (search.cursors 1).levels.length := by
  have hstep : 0 < limits.step.raw := by have := hl.2.1; omega
  -- What happens to one cursor.
  have hleg (leg : Fin 2) : ∃ next fills charges,
      search.passLevel stop (search.cursors leg) = .ok next ∧
      next.Follows (depth leg) limits fills charges ∧
      next.passed.quantity < stop + limits.step.raw ∧
      (next.passed.quantity + limits.step.raw = stop + limits.step.raw ∨
        0 < next.size ∧ stop + limits.step.raw ≤ next.stop) ∧
      next.levels.length ≤ (search.cursors leg).levels.length ∧
      ((search.cursors leg).stop = stop →
        next.levels.length < (search.cursors leg).levels.length) := by
    obtain ⟨fills, charges, hf⟩ := ht.follows leg
    by_cases hstop : (search.cursors leg).stop = stop
    · obtain ⟨next, fills', charges', hadvance, hfollows, hquantity, hlevels⟩ :=
        hf.advance hl (hd leg) (hsize leg) (by omega)
      have hlength : next.levels.length < (search.cursors leg).levels.length := by
        have hpos : 0 < (search.cursors leg).levels.length := by
          have := hsize leg
          unfold Cursor.size at this
          cases hcursor : (search.cursors leg).levels with
          | nil => simp [hcursor] at this
          | cons level levels => simp
        rw [hlevels, List.length_tail]
        omega
      refine ⟨next, fills', charges', ?_, hfollows, by omega, Or.inl (by omega), hlength.le,
        fun _ => hlength⟩
      simp only [Search.passLevel, if_pos hstop, hadvance]
    · refine ⟨_, fills, charges, if_neg hstop, hf, ?_, Or.inr ⟨hsize leg, ?_⟩, le_rfl,
        fun h => absurd h hstop⟩
      · have := hpassed leg
        omega
      · refine add_step_le_of_lt hdvd ?_ (lt_of_le_of_ne (hle leg) (Ne.symm hstop))
        exact dvd_add hf.dvd_quantity (hf.step_le_size (hsize leg)).2
  obtain ⟨next0, _, _, heq0, hf0, hlt0, hnear0, hlen0, hless0⟩ := hleg 0
  obtain ⟨next1, _, _, heq1, hf1, hlt1, hnear1, hlen1, hless1⟩ := hleg 1
  refine ⟨{ search with cursors := ![next0, next1] }, ?_,
    ⟨ht.limits_eq, Fin.forall_fin_two.mpr ⟨⟨_, _, hf0⟩, ⟨_, _, hf1⟩⟩⟩, rfl,
    ⟨dvd_add hdvd dvd_rfl, by omega, Fin.forall_fin_two.mpr ⟨hlt0, hlt1⟩,
      Fin.forall_fin_two.mpr ⟨hnear0, hnear1⟩⟩, ?_⟩
  · simp only [Search.advance, bind, Except.bind, heq0, heq1]
  · change next0.levels.length + next1.levels.length < _
    rcases Fin.exists_fin_two.mp hend with hend | hend
    · have := hless0 hend
      omega
    · have := hless1 hend
      omega

/-- Both cursors stay on one level from `first` to `stop`, and one of them ends there unless the
cap does. -/
structure Search.OnStretch (limits : SizingLimits) (search : Search) (first stop : ℕ) : Prop where
  dvd : limits.step.raw ∣ stop
  first_le : first ≤ stop
  le_cap : stop ≤ limits.gridCap
  size_pos : ∀ leg, 0 < (search.cursors leg).size
  passed_lt : ∀ leg, (search.cursors leg).passed.quantity < first
  le_stop : ∀ leg, stop ≤ (search.cursors leg).stop
  ends : stop < limits.gridCap → ∃ leg, (search.cursors leg).stop = stop

theorem Search.OnStretch.reaches {first stop : ℕ} (h : search.OnStretch limits first stop)
    (hdvd : limits.step.raw ∣ q) (h1 : first ≤ q) (h2 : q ≤ stop) : search.Reaches limits q where
  dvd := hdvd
  prefix_lt := fun leg => (h.passed_lt leg).trans_le h1
  le_stop := fun leg => h2.trans (h.le_stop leg)
  le_cap := h2.trans h.le_cap

theorem Search.OnStretch.congr {other : Search} {first stop : ℕ}
    (h : search.OnStretch limits first stop) (hcursors : other.cursors = search.cursors) :
    other.OnStretch limits first stop :=
  { h with
    size_pos := hcursors ▸ h.size_pos
    passed_lt := hcursors ▸ h.passed_lt
    le_stop := hcursors ▸ h.le_stop
    ends := hcursors ▸ h.ends }

/-- The stretch after a stretch that ends below the cap. -/
theorem Search.OnStretch.advance {first stop : ℕ} (h : search.OnStretch limits first stop)
    (hl : limits.Valid) (hd : ∀ leg, (depth leg).Valid) (ht : search.Tracks depth limits)
    (hcap : stop < limits.gridCap) :
    ∃ other, search.advance stop = .ok other ∧ other.Tracks depth limits ∧
      other.best = search.best ∧ other.AtFirst limits (stop + limits.step.raw) ∧
      (other.cursors 0).levels.length + (other.cursors 1).levels.length <
        (search.cursors 0).levels.length + (search.cursors 1).levels.length :=
  search.advance_spec hl hd ht h.size_pos h.dvd hcap
    (fun leg => (h.passed_lt leg).trans_le h.first_le) h.le_stop (h.ends hcap)

/-- **The next stretch.** When seeking finds a level on both legs, the search is on a stretch that
starts at `first`. -/
theorem Search.seek_onStretch (hl : limits.Valid) (ht : search.Tracks depth limits) {first : ℕ}
    (hfirst : search.AtFirst limits first) (hcap : first ≤ limits.gridCap)
    (hfound : search.seek.2 = true) :
    search.seek.1.OnStretch limits first (min limits.gridCap
      (min (search.seek.1.cursors 0).stop (search.seek.1.cursors 1).stop)) := by
  obtain ⟨htracks, -, hpassed, -, hlevel⟩ := search.seek_spec hl ht
  set sought := search.seek.1
  have hlegs (leg : Fin 2) : (sought.cursors leg).passed.quantity < first ∧
      first ≤ (sought.cursors leg).stop ∧ limits.step.raw ∣ (sought.cursors leg).stop := by
    obtain ⟨fills, charges, hf⟩ := htracks.follows leg
    obtain ⟨hcursor, hsize⟩ := hlevel hfound leg
    have hlarge := hf.step_le_size hsize
    have hbefore := hfirst.prefix_lt leg
    rw [← (hpassed leg).1] at hbefore
    refine ⟨hbefore, ?_, dvd_add hf.dvd_quantity hlarge.2⟩
    rcases hfirst.near leg with hnear | ⟨hpos, hnear⟩
    · rw [← (hpassed leg).1] at hnear
      unfold Cursor.stop
      omega
    · rw [hcursor, Cursor.seek_eq_self hpos]
      exact hnear
  obtain ⟨-, hle0, hdvd0⟩ := hlegs 0
  obtain ⟨-, hle1, hdvd1⟩ := hlegs 1
  refine ⟨?_, by omega, min_le_left _ _, fun leg => (hlevel hfound leg).2,
    fun leg => (hlegs leg).1, Fin.forall_fin_two.mpr ⟨by omega, by omega⟩,
    fun hlt => Fin.exists_fin_two.mpr (by omega)⟩
  rcases min_choice limits.gridCap (min (sought.cursors 0).stop (sought.cursors 1).stop)
    with h | h
  · exact h.symm ▸ limits.dvd_gridCap
  · rcases min_choice (sought.cursors 0).stop (sought.cursors 1).stop with h' | h'
    · exact h.symm ▸ h'.symm ▸ hdvd0
    · exact h.symm ▸ h'.symm ▸ hdvd1

/-- **Stretches are covered.** The search covers the quantities of a funded stretch, unless it runs
out of budget. -/
theorem Search.stretch_covers (hl : limits.Valid) (hd : ∀ leg, (depth leg).Valid)
    (ht : search.Tracks depth limits) {first last : ℕ} (hrfirst : search.Reaches limits first)
    (hrlast : search.Reaches limits last) (hle : first ≤ last)
    (hfunded : search.reservation last ≤ limits.available.raw)
    (hcovers : search.Covers depth limits (· < first)) :
    (∃ out : Search, search.stretch first last = .error (out.failed .searchBudgetExceeded)) ∨
      ∃ other, search.stretch first last = .ok other ∧ other.limits = limits ∧
        other.cursors = search.cursors ∧
        other.Covers depth limits (· < last + limits.step.raw) := by
  unfold Search.stretch
  set start : Search := { search with slope := search.marginSlope } with hstart
  have htstart : start.Tracks depth limits := ⟨ht.limits_eq, ht.follows⟩
  have hrange {q : ℕ} (hr : search.Reaches limits q) : start.Reaches limits q :=
    ⟨hr.dvd, hr.prefix_lt, hr.le_stop, hr.le_cap⟩
  obtain ⟨built, hbuilt, hq, hreserve⟩ := hrlast.exists_built hl hd ht
  -- Everything up to the last quantity is funded.
  have hfund {order : LegOrder 2} (ho : (pairTask depth limits).Built order)
      (hle : order.quantity ≤ last) : order.reserve ≤ limits.available.raw :=
    (ho.reserve_mono (pairTask_valid hl hd) hbuilt (hq ▸ hle)).trans (hreserve ▸ hfunded)
  have hcstart : start.Covers depth limits (· < first) := hcovers.of_best rfl
  rcases start.evaluate_spec hl hd htstart (hrange hrfirst) with
    hfail | ⟨low, s1, hlow, hlowq, hlowexact, hsame1, hbest1⟩
  · exact Or.inl ⟨start, by simp only [hfail, bind, Except.bind]⟩
  have hcovers1 := hcstart.evaluate hlowexact
    (hfund hlowexact.built (by simp only [Evaluation.order, hlowq, hle])) hbest1
  have hhigh : (∃ out : Search, s1.evaluateHigh low first last =
        .error (out.failed .searchBudgetExceeded)) ∨
      ∃ high s2, s1.evaluateHigh low first last = .ok (high, s2) ∧ high.q = last ∧
        high.Exact depth limits s2 ∧ start.SameCursors s2 ∧
        s2.Covers depth limits fun q => (q < first ∨ q = first) ∨ q = last := by
    unfold Search.evaluateHigh
    by_cases hone : last = first
    · refine Or.inr ⟨low, s1, if_pos hone, hlowq.trans hone.symm, hsame1.exact hlowexact, hsame1,
        hcovers1.congr fun order _ => ?_⟩
      rw [hlowq, hone]
      tauto
    · rw [if_neg hone]
      rcases s1.evaluate_spec hl hd (hsame1.tracks htstart) (hsame1.reaches (hrange hrlast)) with
        hfail | ⟨high, s2, hhigh, hhighq, hexact, hsame2, hbest2⟩
      · exact Or.inl ⟨s1, hfail⟩
      · have hcovers2 := hcovers1.evaluate hexact
          (hfund hexact.built (by simp only [Evaluation.order, hhighq, le_refl])) hbest2
        rw [hlowq, hhighq] at hcovers2
        exact Or.inr ⟨high, s2, hhigh, hhighq, hsame2.exact hexact, hsame1.trans hsame2, hcovers2⟩
  rcases hhigh with ⟨out, hfail⟩ | ⟨high, s2, heval, hhighq, hexact, hsame, hcovers2⟩
  · exact Or.inl ⟨out, by simp only [hlow, hfail, bind, Except.bind]⟩
  have hslope : s2.slope = s2.marginSlope := by
    rw [hsame.slope_eq]
    simp only [hstart, Search.marginSlope, hsame.cursors_eq]
  rcases Search.interval_covers hl hd ((high.q - low.q) / limits.step.raw + 1)
    (hsame.tracks htstart)
      hslope (hsame.exact hlowexact) hexact (hlowq ▸ hsame.reaches (hrange hrfirst))
      (hhighq ▸ hsame.reaches (hrange hrlast)) (by omega) (Nat.lt_succ_self _)
      (hfund hexact.built (by simp only [Evaluation.order, hhighq, le_refl])) hcovers2 with
    ⟨out, hfail⟩ | ⟨other, hother, hsame', hcovers'⟩
  · exact Or.inl ⟨out, by
      simp only [hlow, heval, bind, Except.bind, (hsame.tracks htstart).limits_eq, hfail]⟩
  · refine Or.inr ⟨other, ?_, (hsame'.tracks (hsame.tracks htstart)).limits_eq,
      (hsame.trans hsame').cursors_eq, hcovers'.congr fun order ho => ?_⟩
    · simp only [hlow, heval, bind, Except.bind, (hsame.tracks htstart).limits_eq, hother]
    · rw [hlowq, hhighq]
      constructor
      · have hstep : 0 < limits.step.raw := by have := hl.2.1; omega
        rintro (((h | h) | h) | h) <;> omega
      · intro h
        by_contra hnot
        have := add_step_le_of_lt hrlast.dvd ho.dvd (show last < order.quantity by omega)
        omega

/-- Nothing is left to cover when no candidate is as large as the next quantity. -/
theorem Search.Covers.complete {first : ℕ} (h : search.Covers depth limits (· < first))
    (hnone : ∀ order, (pairTask depth limits).Candidate order → order.quantity < first) :
    search.Covers depth limits fun _ => True :=
  h.congr fun order ho => iff_of_true (hnone order ho) trivial

/-- **The loop covers everything.** From the start of a stretch, with what lies before it covered,
the loop covers all candidates unless it runs out of budget. -/
theorem Search.loop_covers (hl : limits.Valid) (hd : ∀ leg, (depth leg).Valid) (fuel : ℕ) :
    ∀ (funded : Bool) {search : Search} {first : ℕ}, search.Tracks depth limits →
      search.AtFirst limits first →
      (search.cursors 0).levels.length + (search.cursors 1).levels.length < fuel →
      search.Covers depth limits (· < first) →
      (∃ out : Search, search.loop fuel first funded =
        .error (out.failed .searchBudgetExceeded)) ∨
      ∃ other funded', search.loop fuel first funded = .ok (other, funded') ∧
        other.Covers depth limits fun _ => True := by
  have hstep : 0 < limits.step.raw := by have := hl.2.1; omega
  induction fuel with
  | zero =>
    intro funded search first _ _ hfuel
    exact absurd hfuel (Nat.not_lt_zero _)
  | succ fuel ih =>
    intro funded search first ht hfirst hfuel hcovers
    have hlegcap (order) (ho : (pairTask depth limits).Candidate order) :
        order.quantity ≤ limits.gridCap := limits.le_gridCap ho.dvd ho.le_cap
    simp only [Search.loop, ht.limits_eq, ← SizingLimits.gridCap.eq_def limits]
    by_cases hcap : limits.gridCap < first
    · exact Or.inr ⟨search, funded, if_pos hcap, hcovers.complete fun order ho =>
        (hlegcap order ho).trans_lt hcap⟩
    rw [if_neg hcap]
    obtain ⟨htracks, hbest, hpassed, hexhausted, hlevel⟩ := search.seek_spec hl ht
    rcases hseek : search.seek with ⟨sought, found⟩
    rw [hseek] at htracks hbest hpassed hexhausted hlevel
    dsimp only at htracks hbest hpassed hexhausted hlevel ⊢
    replace hcovers := hcovers.of_best hbest
    cases found with
    | false =>
      obtain ⟨leg, hlevels⟩ := hexhausted rfl
      refine Or.inr ⟨sought, funded, rfl, hcovers.complete fun order ho => ?_⟩
      by_contra hge
      refine sought.not_candidate_of_exhausted hl hd htracks hlevels ho ?_
      have := hfirst.prefix_lt leg
      rw [(hpassed leg).1]
      omega
    | true =>
      simp only [Bool.not_true, Bool.false_eq_true, if_false]
      have hon : sought.OnStretch limits first (min limits.gridCap
          (min (sought.cursors 0).stop (sought.cursors 1).stop)) := by
        have := search.seek_onStretch hl ht hfirst (not_lt.mp hcap) (by rw [hseek])
        rwa [hseek] at this
      set stop := min limits.gridCap (min (sought.cursors 0).stop (sought.cursors 1).stop)
      obtain ⟨hlastdvd, hlastle, hlastge, hlastfunded, hlastnext⟩ :=
        sought.lastFunded_spec hl htracks.limits_eq hfirst.dvd hfirst.pos hon.dvd hon.first_le
      set last := sought.lastFunded first stop
      -- Beyond the last funded quantity of the stretch there is no candidate.
      have hbeyond (hlt : last < stop) (order) (ho : (pairTask depth limits).Candidate order) :
          order.quantity < last + limits.step.raw := by
        by_contra hge
        exact sought.not_candidate_of_unfunded hl hd htracks
          (hon.reaches (dvd_add hlastdvd dvd_rfl) hlastge (add_step_le_of_lt hlastdvd hon.dvd hlt))
          (hlastnext hlt) ho (not_lt.mp hge)
      by_cases hnone : last < first
      · refine Or.inr ⟨sought, funded, if_pos hnone, hcovers.complete fun order ho => ?_⟩
        have := hbeyond (hnone.trans_le hon.first_le) order ho
        have hexact : last + limits.step.raw ≤ first := add_step_le_of_lt hlastdvd hfirst.dvd hnone
        omega
      rw [if_neg hnone]
      have hrlast := hon.reaches hlastdvd (not_lt.mp hnone) hlastle
      rcases Search.stretch_covers hl hd htracks (hon.reaches hfirst.dvd le_rfl hon.first_le)
          hrlast (not_lt.mp hnone) (hlastfunded (not_lt.mp hnone)) hcovers with
        ⟨out, hfail⟩ | ⟨next, hnext, hlimits, hcursors, hnextcovers⟩
      · exact Or.inl ⟨out, by simp only [hfail, bind, Except.bind]⟩
      simp only [hnext, bind, Except.bind]
      by_cases hend : last < stop ∨ stop = limits.gridCap
      · refine Or.inr ⟨next, true, if_pos hend, hnextcovers.complete fun order ho => ?_⟩
        rcases hend with hlt | hcapped
        · exact hbeyond hlt order ho
        · have := hlegcap order ho
          rcases lt_or_eq_of_le hlastle with hlt | heq
          · exact hbeyond hlt order ho
          · omega
      rw [if_neg hend]
      have hlast : last = stop := by omega
      have htnext : next.Tracks depth limits := ⟨hlimits, hcursors ▸ htracks.follows⟩
      obtain ⟨other, hother, htother, hbestother, hfirstother, hshorter⟩ :=
        (hon.congr hcursors).advance hl hd htnext (by have := hon.le_cap; omega)
      have hlength0 := (hpassed 0).2
      have hlength1 := (hpassed 1).2
      rw [hcursors] at hshorter
      rcases ih true htother hfirstother (by omega)
          ((hlast ▸ hnextcovers).of_best hbestother) with
        ⟨out, hfail⟩ | ⟨final, funded', hfinal, hall⟩
      · exact Or.inl ⟨out, by simp only [hother, hfail]⟩
      · exact Or.inr ⟨final, funded', by simp only [hother, hfinal], hall⟩

/-! ### The whole search -/

/-- A cursor that has passed nothing charges at least its price for every centicontract. -/
theorem Cursor.Follows.mul_price_le {depth : BuyDepth} {cursor : Cursor} {sized : SizedLeg}
    (h : cursor.Follows depth limits [] []) (hr : Reservable q limits.step.raw depth.fees)
    (hcap : q ≤ limits.gridCap) (hbuilt : buildOrder depth limits.step.raw q = some sized) :
    q * cursor.price.raw ≤ sized.debit := by
  obtain ⟨fills, charges, left, hfills, hcharges, rfl⟩ := (buildOrder_eq_some_iff hr).mp hbuilt
  have hpassed : cursor.passed.quantity = 0 := h.quantity.symm
  have hrest := h.rest q (by omega) hcap
  simp only [hpassed, Nat.sub_zero, List.nil_append, Option.map_id'] at hrest
  rw [hrest] at hfills
  rw [← totalQuantity_orderFills hfills]
  refine totalQuantity_mul_le_totalDebit (fun fill hmem => ?_) hcharges
  unfold Cursor.price
  have hascending := h.ascending
  cases hlevels : cursor.levels with
  | nil => exact Nat.zero_le _
  | cons level levels =>
    rw [hlevels] at hfills hascending
    exact head_le_of_mem_orderFills hascending hr.dvd hfills fill hmem

/-- Before the first quantity there is nothing to cover. -/
theorem Search.covers_of_best_none (hbest : search.best = none) :
    search.Covers depth limits (· < limits.step.raw) where
  consistent := by simp [hbest]
  bestOn := by
    rw [hbest]
    refine (BestOn.empty _).congr fun order => iff_of_false (Set.notMem_empty _) ?_
    rintro ⟨ho, hlt⟩
    exact absurd (Nat.le_of_dvd ho.pos ho.dvd) (not_le.mpr hlt)

/-- The quote of a search that has covered everything is the optimum. -/
theorem Search.finish_optimal (h : search.Covers depth limits fun _ => True) (funded : Bool) :
    ((search.finish funded).quote.isSome ↔ ∃ order, (pairTask depth limits).Candidate order) ∧
      ∀ pair ∈ (search.finish funded).quote, (pairTask depth limits).Optimal pair.order ∧
        pair.netMargin = pair.order.margin 10000 ∧ pair.payoutFloor = pair.quantity * 10000 := by
  obtain ⟨hsome, hoptimal⟩ := (pairTask depth limits).optimal_of_bestOn
    h.bestOn fun _ _ => trivial
  rw [← hsome]
  unfold Search.finish
  cases hbest : search.best with
  | none => simp [Search.failed]
  | some best =>
    refine ⟨by simp, fun pair hpair => ?_⟩
    obtain rfl := Option.some.inj hpair
    exact ⟨hoptimal _ (by simp [hbest, Evaluation.order, SizedPair.order]),
      (h.consistent best hbest).1, rfl⟩

/-- A finished search has not run out of budget, and its arithmetic has not failed. -/
theorem Search.finish_status (search : Search) (funded : Bool) :
    (search.finish funded).status ≠ .searchBudgetExceeded ∧
      (search.finish funded).status ≠ .arithmeticError := by
  unfold Search.finish
  cases search.best with
  | some best => simp [Search.failed]
  | none =>
    simp only [Search.failed, Search.emptyStatus]
    split_ifs <;> simp

/-- A result without a quote is right when there is no candidate. -/
theorem Search.failed_optimal {task : SizingTask 2} (hnone : ∀ order, ¬task.Candidate order)
    (search : Search) (status : SizingStatus) :
    ((search.failed status).quote.isSome ↔ ∃ order, task.Candidate order) ∧
      ∀ pair ∈ (search.failed status).quote, task.Optimal pair.order ∧
        pair.netMargin = pair.order.margin 10000 ∧ pair.payoutFloor = pair.quantity * 10000 :=
  ⟨iff_of_false (by simp [Search.failed]) fun ⟨order, ho⟩ => hnone order ho,
    fun pair hpair => absurd hpair (by simp [Search.failed])⟩

end Search

section PairSearch

variable {depth : Fin 2 → BuyDepth} {limits : SizingLimits}

/-- **The start of the search.** No level is passed, and the first stretch starts at one step. -/
theorem start_spec (hl : limits.Valid) (hd : ∀ leg, (depth leg).Valid) {search : Search}
    (hsearch : search =
      { limits, cursors := ![.start (depth 0) limits, .start (depth 1) limits] }) :
    search.Tracks depth limits ∧
      (∀ leg, (search.cursors leg).Follows (depth leg) limits [] []) ∧
      search.seek.1.AtFirst limits limits.step.raw := by
  have hstep : 0 < limits.step.raw := by have := hl.2.1; omega
  subst hsearch
  set search : Search :=
    { limits, cursors := ![.start (depth 0) limits, .start (depth 1) limits] }
  have hfollows : ∀ leg, (search.cursors leg).Follows (depth leg) limits [] [] :=
    Fin.forall_fin_two.mpr ⟨Cursor.start_follows (hd 0), Cursor.start_follows (hd 1)⟩
  have ht : search.Tracks depth limits := ⟨rfl, fun leg => ⟨_, _, hfollows leg⟩⟩
  have hpassed (leg : Fin 2) : (search.seek.1.cursors leg).passed.quantity = 0 :=
    ((search.seek_spec hl ht).2.2.1 leg).1.trans (hfollows leg).quantity.symm
  exact ⟨ht, hfollows, dvd_rfl, hstep, fun leg => (hpassed leg).symm ▸ hstep,
    fun leg => Or.inl (by rw [hpassed leg, Nat.zero_add])⟩

/-- The search runs out of its budget without a quote, or finds the optimum. -/
theorem sizeBuyPair_cases (hl : limits.Valid) (hd : ∀ leg, (depth leg).Valid) :
    ((sizeBuyPair depth limits).status = .searchBudgetExceeded ∧
      (sizeBuyPair depth limits).quote = none) ∨
    ((sizeBuyPair depth limits).status ≠ .searchBudgetExceeded ∧
      ((sizeBuyPair depth limits).quote.isSome ↔
        ∃ order, (pairTask depth limits).Candidate order) ∧
      ∀ pair ∈ (sizeBuyPair depth limits).quote, (pairTask depth limits).Optimal pair.order ∧
        pair.netMargin = pair.order.margin 10000 ∧ pair.payoutFloor = pair.quantity * 10000) := by
  unfold sizeBuyPair
  rw [if_pos ⟨hl, hd 0, hd 1⟩]
  set search : Search :=
    { limits, cursors := ![.start (depth 0) limits, .start (depth 1) limits] } with hsearch
  obtain ⟨ht, hfollows, hfirst⟩ := start_spec hl hd hsearch
  obtain ⟨htracks, hbest, hpassed, hexhausted, hlevel⟩ := search.seek_spec hl ht
  unfold Search.run
  rcases hseek : search.seek with ⟨sought, found⟩
  rw [hseek] at htracks hbest hpassed hexhausted hlevel hfirst
  dsimp only at htracks hbest hpassed hexhausted hlevel hfirst ⊢
  cases found with
  | false =>
    obtain ⟨leg, hlevels⟩ := hexhausted rfl
    refine Or.inr ⟨by simp [Search.failed], sought.failed_optimal (fun order ho => ?_) _⟩
    refine sought.not_candidate_of_exhausted hl hd htracks hlevels ho ?_
    rw [(hpassed leg).1, ← (hfollows leg).quantity]
    exact ho.pos
  | true =>
    simp only [Bool.not_true, Bool.false_eq_true, if_false]
    by_cases hprice : (sought.cursors 0).price.raw + (sought.cursors 1).price.raw ≥ 10000
    · rw [if_pos hprice]
      refine Or.inr ⟨by simp [Search.failed], sought.failed_optimal (fun order ho => ?_) _⟩
      -- A dollar before fees leaves no margin.
      have hdebit (leg : Fin 2) :
          order.quantity * (sought.cursors leg).price.raw ≤ (order.legs leg).debit := by
        rw [(hlevel rfl leg).1]
        exact ((hfollows leg).seek hl).mul_price_le
          ((pairTask_valid hl hd).reservable leg ho.dvd ho.le_cap)
          (limits.le_gridCap ho.dvd ho.le_cap) (ho.built leg)
      have hmargin := ho.margin_lt
      have hdollar := Nat.mul_le_mul_left order.quantity hprice
      rw [Nat.mul_add] at hdollar
      have hdebit0 := hdebit 0
      have hdebit1 := hdebit 1
      simp only [LegOrder.margin, Fin.sum_univ_two, pairTask] at hmargin
      omega
    · rw [if_neg hprice, htracks.limits_eq]
      rcases Search.loop_covers hl hd _ false htracks hfirst (Nat.lt_succ_self _)
          (Search.covers_of_best_none hbest) with ⟨out, hfail⟩ | ⟨other, funded, hloop, hall⟩
      · rw [hfail]
        exact Or.inl ⟨rfl, rfl⟩
      · rw [hloop]
        exact Or.inr ⟨(other.finish_status funded).1, Search.finish_optimal hall funded⟩

/-- Input that is quoted is valid, and the quote is the optimum. -/
theorem sizeBuyPair_quote {pair : SizedPair} (h : (sizeBuyPair depth limits).quote = some pair) :
    limits.Valid ∧ (∀ leg, (depth leg).Valid) ∧ (pairTask depth limits).Optimal pair.order := by
  have hall : limits.Valid ∧ (depth 0).Valid ∧ (depth 1).Valid := by
    by_contra hinvalid
    rw [sizeBuyPair, if_neg hinvalid] at h
    exact absurd h (by simp)
  have hd : ∀ leg, (depth leg).Valid := Fin.forall_fin_two.mpr hall.2
  refine ⟨hall.1, hd, ?_⟩
  rcases sizeBuyPair_cases hall.1 hd with ⟨-, hnone⟩ | ⟨-, -, hoptimal⟩
  · exact absurd (hnone.symm.trans h) (by simp)
  · exact (hoptimal pair h).1

end PairSearch

/-- **The pair search is an exhaustive search.** On valid input, unless the search budget runs
out, a quote is returned exactly when there is a candidate, and it is the candidate with the
largest margin, ties broken by the smaller reservation and then the smaller quantity, with each
leg as built from scratch. When the budget runs out there is no quote. -/
theorem sizeBuyPair_exhaustive {depth : Fin 2 → BuyDepth} {limits : SizingLimits}
    (hl : limits.Valid) (hd : ∀ leg, (depth leg).Valid) :
    ((sizeBuyPair depth limits).status = .searchBudgetExceeded →
      (sizeBuyPair depth limits).quote = none) ∧
    ((sizeBuyPair depth limits).status ≠ .searchBudgetExceeded →
      ((sizeBuyPair depth limits).quote.isSome ↔
        ∃ order, (pairTask depth limits).Candidate order) ∧
      ∀ pair ∈ (sizeBuyPair depth limits).quote, (pairTask depth limits).Optimal pair.order ∧
        pair.netMargin = pair.order.margin 10000 ∧ pair.payoutFloor = pair.quantity * 10000) := by
  rcases sizeBuyPair_cases hl hd with ⟨hbudget, hnone⟩ | ⟨hbudget, hfound⟩
  · exact ⟨fun _ => hnone, fun hne => absurd hbudget hne⟩
  · exact ⟨fun h => absurd h hbudget, fun _ => hfound⟩

/-- Two ladders at 40 and 45 cents, each with a thinner level at 60 cents behind. -/
def sampleDepth (leg : Fin 2) : BuyDepth where
  levels := [⟨⟨4000 + 500 * leg, by omega⟩, .capped 250⟩,
    ⟨.capped 6000, .capped 100⟩]
  fees := ⟨70000, 100⟩

def sampleLimits : SizingLimits where
  cap := .capped 300
  step := .capped 100
  available := .capped 10000000
  minimumMargin := .capped 0
  maxEvaluations := 10

/-- On the sample ladders two contracts are the optimum. -/
theorem sizeBuyPair_exhaustive_sample :
    ∃ pair ∈ (sizeBuyPair sampleDepth sampleLimits).quote, pair.quantity = 200 ∧
      (pairTask sampleDepth sampleLimits).Optimal pair.order := by
  have hlimits : sampleLimits.Valid := by decide
  have hdepth : ∀ leg, (sampleDepth leg).Valid := by decide
  have hspec := sizeBuyPair_exhaustive hlimits hdepth
  have hquantity : (sizeBuyPair sampleDepth sampleLimits).quote.map SizedPair.quantity =
      some 200 := by decide +kernel
  obtain ⟨pair, hpair, hq⟩ := Option.map_eq_some_iff.mp hquantity
  exact ⟨pair, hpair, hq, ((hspec.2 (by decide +kernel)).2 pair hpair).1⟩

end EventMarket.Core
