import EventMarket.Core.BasketSizing
import EventMarket.Core.SizingTask

/-!
# The basket enumeration is exhaustive

The enumeration of `EventMarket.Core.BasketSizing` stops early and keeps its costs incrementally.
This file proves that it returns the optimum over all whole numbers of contracts, that its
arithmetic never fails on valid input and that its diagnostic is the cost of one contract.

## Main definitions

* `basketTask`: the sizing task of three ladders.
* `BasketSearch.Tracks`, `BasketSearch.Covers`: what the loop keeps.

## Main results

* `CostCursor.at_spec`: the incremental cost is the cost from scratch.
* `BasketSearch.loop_spec`: what the loop returns.
* `sizeBuyBasket_exhaustive`: the enumeration and the exhaustive search agree.
-/

namespace EventMarket.Core

open Foundations

/-- The sizing task of a basket: two dollars a basket, whole contracts, fills of any size. -/
def basketTask (depth : Fin 3 → BuyDepth) (limits : SizingLimits) : SizingTask 3 where
  depth
  payout := 20000
  step := basketQuantityStep
  fillStep := 1
  cap := limits.cap.raw
  available := limits.available.raw
  minimumMargin := limits.minimumMargin.raw

def SizedBasket.order (basket : SizedBasket) : LegOrder 3 := ⟨basket.quantity, basket.legs⟩

/-- The basket that an order describes. -/
def LegOrder.toBasket (order : LegOrder 3) : SizedBasket where
  quantity := order.quantity
  legs := order.legs
  payoutFloor := order.quantity * 20000
  netMarginMicro := order.margin 20000

theorem basket_eq_toBasket (q : ℕ) (legs : Fin 3 → SizedLeg) :
    BasketSearch.basket q legs = LegOrder.toBasket ⟨q, legs⟩ := by
  simp only [BasketSearch.basket, LegOrder.toBasket, LegOrder.margin, Fin.sum_univ_three]
  push_cast
  rfl

variable {depth : Fin 3 → BuyDepth} {limits : SizingLimits} {search : BasketSearch} {q : ℕ}

theorem SizingLimits.ValidBasket.cap_le (hl : limits.ValidBasket) :
    limits.cap.raw ≤ quantityBound := by
  have := hl.2.1
  simp only [maximumBasketQuantity, quantityBound] at *
  omega

theorem basketTask_valid (hl : limits.ValidBasket) (hd : ∀ leg, (depth leg).ValidBasket) :
    (basketTask depth limits).Valid where
  fillStep_eq := Or.inl rfl
  fillStep_dvd := one_dvd _
  step_pos := Nat.succ_pos _
  cap_le := hl.cap_le
  fees_valid := fun leg => (hd leg).2.1
  ascending := fun leg => (hd leg).2.2.1

/-! ### Available depth -/

/-- Saturating at each level is saturating the sum. -/
theorem saturatedDepth_eq (cap : ℕ) (levels : List BuyLevel) :
    saturatedDepth cap levels = min cap (levels.map fun level => level.quantity.raw).sum := by
  have hfold : ∀ total ≤ cap, levels.foldl
      (fun total level => min cap (total + min level.quantity.raw cap)) total =
        min cap (total + (levels.map fun level => level.quantity.raw).sum) := by
    induction levels with
    | nil =>
      intro total hle
      simp [hle]
    | cons level levels ih =>
      intro total hle
      rw [List.foldl_cons, ih _ (min_le_left _ _), List.map_cons, List.sum_cons]
      omega
  rw [saturatedDepth, hfold 0 (Nat.zero_le _), Nat.zero_add]

/-- A quantity within the cap is available when every ladder can fill it. -/
theorem le_basketAvailable_iff (hq : q ≤ limits.cap.raw) :
    q ≤ basketAvailable depth limits.cap.raw ↔
      ∀ leg, (orderFills 1 (depth leg).levels q).isSome := by
  simp only [basketAvailable, saturatedDepth_eq, orderFills_isSome_iff, Nat.div_one, mul_one,
    Fin.forall_fin_succ, Fin.isEmpty.forall_iff, and_true]
  simp only [le_min_iff, hq, true_and, and_assoc]
  rfl

/-- A built order is available. -/
theorem le_basketAvailable_of_built (hl : limits.ValidBasket) (hd : ∀ leg, (depth leg).ValidBasket)
    {order : LegOrder 3} (ho : (basketTask depth limits).Built order) :
    order.quantity ≤ basketAvailable depth limits.cap.raw := by
  have hv := basketTask_valid hl hd
  refine (le_basketAvailable_iff ho.le_cap).mpr fun leg => ?_
  refine (buildOrder_isSome_iff (hv.ascending leg) (hv.reservable leg ho.dvd ho.le_cap)).mp ?_
  rw [ho.built leg]
  rfl

/-! ### Cursors -/

/-- Completing the levels before a quantity leaves the level on which the quantity ends. -/
theorem CostCursor.complete_spec {depth : BuyDepth} {bound : ℕ} (hfee : depth.fees.Valid)
    (hbound : bound ≤ quantityBound) (hq : q ≤ bound) {levels : List BuyLevel} :
    ∀ {passed : CostPrefix} {fills : List BuyFill} {charges : List FillCharge},
      passed.Follows depth 1 bound levels fills charges → passed.quantity < q →
      (∀ level ∈ levels, level.quantity.raw ≠ 0) →
      (orderFills 1 levels (q - passed.quantity)).isSome →
      ∃ level rest next fills charges,
        complete depth.fees q levels passed = some (level :: rest, next) ∧
        next.Follows depth 1 bound (level :: rest) fills charges ∧ next.quantity < q ∧
        q - next.quantity ≤ level.quantity.raw ∧
        ∀ level' ∈ level :: rest, level'.quantity.raw ≠ 0 := by
  induction levels with
  | nil =>
    intro passed fills charges _ hlt _ hsome
    rw [orderFills_isSome_iff] at hsome
    simp only [List.map_nil, List.sum_nil] at hsome
    omega
  | cons level levels ih =>
    intro passed fills charges hf hlt hnonzero hsome
    unfold complete
    by_cases hless : level.quantity.raw < q - passed.quantity
    · rw [if_pos hless]
      have hpos : 0 < level.quantity.raw := Nat.pos_of_ne_zero (hnonzero level List.mem_cons_self)
      obtain ⟨charge, left, hcharge⟩ :=
        hf.exists_charge Nat.one_pos hfee level.price _ hpos (by omega)
      have hnext := hf.pass (by simpa using hpos)
        (show chargeBuyFill (level.quantity.raw / 1 * 1) level.price
        depth.fees passed.accumulator = some (charge, left) by simpa using hcharge)
      simp only [Nat.div_one, mul_one] at hnext
      rw [orderFills_isSome_iff, List.map_cons, List.sum_cons] at hsome
      simp only [hcharge, Option.bind_eq_bind, Option.bind_some]
      refine ih hnext (by simp only [CostPrefix.pass]; omega)
        (fun level' hmem => hnonzero level' (List.mem_cons_of_mem _ hmem)) ?_
      rw [orderFills_isSome_iff]
      simp only [CostPrefix.pass, Nat.div_one, mul_one] at hsome ⊢
      omega
    · rw [if_neg hless]
      exact ⟨level, levels, passed, fills, charges, rfl, hf, hlt, not_lt.mp hless, hnonzero⟩

/-- The cursor of a leg stands before the quantity `q`. -/
structure CostCursor.Before (depth : BuyDepth) (bound : ℕ) (cursor : CostCursor) (q : ℕ) :
    Prop where
  fees : cursor.fees = depth.fees
  follows : ∃ fills charges, cursor.passed.Follows depth 1 bound cursor.levels fills charges
  nonzero : ∀ level ∈ cursor.levels, level.quantity.raw ≠ 0
  lt : cursor.passed.quantity < q

theorem CostCursor.Before.mono {depth : BuyDepth} {bound q' : ℕ} {cursor : CostCursor}
    (h : cursor.Before depth bound q) (hle : q ≤ q') : cursor.Before depth bound q' :=
  { h with lt := h.lt.trans_le hle }

/-- **The incremental cost is the cost from scratch.** -/
theorem CostCursor.at_spec {depth : BuyDepth} {bound : ℕ} {cursor : CostCursor}
    (hfee : depth.fees.Valid) (hbound : bound ≤ quantityBound) (hq : q ≤ bound)
    (h : cursor.Before depth bound q) (hsome : (orderFills 1 depth.levels q).isSome) :
    ∃ leg next, cursor.at q = some (leg, next) ∧ buildOrder depth 1 q = some leg ∧
      next.Before depth bound q := by
  obtain ⟨fills, charges, hf⟩ := h.follows
  obtain ⟨level, rest, passed, fills', charges', hcomplete, hf', hlt, hle, hnonzero⟩ :=
    CostCursor.complete_spec hfee hbound hq hf h.lt h.nonzero
      (hf.orderFills_isSome h.lt.le hq hsome)
  have hr : Reservable q 1 depth.fees := ⟨hq.trans hbound, Or.inl rfl, one_dvd _, hfee⟩
  obtain ⟨charge, left, hcharge⟩ := hf'.exists_charge Nat.one_pos hfee level.price
    (q - passed.quantity) (by omega) (by omega)
  refine ⟨_, { cursor with levels := level :: rest, passed }, ?_,
    hf'.buildOrder_eq hr hlt hq (by simpa using hle) hcharge,
    ⟨h.fees, ⟨_, _, hf'⟩, hnonzero, hlt⟩⟩
  simp only [CostCursor.at, h.fees, hcomplete, hcharge, buyReservation_eq hr, Option.bind_eq_bind,
    Option.bind_some]

/-! ### The loop -/

/-- The cursors of the enumeration stand before the quantity `q`. -/
structure BasketSearch.Tracks (depth : Fin 3 → BuyDepth) (limits : SizingLimits)
    (search : BasketSearch) (q : ℕ) : Prop where
  limits_eq : search.limits = limits
  before : ∀ leg, (search.cursors leg).Before (depth leg) limits.cap.raw q

/-- **What the enumeration has covered.** -/
structure BasketSearch.Covers (depth : Fin 3 → BuyDepth) (limits : SizingLimits)
    (search : BasketSearch) (P : ℕ → Prop) : Prop where
  consistent : ∀ best ∈ search.best,
    best = best.order.toBasket ∧ search.bestReserve = best.order.reserve
  bestOn : BestOn (LegOrder.key 20000) ((basketTask depth limits).candidates P)
    (search.best.map SizedBasket.order)

/-- The diagnostic is the cost of one contract from scratch, when one can be built. -/
def DiagnosticExact (depth : Fin 3 → BuyDepth) (limits : SizingLimits)
    (diagnostic : Option SizedBasket) : Prop :=
  ∀ order, (basketTask depth limits).Built order → order.quantity = basketQuantityStep →
    diagnostic = some order.toBasket

theorem BasketSearch.Covers.congr {P Q : ℕ → Prop} (h : search.Covers depth limits P)
    (hPQ : ∀ order, (basketTask depth limits).Candidate order →
      (P order.quantity ↔ Q order.quantity)) : search.Covers depth limits Q where
  consistent := h.consistent
  bestOn := SizingTask.bestOn_congr h.bestOn hPQ

/-- **Evaluations are exact.** At an available quantity all legs are built from scratch. -/
theorem BasketSearch.evaluate_spec (hl : limits.ValidBasket) (hd : ∀ leg, (depth leg).ValidBasket)
    (ht : search.Tracks depth limits q) (hdvd : basketQuantityStep ∣ q) (hpos : 0 < q)
    (hq : q ≤ basketAvailable depth limits.cap.raw) :
    ∃ legs cursors, search.evaluate q = some (legs, cursors) ∧
      (basketTask depth limits).Built ⟨q, legs⟩ ∧
      ∀ leg, (cursors leg).Before (depth leg) limits.cap.raw q := by
  have hcap : q ≤ limits.cap.raw :=
    hq.trans (((min_le_left _ _).trans (min_le_left _ _)).trans (min_le_left _ _))
  have hsome := (le_basketAvailable_iff hcap).mp hq
  have hleg (leg : Fin 3) := CostCursor.at_spec (hd leg).2.1 hl.cap_le hcap (ht.before leg)
    (hsome leg)
  obtain ⟨leg0, cursor0, hat0, hbuild0, hbefore0⟩ := hleg 0
  obtain ⟨leg1, cursor1, hat1, hbuild1, hbefore1⟩ := hleg 1
  obtain ⟨leg2, cursor2, hat2, hbuild2, hbefore2⟩ := hleg 2
  refine ⟨![leg0, leg1, leg2], ![cursor0, cursor1, cursor2], ?_, ⟨hpos, hdvd, hcap, ?_⟩, ?_⟩
  · simp only [BasketSearch.evaluate, hat0, hat1, hat2, Option.bind_eq_bind, Option.bind_some]
  · intro leg
    fin_cases leg
    · exact hbuild0
    · exact hbuild1
    · exact hbuild2
  · intro leg
    fin_cases leg
    · exact hbefore0
    · exact hbefore1
    · exact hbefore2

/-- The comparison of the source is the comparison of keys. -/
theorem BasketSearch.improves_eq_true_iff {best : SizedBasket} {order : LegOrder 3}
    (hbest : search.best = some best)
    (hcons : best = best.order.toBasket ∧ search.bestReserve = best.order.reserve) :
    search.improves order.toBasket order.reserve = true ↔
      best.order.key 20000 < order.key 20000 := by
  have hmargin : best.netMarginMicro = best.order.margin 20000 := by
    conv_lhs => rw [hcons.1]
    rfl
  rw [LegOrder.key_lt_iff, LegOrder.Beats, ← hmargin, ← hcons.2]
  simp only [BasketSearch.improves, hbest, Bool.or_eq_true, Bool.and_eq_true, decide_eq_true_eq,
    beq_iff_eq, gt_iff_lt]
  rw [eq_comm (a := order.toBasket.netMarginMicro)]
  rfl

/-- Comparing a basket changes nothing but the best one. -/
theorem BasketSearch.consider_frame (search : BasketSearch) (value : SizedBasket) (reserve : ℕ) :
    (search.consider value reserve).limits = search.limits ∧
      (search.consider value reserve).cursors = search.cursors ∧
      (search.consider value reserve).oneContractDiagnostic = search.oneContractDiagnostic ∧
      (search.consider value reserve).evaluatedQuantities = search.evaluatedQuantities := by
  unfold consider
  split_ifs <;> exact ⟨rfl, rfl, rfl, rfl⟩

/-- **A considered basket is covered.** -/
theorem BasketSearch.Covers.consider {P : ℕ → Prop} {order : LegOrder 3}
    (h : search.Covers depth limits P) (hlimits : search.limits = limits)
    (hbuilt : (basketTask depth limits).Built order)
    (hfunded : order.reserve ≤ limits.available.raw) :
    (search.consider order.toBasket order.reserve).Covers depth limits
      fun q => P q ∨ q = order.quantity := by
  unfold BasketSearch.consider
  by_cases hmargin : order.margin 20000 > limits.minimumMargin.raw
  · have hinsert := (basketTask depth limits).bestOn_insert h.bestOn
      { hbuilt with
        funded := hfunded
        margin_lt := hmargin }
    have hkeep : keepBest (LegOrder.key 20000) (search.best.map SizedBasket.order) order =
        if search.improves order.toBasket order.reserve = true then some order
        else search.best.map SizedBasket.order := by
      cases hbest : search.best with
      | none => simp [BasketSearch.improves, hbest, keepBest]
      | some best =>
        simp only [search.improves_eq_true_iff hbest (h.consistent best hbest), keepBest,
          Option.map_some]
    have hgate : (order.toBasket.netMarginMicro > search.limits.minimumMargin.raw ∧
        search.improves order.toBasket order.reserve = true) ↔
        search.improves order.toBasket order.reserve = true := by
      rw [hlimits]
      exact and_iff_right hmargin
    simp only [basketTask] at hinsert
    rw [hkeep] at hinsert
    simp only [hgate]
    split_ifs at hinsert ⊢
    · refine ⟨fun best hbest => ?_, hinsert⟩
      obtain rfl := Option.some.inj hbest
      exact ⟨rfl, rfl⟩
    · exact ⟨h.consistent, hinsert⟩
  · have hgate : ¬(order.toBasket.netMarginMicro > search.limits.minimumMargin.raw ∧
        search.improves order.toBasket order.reserve = true) := by
      rw [hlimits]
      exact fun hboth => hmargin hboth.1
    rw [if_neg hgate]
    refine ⟨h.consistent, (basketTask depth limits).bestOn_union h.bestOn
      fun other ho hq => absurd ?_ hmargin⟩
    rw [← ho.eq_of_quantity hbuilt hq]
    exact ho.margin_lt

/-- **The loop covers everything.** From the quantity `q` on, with what lies before it covered, the
loop covers all candidates unless it runs out of budget. It never fails otherwise. -/
theorem BasketSearch.loop_spec (hl : limits.ValidBasket) (hd : ∀ leg, (depth leg).ValidBasket)
    (fuel : ℕ) : ∀ {search : BasketSearch} {q : ℕ}, search.Tracks depth limits q →
      basketQuantityStep ∣ q → 0 < q →
      basketAvailable depth limits.cap.raw < q + basketQuantityStep * fuel →
      search.Covers depth limits (· < q) →
      (DiagnosticExact depth limits search.oneContractDiagnostic ∨
        q = basketQuantityStep ∧ search.evaluatedQuantities ≠ limits.maxEvaluations) →
      (∃ out : BasketSearch,
        search.loop fuel (basketAvailable depth limits.cap.raw) q =
          .error (out.failed .searchBudgetExceeded) ∧
        DiagnosticExact depth limits out.oneContractDiagnostic) ∨
      ∃ other, search.loop fuel (basketAvailable depth limits.cap.raw) q = .ok other ∧
        other.Covers depth limits (fun _ => True) ∧
        DiagnosticExact depth limits other.oneContractDiagnostic := by
  have hstop {search : BasketSearch} {q : ℕ} (hcovers : search.Covers depth limits (· < q))
      (hend : basketAvailable depth limits.cap.raw < q) :
      search.Covers depth limits fun _ => True :=
    hcovers.congr fun order ho =>
      iff_of_true ((le_basketAvailable_of_built hl hd ho.toBuilt).trans_lt hend) trivial
  have hdiagnostic {search : BasketSearch} {q : ℕ}
      (hdiag : DiagnosticExact depth limits search.oneContractDiagnostic ∨
        q = basketQuantityStep ∧ search.evaluatedQuantities ≠ limits.maxEvaluations)
      (hend : basketAvailable depth limits.cap.raw < q) :
      DiagnosticExact depth limits search.oneContractDiagnostic := by
    rcases hdiag with hdiag | ⟨rfl, -⟩
    · exact hdiag
    · intro order ho hq
      have := le_basketAvailable_of_built hl hd ho
      omega
  induction fuel with
  | zero =>
    intro search q ht hdvd hpos hfuel hcovers hdiag
    rw [Nat.mul_zero, Nat.add_zero] at hfuel
    exact Or.inr ⟨search, rfl, hstop hcovers hfuel, hdiagnostic hdiag hfuel⟩
  | succ fuel ih =>
    intro search q ht hdvd hpos hfuel hcovers hdiag
    obtain rfl := ht.limits_eq
    unfold BasketSearch.loop
    by_cases hend : basketAvailable depth search.limits.cap.raw < q
    · exact Or.inr ⟨search, if_pos hend, hstop hcovers hend, hdiagnostic hdiag hend⟩
    rw [if_neg hend]
    by_cases hbudget : search.evaluatedQuantities = search.limits.maxEvaluations
    · refine Or.inl ⟨search, if_pos hbudget, ?_⟩
      exact hdiag.resolve_right fun h => h.2 hbudget
    rw [if_neg hbudget]
    obtain ⟨legs, cursors, heval, hbuilt, hbefore⟩ :=
      search.evaluate_spec hl hd ht hdvd hpos (not_lt.mp hend)
    have heval' : BasketSearch.evaluate
        { search with evaluatedQuantities := search.evaluatedQuantities + 1 } q =
          some (legs, cursors) := heval
    simp only [heval', basket_eq_toBasket]
    have hreserve : (legs 0).reservation + (legs 1).reservation + (legs 2).reservation =
        LegOrder.reserve ⟨q, legs⟩ := by
      simp [LegOrder.reserve, Fin.sum_univ_three]
    rw [hreserve]
    -- The search after the evaluation, before the funding check.
    set next : BasketSearch := { search with
      cursors
      evaluatedQuantities := search.evaluatedQuantities + 1
      oneContractDiagnostic := if q = basketQuantityStep then some (LegOrder.toBasket ⟨q, legs⟩)
        else search.oneContractDiagnostic } with hnext
    have hdiagnext : DiagnosticExact depth search.limits next.oneContractDiagnostic := by
      intro order ho hquantity
      by_cases hq : q = basketQuantityStep
      · rw [ho.eq_of_quantity hbuilt (hquantity.trans hq.symm)]
        exact if_pos hq
      · exact (if_neg hq).trans ((hdiag.resolve_right fun h => hq h.1) order ho hquantity)
    have hcoversnext : next.Covers depth search.limits (· < q) :=
      ⟨hcovers.consistent, hcovers.bestOn⟩
    by_cases hunfunded : search.limits.available.raw < LegOrder.reserve ⟨q, legs⟩
    · refine Or.inr ⟨next, if_pos hunfunded, hcoversnext.congr fun order ho => ?_, hdiagnext⟩
      refine iff_of_true ?_ trivial
      by_contra hge
      have hmono := hbuilt.reserve_mono (basketTask_valid hl hd) ho.toBuilt (not_lt.mp hge)
      have hfunded := ho.funded
      simp only [basketTask] at hfunded
      omega
    rw [if_neg hunfunded]
    have hconsider := hcoversnext.consider rfl hbuilt (not_lt.mp hunfunded)
    have hsame := next.consider_frame (LegOrder.toBasket ⟨q, legs⟩) (LegOrder.reserve ⟨q, legs⟩)
    refine ih ⟨hsame.1, fun leg => ?_⟩ (dvd_add hdvd dvd_rfl) (by omega) (by
      rw [Nat.mul_succ] at hfuel; omega) (hconsider.congr fun order ho => ?_)
      (Or.inl (hsame.2.2.1 ▸ hdiagnext))
    · rw [hsame.2.1]
      exact (hbefore leg).mono (Nat.le_add_right _ _)
    · -- Between two whole contracts there is no candidate.
      have hgrid := ho.dvd
      simp only [basketTask, basketQuantityStep] at hgrid hdvd ⊢
      omega

/-! ### The whole enumeration -/

/-- Before the first contract there is nothing to cover. -/
theorem BasketSearch.covers_of_best_none (hbest : search.best = none) :
    search.Covers depth limits (· < basketQuantityStep) where
  consistent := by simp [hbest]
  bestOn := by
    rw [hbest]
    refine (BestOn.empty _).congr fun order => iff_of_false (Set.notMem_empty _) ?_
    rintro ⟨ho, hlt⟩
    exact absurd (Nat.le_of_dvd ho.pos ho.dvd) (not_le.mpr hlt)

/-- The quote of an enumeration that has covered everything is the optimum. -/
theorem BasketSearch.finish_optimal (h : search.Covers depth limits fun _ => True) :
    (search.finish.quote.isSome ↔ ∃ order, (basketTask depth limits).Candidate order) ∧
      ∀ basket ∈ search.finish.quote, basket = basket.order.toBasket ∧
        (basketTask depth limits).Optimal basket.order := by
  obtain ⟨hsome, hoptimal⟩ := (basketTask depth limits).optimal_of_bestOn
    h.bestOn fun _ _ => trivial
  rw [← hsome]
  unfold BasketSearch.finish
  cases hbest : search.best with
  | none => simp [BasketSearch.failed]
  | some best =>
    refine ⟨by simp, fun basket hbasket => ?_⟩
    obtain rfl := Option.some.inj hbasket
    exact ⟨(h.consistent best hbest).1, hoptimal _ (by simp [hbest])⟩

theorem BasketSearch.finish_status (search : BasketSearch) :
    search.finish.status ≠ .searchBudgetExceeded ∧ search.finish.status ≠ .arithmeticError ∧
      search.finish.oneContractDiagnostic = search.oneContractDiagnostic := by
  unfold BasketSearch.finish
  cases search.best with
  | some best => simp [BasketSearch.failed]
  | none =>
    simp only [BasketSearch.failed]
    split_ifs <;> simp

/-- The enumeration runs out of its budget without a quote, or finds the optimum. -/
theorem sizeBuyBasket_cases (hl : limits.ValidBasket) (hd : ∀ leg, (depth leg).ValidBasket) :
    ((sizeBuyBasket depth limits).status = .searchBudgetExceeded ∧
      (sizeBuyBasket depth limits).quote = none ∧
      DiagnosticExact depth limits (sizeBuyBasket depth limits).oneContractDiagnostic) ∨
    ((sizeBuyBasket depth limits).status ≠ .arithmeticError ∧
      (sizeBuyBasket depth limits).status ≠ .searchBudgetExceeded ∧
      ((sizeBuyBasket depth limits).quote.isSome ↔
        ∃ order, (basketTask depth limits).Candidate order) ∧
      (∀ basket ∈ (sizeBuyBasket depth limits).quote, basket = basket.order.toBasket ∧
        (basketTask depth limits).Optimal basket.order) ∧
      DiagnosticExact depth limits (sizeBuyBasket depth limits).oneContractDiagnostic) := by
  unfold sizeBuyBasket
  rw [if_pos ⟨hl, hd 0, hd 1, hd 2⟩]
  by_cases hdepth : basketAvailable depth limits.cap.raw < basketQuantityStep
  · simp only [if_pos hdepth]
    -- One contract cannot be built, so nothing can.
    have hnone (order) (ho : (basketTask depth limits).Built order) : False := by
      have hstep := Nat.le_of_dvd ho.pos ho.dvd
      have hle := le_basketAvailable_of_built hl hd ho
      simp only [basketTask] at hstep
      omega
    exact Or.inr ⟨by simp, by simp, iff_of_false (by simp) fun ⟨order, ho⟩ =>
      hnone order ho.toBuilt, by simp, fun order ho => (hnone order ho).elim⟩
  · simp only [if_neg hdepth]
    set search : BasketSearch := { limits, cursors := fun leg => .start (depth leg) } with hsearch
    have ht : search.Tracks depth limits basketQuantityStep := ⟨rfl, fun leg =>
      ⟨rfl, ⟨_, _, CostPrefix.start_follows (hd leg).2.2.1⟩, (hd leg).2.2.2, Nat.succ_pos _⟩⟩
    have hfuel : basketAvailable depth limits.cap.raw < basketQuantityStep +
        basketQuantityStep * (basketAvailable depth limits.cap.raw / basketQuantityStep) := by
      have := Nat.lt_mul_div_succ (basketAvailable depth limits.cap.raw)
        (show 0 < basketQuantityStep by decide)
      rw [Nat.mul_succ] at this
      omega
    rcases BasketSearch.loop_spec hl hd _ ht dvd_rfl (by decide) hfuel
        (BasketSearch.covers_of_best_none rfl) (Or.inr ⟨rfl, hl.2.2.2.2.2.2.symm⟩) with
      ⟨out, hfail, hdiag⟩ | ⟨other, hloop, hall, hdiag⟩
    · rw [hfail]
      exact Or.inl ⟨rfl, rfl, hdiag⟩
    · rw [hloop]
      obtain ⟨hbudget, harithmetic, hsame⟩ := other.finish_status
      obtain ⟨hsome, hoptimal⟩ := other.finish_optimal hall
      exact Or.inr ⟨harithmetic, hbudget, hsome, hoptimal,
        fun order ho hq => hsame.trans (hdiag order ho hq)⟩

/-- Input that is quoted is valid, and the quote is the optimum. -/
theorem sizeBuyBasket_quote {basket : SizedBasket}
    (h : (sizeBuyBasket depth limits).quote = some basket) :
    limits.ValidBasket ∧ (∀ leg, (depth leg).ValidBasket) ∧ basket = basket.order.toBasket ∧
      (basketTask depth limits).Optimal basket.order := by
  have hall : limits.ValidBasket ∧ (depth 0).ValidBasket ∧ (depth 1).ValidBasket ∧
      (depth 2).ValidBasket := by
    by_contra hinvalid
    rw [sizeBuyBasket, if_neg hinvalid] at h
    exact absurd h (by simp)
  obtain ⟨hl, h0, h1, h2⟩ := hall
  have hd : ∀ leg, (depth leg).ValidBasket := Fin.forall_fin_succ.mpr
    ⟨h0, Fin.forall_fin_two.mpr ⟨h1, h2⟩⟩
  refine ⟨hl, hd, ?_⟩
  rcases sizeBuyBasket_cases hl hd with ⟨-, hnone, -⟩ | ⟨-, -, -, hoptimal, -⟩
  · exact absurd (hnone.symm.trans h) (by simp)
  · exact hoptimal basket h

/-- **The basket enumeration is an exhaustive search.** On valid input the arithmetic never fails;
unless the search budget runs out, a quote is returned exactly when there is a candidate, and it is
the candidate with the largest margin, ties broken by the smaller reservation and then the smaller
quantity, with each leg as built from scratch; when the budget runs out there is no quote; and the
diagnostic is the cost of one contract from scratch whenever one is available on all legs, funded
or not. -/
theorem sizeBuyBasket_exhaustive (hl : limits.ValidBasket) (hd : ∀ leg, (depth leg).ValidBasket) :
    (sizeBuyBasket depth limits).status ≠ .arithmeticError ∧
    ((sizeBuyBasket depth limits).status = .searchBudgetExceeded →
      (sizeBuyBasket depth limits).quote = none) ∧
    ((sizeBuyBasket depth limits).status ≠ .searchBudgetExceeded →
      ((sizeBuyBasket depth limits).quote.isSome ↔
        ∃ order, (basketTask depth limits).Candidate order) ∧
      ∀ basket ∈ (sizeBuyBasket depth limits).quote, basket = basket.order.toBasket ∧
        (basketTask depth limits).Optimal basket.order) ∧
    ∀ order, (basketTask depth limits).Built order → order.quantity = basketQuantityStep →
      (sizeBuyBasket depth limits).oneContractDiagnostic = some order.toBasket := by
  rcases sizeBuyBasket_cases hl hd with
    ⟨hbudget, hnone, hdiag⟩ | ⟨hfails, hbudget, hsome, hoptimal, hdiag⟩
  · exact ⟨by simp [hbudget], fun _ => hnone, fun hne => absurd hbudget hne, hdiag⟩
  · exact ⟨hfails, fun h => absurd h hbudget, fun _ => ⟨hsome, hoptimal⟩, hdiag⟩

/-- Three ladders at 60 to 62 cents. -/
def sampleBasketDepth (leg : Fin 3) : BuyDepth where
  levels := [⟨⟨6000 + 100 * leg, by omega⟩, ⟨150, by decide⟩⟩,
    ⟨⟨7000, by decide⟩, ⟨100, by decide⟩⟩]
  fees := ⟨70000, 100⟩

def sampleBasketLimits : SizingLimits where
  cap := ⟨300, by decide⟩
  step := ⟨100, by decide⟩
  available := ⟨10000000, by decide⟩
  minimumMargin := ⟨0, by decide⟩
  maxEvaluations := 10

/-- On the sample ladders one basket is the optimum. -/
theorem sizeBuyBasket_exhaustive_sample :
    ∃ basket ∈ (sizeBuyBasket sampleBasketDepth sampleBasketLimits).quote, basket.quantity = 100 ∧
      (basketTask sampleBasketDepth sampleBasketLimits).Optimal basket.order := by
  have hlimits : sampleBasketLimits.ValidBasket := by decide
  have hdepth : ∀ leg, (sampleBasketDepth leg).ValidBasket := by decide
  have hspec := sizeBuyBasket_exhaustive hlimits hdepth
  have hquantity : (sizeBuyBasket sampleBasketDepth sampleBasketLimits).quote.map
      SizedBasket.quantity = some 100 := by decide +kernel
  obtain ⟨basket, hbasket, hq⟩ := Option.map_eq_some_iff.mp hquantity
  exact ⟨basket, hbasket, hq, ((hspec.2.2.1 (by decide +kernel)).2 basket hbasket).2⟩

end EventMarket.Core
