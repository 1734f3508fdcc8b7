import EventMarket.Book.BookIntegrity
import EventMarket.Session.DepthPreparation

/-!
# What a quote promises and what its order fills

The quote of a pair is searched on prepared ladders, its orders walk the levels of the books at
their arrival. When neither the books nor what was taken from them changed in between, and all that
is shown can be filled, each order fills exactly what the quote said.

## Main results

* `shownLevels_ascending`: the levels of a book ascend in the price of the outcome.
* `walkLevels_of_charged`: a walk through the levels that a ladder was prepared from.
* `walk_fills_quote`: an order fills the quantity, the debit and the limit of its quote.
-/

namespace EventMarket.Session

open Book Constraint Core Foundations Market

/-! ### The levels of a book -/

/-- The levels of a book ascend in the price of the outcome that they sell. -/
theorem visibleLevels_ascending (book : OrderBook) (yes : Bool) :
    (book.visibleLevels (if yes then .ask else .bid)).Pairwise fun first second =>
      (outcomePrice yes first.price).raw < (outcomePrice yes second.price).raw := by
  unfold OrderBook.visibleLevels
  by_cases hvalid : book.state ≠ .valid
  · rw [if_pos hvalid]
    exact List.Pairwise.nil
  rw [if_neg hvalid]
  cases yes with
  | true => exact OrderBook.storedLevels_ascending book.asks
  | false =>
    refine List.pairwise_reverse.mpr
      ((OrderBook.storedLevels_ascending book.bids).imp fun {first second} h => ?_)
    have hfirst := first.price.le_scale
    have hsecond := second.price.le_scale
    simp only [outcomePrice, Bool.false_eq_true, if_false, Price.complement, Price.scale]
    omega

theorem shownLevels_ascending (state : MarketState) (marketId : MarketId) (yes : Bool) :
    (shownLevels state marketId (if yes then .ask else .bid)).Pairwise fun first second =>
      (outcomePrice yes first.price).raw < (outcomePrice yes second.price).raw := by
  unfold shownLevels
  cases state.findBook marketId with
  | none => exact List.Pairwise.nil
  | some book => exact visibleLevels_ascending book yes

/-! ### Walks -/

section Walk

variable {cap step quantity total offered : ℕ}

/-- What a walk fills at a level is what the order takes of the prepared level. -/
theorem fill_eq_take (hdvd : step ∣ total) (hdvd' : step ∣ quantity) (hcap : quantity ≤ cap)
    (hlimit : cap ≤ quantityLimit) :
    min (min offered quantityLimit) (quantity - total) / step * step =
      min (quantity - total) (min offered (cap - total) / step * step) := by
  obtain ⟨steps, rfl⟩ := hdvd
  obtain ⟨count, rfl⟩ := hdvd'
  rcases Nat.eq_zero_or_pos step with rfl | hstep
  · simp
  have hcount : count ≤ cap / step := (Nat.le_div_iff_mul_le hstep).mpr (by rwa [mul_comm])
  have hrest : step * count - step * steps = (count - steps) * step := by
    rw [← Nat.mul_sub, mul_comm]
  have hsmall : min (min offered quantityLimit) (step * count - step * steps) =
      min offered (step * count - step * steps) := by omega
  calc min (min offered quantityLimit) (step * count - step * steps) / step * step
      = min (offered / step) (count - steps) * step := by
        rw [hsmall, sizingTake_eq, Nat.mul_div_cancel_left _ hstep]
    _ = min (count - steps) (min (offered / step) (cap / step - steps)) * step := by
        congr 1
        omega
    _ = min (step * count - step * steps) (min offered (cap - step * steps) / step * step) := by
        rw [sizingTake_eq, hrest, Nat.mul_min_mul_right]

variable {policy : StudyPolicy} {order : WalkOrder} {walk : Walk}

/-- An executed buy that may fill all that is shown. -/
structure WalkOrder.FullBuy (policy : StudyPolicy) (order : WalkOrder) : Prop where
  buys : order.sell = false
  executes : order.execute = true
  fill_all : policy.fillBps = 10000
  dvd : policy.quantityStep.raw ∣ order.quantity
  le_cap : order.quantity ≤ policy.quantityCap.raw
  cap_le : policy.quantityCap.raw ≤ quantityLimit

/-- The levels of a pair are levels that are shown. -/
theorem mem_sizingLevels {used : Price → ℕ} {yes : Bool} {shown : List Level} {level : BuyLevel}
    (hdvd : step ∣ total) (hlt : total < cap / step * step)
    (h : level ∈ sizingLevels cap step used yes shown total) :
    ∃ source ∈ shown, level.price = outcomePrice yes source.price := by
  have hprices := (@sizingLevels_agrees cap step total used yes shown hdvd hlt).2.prices.subset
    (List.mem_map_of_mem h)
  rw [netLevels, List.map_map] at hprices
  obtain ⟨source, hsource, hprice⟩ := List.mem_map.mp hprices
  exact ⟨source, hsource, hprice.symm⟩

namespace WalkOrder.FullBuy

theorem le_grid (h : order.FullBuy policy) : order.quantity ≤
    policy.quantityCap.raw / policy.quantityStep.raw * policy.quantityStep.raw :=
  (Nat.div_mul_cancel h.dvd).symm.le.trans
    (Nat.mul_le_mul_right _ (Nat.div_le_div_right h.le_cap))

theorem fillable_eq (h : order.FullBuy policy) {shown used filled : ℕ}
    (hdvd : policy.quantityStep.raw ∣ filled) :
    order.fillable policy shown used filled =
      min (order.quantity - filled) (min (shown - used) (policy.quantityCap.raw - filled) /
        policy.quantityStep.raw * policy.quantityStep.raw) := by
  rw [← fill_eq_take hdvd h.dvd h.le_cap h.cap_le]
  simp only [WalkOrder.fillable, WalkOrder.available, h.buys, h.executes, h.fill_all, if_true,
    Bool.false_eq_true, if_false]
  rw [Nat.mul_div_cancel _ (Nat.succ_pos _)]

theorem beyond_eq_false (h : order.FullBuy policy) {price : Price} (hle : price.raw ≤ order.limit) :
    order.beyond price = false := by
  simp [WalkOrder.beyond, h.buys, hle]

theorem key_eq (h : order.FullBuy policy) (price : Price) :
    order.key price = ⟨order.leg.marketId, order.leg.outcome, price.raw⟩ := by
  simp [WalkOrder.key, h.buys]

/-- A fill that can be charged. -/
theorem take_eq (h : order.FullBuy policy) {price : Price} {fill : ℕ} {charge : FillCharge}
    {middle : FeeAccumulator}
    (hcharge : chargeBuyFill fill price (policy.fees order.leg.marketId) walk.fees =
      some (charge, middle))
    (hroom : walk.consumed (order.key price) + fill ≤ int64Max) :
    ∃ next, walk.take policy order price fill = .ok next ∧
      next.execution.quantity = walk.execution.quantity + fill ∧
      next.execution.debit = walk.execution.debit + charge.debit ∧
      next.execution.worstPrice = price.raw ∧ next.fees = middle ∧
      next.consumed = Function.update walk.consumed (order.key price)
        (walk.consumed (order.key price) + fill) := by
  have hamounts : order.charge policy fill price walk.fees = .ok (⟨charge.notional,
      charge.tradeFee, charge.roundingFee, charge.rebate, charge.debit⟩, middle) := by
    unfold WalkOrder.charge
    rw [h.buys]
    simp only [hcharge, Bool.false_eq_true, if_false]
  unfold Walk.take
  rw [hamounts]
  dsimp only [Bind.bind, Except.bind]
  rw [if_pos h.executes, if_neg (not_lt.mpr hroom), h.buys]
  exact ⟨_, rfl, rfl, rfl, rfl, rfl, rfl⟩

/-- **A walk through the levels that a ladder was prepared from** fills the order that was built on
the ladder. The induction goes along the levels; so far the walk and the ladder have taken the same,
and what was taken from the levels ahead has not changed. -/
theorem walkLevels_of_charged (h : order.FullBuy policy) {shown : List Level} {used : Price → ℕ}
    {fills : List BuyFill} {charges : List FillCharge} {left : FeeAccumulator}
    (hascending : shown.Pairwise fun first second =>
      (legPrice order.leg first.price).raw < (legPrice order.leg second.price).raw)
    (hlt : walk.execution.quantity < order.quantity)
    (hdvd : policy.quantityStep.raw ∣ walk.execution.quantity)
    (hused : ∀ level ∈ shown, walk.consumed (order.key (legPrice order.leg level.price)) =
      used (legPrice order.leg level.price))
    (hfills : orderFills policy.quantityStep.raw (sizingLevels policy.quantityCap.raw
        policy.quantityStep.raw used order.leg.outcome.isYes shown walk.execution.quantity)
      (order.quantity - walk.execution.quantity) = some fills)
    (hcharges : chargeBuyFills (policy.fees order.leg.marketId) fills walk.fees =
      some (charges, left))
    (hprices : ∀ fill ∈ fills, fill.price.raw ≤ order.limit) :
    ∃ done, walkLevels policy order shown walk = .ok done ∧
      done.execution.quantity = order.quantity ∧
      done.execution.debit = walk.execution.debit + totalDebit charges ∧
      done.execution.worstPrice = (limitOf fills).raw := by
  induction shown generalizing walk fills charges with
  | nil =>
    rw [sizingLevels, orderFills, if_neg (Nat.sub_pos_of_lt hlt).ne'] at hfills
    exact absurd hfills (by simp)
  | cons level shown ih =>
    have hgrid : walk.execution.quantity <
        policy.quantityCap.raw / policy.quantityStep.raw * policy.quantityStep.raw :=
      hlt.trans_le (h.le_grid)
    have hgridRest := Nat.dvd_sub h.dvd hdvd
    have hpos := Nat.sub_pos_of_lt hlt
    -- The order ends on a level ahead, so the limit is not below this one.
    have hlevel : (legPrice order.leg level.price).raw ≤ order.limit := by
      obtain ⟨fill, hfill⟩ := List.exists_mem_of_ne_nil _ (orderFills_ne_nil hpos hfills)
      obtain ⟨-, ladder, hladder, hprice⟩ := orderFills_mem hgridRest hfills fill hfill
      obtain ⟨source, hsource, hsourcePrice⟩ := mem_sizingLevels hdvd hgrid hladder
      refine le_trans ?_ (hprices fill hfill)
      rw [hprice, hsourcePrice]
      rcases List.mem_cons.mp hsource with rfl | hsource
      · exact le_rfl
      · exact (List.rel_of_pairwise_cons hascending hsource).le
    rw [walkLevels]
    dsimp only
    rw [h.beyond_eq_false hlevel, if_neg Bool.false_ne_true, hused level List.mem_cons_self,
      h.fillable_eq hdvd]
    rw [sizingLevels] at hfills
    dsimp only at hfills
    have husedRest (other) (hother : other ∈ shown) := hused other (List.mem_cons_of_mem _ hother)
    obtain ⟨take, htake⟩ : ∃ take, min (level.quantity.raw - used (legPrice order.leg level.price))
        (policy.quantityCap.raw - walk.execution.quantity) / policy.quantityStep.raw *
          policy.quantityStep.raw = take := ⟨_, rfl⟩
    simp only [legPrice] at htake ⊢
    simp only [htake] at hfills ⊢
    rcases Nat.eq_zero_or_pos take with rfl | htakePos
    · rw [if_pos rfl, Nat.add_zero, if_pos hgrid] at hfills
      rw [Nat.min_zero, if_pos rfl]
      exact ih hascending.of_cons hlt hdvd husedRest hfills hcharges hprices
    rw [if_neg htakePos.ne'] at hfills
    have hdvdTake : policy.quantityStep.raw ∣ take := htake ▸ Dvd.intro_left _ rfl
    have hfloor : take / policy.quantityStep.raw * policy.quantityStep.raw = take :=
      Nat.div_mul_cancel hdvdTake
    have hshown : used (outcomePrice order.leg.outcome.isYes level.price) + take ≤ int64Max := by
      have hle : take ≤ level.quantity.raw -
        used (outcomePrice order.leg.outcome.isYes level.price) :=
        htake ▸ (Nat.div_mul_le_self _ _).trans (min_le_left _ _)
      have := level.quantity.le_max
      omega
    have hconsumed : walk.consumed (order.key (outcomePrice order.leg.outcome.isYes level.price)) =
        used (outcomePrice order.leg.outcome.isYes level.price) := hused level List.mem_cons_self
    rcases orderFills_cons_eq_some hpos hfills with
      ⟨hempty, -⟩ | ⟨hle, rfl⟩ | ⟨-, hmore, rest, hrest, rfl⟩
    · exact absurd (hfloor.symm.trans hempty) htakePos.ne'
    · -- The level completes the order.
      replace hle := hle.trans hfloor.le
      rw [min_eq_left hle, if_neg hpos.ne']
      obtain ⟨charge, middle, more, rfl, hcharge, hnone⟩ := chargeBuyFills_cons_eq_some hcharges
      cases hnone
      dsimp only at hcharge
      obtain ⟨next, hnext, hquantity, hdebit, hworst, -, -⟩ :=
        h.take_eq hcharge (by rw [hconsumed]; omega)
      have hdone : next.execution.quantity = order.quantity := by omega
      rw [hnext]
      refine ⟨next, if_neg (by rw [hdone]; exact lt_irrefl _), hdone, ?_, hworst⟩
      rw [hdebit, totalDebit_cons, totalDebit_nil, Nat.add_zero]
    · -- The level is taken whole, and the order goes on.
      dsimp only at hmore hrest hcharges hprices ⊢
      rw [hfloor] at hmore hrest hcharges hprices ⊢
      rw [min_eq_right hmore.le, if_neg htakePos.ne']
      obtain ⟨charge, middle, more, rfl, hcharge, hmoreCharges⟩ :=
        chargeBuyFills_cons_eq_some hcharges
      dsimp only at hcharge
      obtain ⟨next, hnext, hquantity, hdebit, hworst, rfl, hnextConsumed⟩ :=
        h.take_eq hcharge (by rw [hconsumed]; omega)
      have hltNext : next.execution.quantity < order.quantity := by omega
      rw [if_pos (by rw [← hquantity]; exact hltNext.trans_le h.le_grid), Nat.sub_sub, ← hquantity]
        at hrest
      have hnextUsed (other) (hother : other ∈ shown) :
          next.consumed (order.key (legPrice order.leg other.price)) =
            used (legPrice order.leg other.price) := by
        have hprice := List.rel_of_pairwise_cons hascending hother
        rw [hnextConsumed, Function.update_of_ne, husedRest other hother]
        rw [h.key_eq, h.key_eq]
        intro hkey
        exact absurd (congrArg LiquidityKey.price hkey) hprice.ne'
      obtain ⟨done, hdone, hdoneQuantity, hdoneDebit, hdoneWorst⟩ := ih hascending.of_cons hltNext
        (hquantity ▸ hdvd.add hdvdTake) hnextUsed hrest hmoreCharges
        fun fill hfill => hprices fill (List.mem_cons_of_mem _ hfill)
      rw [hnext]
      refine ⟨done, (if_pos hltNext).trans hdone, hdoneQuantity, ?_, ?_⟩
      · rw [hdoneDebit, hdebit, totalDebit_cons, Nat.add_assoc]
      · rw [hdoneWorst, limitOf_cons _ (orderFills_ne_nil (by omega) hrest)]

end WalkOrder.FullBuy

end Walk

/-- **A quote of a pair** is found on valid ladders and is the optimum there. -/
theorem optimalQuote_eq_ok {policy : StudyPolicy} {consumed : LiquidityKey → ℕ} {available : Cash}
    {counters counters' : SizingCounters} {legs : Fin 2 → PayoffLegTemplate} {state : MarketState}
    {quote : SizedPair}
    (h : optimalQuote policy consumed available counters legs state = .ok (.ok quote, counters')) :
    (sizeBuyPair (fun leg => sizingDepth policy consumed state (legs leg))
      (policy.limits available)).quote = some quote := by
  unfold optimalQuote at h
  dsimp only at h
  split at h
  · cases h
  split at h
  · rename_i hquote
    cases h
    exact hquote
  all_goals cases h

/-- The order of a leg, at the terms of its quote. -/
def quoteOrder (legs : Fin 2 → PayoffLegTemplate) (quote : SizedPair) (leg : Fin 2) :
    WalkOrder where
  leg := legs leg
  quantity := quote.quantity
  limit := (quote.legs leg).limit.raw
  execute := true

/-- **A decision's quote agrees with the execution at arrival.** For every pair of legs, every pair
of books and every consumption: when all that is shown can be filled, and neither the books of the
two markets nor what was taken from them has changed, the executed walk of each leg fills the
quantity of the quote at its debit, down to its limit. -/
theorem walk_fills_quote {policy : StudyPolicy} {consumed consumed' : LiquidityKey → ℕ}
    {available : Cash} {counters counters' : SizingCounters} {legs : Fin 2 → PayoffLegTemplate}
    {state state' : MarketState} {quote : SizedPair} (hbps : policy.fillBps = 10000)
    (hquote : optimalQuote policy consumed available counters legs state =
      .ok (.ok quote, counters'))
    (hbooks : ∀ leg, state'.findBook (legs leg).marketId = state.findBook (legs leg).marketId)
    (hconsumed : ∀ leg key, key.marketId = (legs leg).marketId → consumed' key = consumed key)
    (leg : Fin 2) :
    ∃ done, walk policy (quoteOrder legs quote leg) state' consumed' = .ok done ∧
      done.execution.quantity = quote.quantity ∧
      done.execution.debit = (quote.legs leg).debit ∧
      done.execution.worstPrice = (quote.legs leg).limit.raw := by
  obtain ⟨hlimits, hvalid, hoptimal⟩ := sizeBuyPair_quote (optimalQuote_eq_ok hquote)
  obtain ⟨hpos, hdvd, hcap, hbuilt⟩ := hoptimal.candidate.toBuilt
  obtain ⟨fills, charges, left, hfills, hcharges, -, hlimit, hdebit⟩ :=
    exists_of_buildOrder (hbuilt leg)
  have hfull : (quoteOrder legs quote leg).FullBuy policy :=
    ⟨rfl, rfl, hbps, hdvd, hcap, hlimits.1⟩
  have hside : (quoteOrder legs quote leg).side =
      if (legs leg).outcome.isYes then .ask else .bid := by
    simp only [WalkOrder.side, quoteOrder, Bool.bne_false]
  have hshown : shownLevels state' (legs leg).marketId (quoteOrder legs quote leg).side =
      shownLevels state (legs leg).marketId (if (legs leg).outcome.isYes then .ask else .bid) := by
    rw [hside, shownLevels, shownLevels, hbooks leg]
  have hlimit : (quote.legs leg).limit = limitOf fills := hlimit
  have hdebit : (quote.legs leg).debit = totalDebit charges := hdebit
  let start : Walk := { consumed := consumed' }
  let used : Price → ℕ := fun price => consumed ⟨(legs leg).marketId, (legs leg).outcome, price.raw⟩
  have hused (level) (_ : level ∈ shownLevels state (legs leg).marketId
      (if (legs leg).outcome.isYes then .ask else .bid)) :
      start.consumed ((quoteOrder legs quote leg).key (legPrice (legs leg) level.price)) =
        used (legPrice (legs leg) level.price) := by
    rw [hfull.key_eq]
    exact hconsumed leg ⟨_, _, _⟩ rfl
  have hprices (fill) (hfill : fill ∈ fills) : fill.price.raw ≤ (quote.legs leg).limit.raw := by
    rw [hlimit]
    exact le_limitOf (hvalid leg).2.2 hdvd hfills fill hfill
  have hlt : start.execution.quantity < (quoteOrder legs quote leg).quantity := hpos
  obtain ⟨done, hdone, hquantity, hdoneDebit, hworst⟩ := hfull.walkLevels_of_charged
    (shownLevels_ascending state (legs leg).marketId (legs leg).outcome.isYes) hlt
    (Nat.dvd_zero _) hused hfills hcharges hprices
  refine ⟨done, ?_, hquantity, ?_, hworst.trans (congrArg Price.raw hlimit.symm)⟩
  · unfold walk
    exact (congrArg (walkLevels policy _ · _) hshown).trans hdone
  · rw [hdoneDebit, hdebit]
    exact Nat.zero_add _

/-! ### A sample -/

def sampleStudyPolicy : StudyPolicy where
  optimalSizing := true
  maxSizingEvaluations := 1000
  capital := .capped 10000000
  operatingCost := 0
  quantityCap := .capped 500
  quantityStep := .capped 100
  minMargin := .capped 0
  maxAge := 1000
  latency := fun _ => 1
  reject := fun _ => false
  fillBps := 10000
  fees := fun _ => ⟨70000, 10000⟩

/-- YES of the first market and NO of the second. -/
def sampleLegs : Fin 2 → PayoffLegTemplate := ![⟨1, .yes⟩, ⟨2, .no⟩]

/-- Asks with too small a level between, and bids. -/
def sampleStudyState : MarketState :=
  let connected := (MarketState.openConnection {} 1).1
  let first := (connected.apply (.snapshot ⟨1, 1, 1, 1, 0, [],
    [⟨.capped 4000, .capped 250⟩, ⟨.capped 4100, .capped 40⟩,
      ⟨.capped 4200, .capped 900⟩]⟩)).1
  (first.apply (.snapshot ⟨2, 1, 2, 1, 0,
    [⟨.capped 5500, .capped 120⟩, ⟨.capped 5400, .capped 700⟩], []⟩)).1

/-- What was taken of the first level before. -/
def sampleConsumed (key : LiquidityKey) : ℕ := if key = ⟨1, .yes, 4000⟩ then 100 else 0

theorem walk_fills_quote_sample : ∃ quote counters,
    optimalQuote sampleStudyPolicy sampleConsumed sampleStudyPolicy.capital {} sampleLegs
      sampleStudyState = .ok (.ok quote, counters) ∧
    ∀ leg, ∃ done, walk sampleStudyPolicy (quoteOrder sampleLegs quote leg) sampleStudyState
        sampleConsumed = .ok done ∧
      done.execution.quantity = quote.quantity ∧
      done.execution.debit = (quote.legs leg).debit ∧
      done.execution.worstPrice = (quote.legs leg).limit.raw := by
  have hrun : (optimalQuote sampleStudyPolicy sampleConsumed sampleStudyPolicy.capital {} sampleLegs
      sampleStudyState).toOption.map (fun result => result.1.toOption.isSome) = some true := by
    decide +kernel
  cases hquote : optimalQuote sampleStudyPolicy sampleConsumed sampleStudyPolicy.capital {}
      sampleLegs sampleStudyState with
  | error error =>
    rw [hquote] at hrun
    cases hrun
  | ok result =>
    rw [hquote] at hrun
    obtain ⟨quote | quote, counters⟩ := result
    · cases hrun
    · exact ⟨quote, counters, rfl, fun leg =>
        walk_fills_quote rfl hquote (fun _ => rfl) (fun _ _ _ => rfl) leg⟩

end EventMarket.Session
