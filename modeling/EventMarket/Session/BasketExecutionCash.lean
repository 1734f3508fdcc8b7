import EventMarket.Session.BasketExecutionSteps

/-!
# The cash ledger of a scenario

A scenario has what its buys and sales left of the capital, and its reservation is covered by that.
An attempt holds of every leg at most its quantity; while it buys, it holds all of the legs before
the current one and nothing of those after it.

## Main definitions

* `Attempt.Holds`, `Attempt.Ready`, `Attempt.Sound`: what an attempt holds.
* `Scenario.Funded`, `Scenario.Sound`: the ledger of a scenario.

## Main results

* `Lane.EventOutcome.sound`, `Lane.DecideOutcome.sound`, `Lane.CensorOutcome.sound`: every step
  keeps the ledger.
* `event_solvent`: no check of the ledger fails in an event.
-/

namespace EventMarket.Session

open Core Foundations Market

variable {policy : BasketExecutionPolicy} {books : MarketId → CachedBook} {index : ℕ}
  {time reserved : ℤ} {scenario next : Scenario} {attempt : Attempt} {rows : List ExecutionRow}

/-- An attempt at a basket of the screen holds of every leg at most its quantity. -/
structure Attempt.Holds (policy : BasketExecutionPolicy) (attempt : Attempt) : Prop where
  basket_mem : attempt.basket ∈ policy.basket.screen.baskets
  nonneg : ∀ leg, 0 ≤ attempt.holdings leg
  le_quantity : ∀ leg, attempt.holdings leg ≤ attempt.quantity

/-- An attempt that buys its current leg: it has sold nothing, holds all of the legs before and
nothing of those after. -/
structure Attempt.Buying (attempt : Attempt) : Prop where
  received_eq : attempt.received = 0
  earlier : ∀ leg < attempt.leg, attempt.holdings leg = attempt.quantity
  later : ∀ leg > attempt.leg, attempt.holdings leg = 0

/-- An attempt that is about to send the buy for its current leg. -/
structure Attempt.Ready (policy : BasketExecutionPolicy) (attempt : Attempt) : Prop
    extends attempt.Holds policy, attempt.Buying where
  current : attempt.holdings attempt.leg = 0

/-- The reservation of a buy that is on the way. -/
structure Attempt.Arriving (policy : BasketExecutionPolicy) (reserved : ℤ) (attempt : Attempt) :
    Prop where
  current : attempt.holdings attempt.leg = 0
  reserved_eq : reserved = attempt.reserve
  reservation : ∃ reserve, buyReservation attempt.quantity 1 attempt.limit
    (policy.fee (attempt.basket.markets attempt.leg)) = some reserve ∧ attempt.reserve = reserve

/-- What an open attempt holds, by its stage. -/
structure Attempt.Sound (policy : BasketExecutionPolicy) (reserved : ℤ) (attempt : Attempt) : Prop
    extends attempt.Holds policy where
  buying : attempt.stage = .buyArrival ∨ attempt.stage = .buyResponse → attempt.Buying
  arriving : attempt.stage = .buyArrival → attempt.Arriving policy reserved

/-- **The ledger.** The cash is what is left of the capital, and covers the reservation. -/
structure Scenario.Funded (policy : BasketExecutionPolicy) (scenario : Scenario) : Prop where
  cash_eq : scenario.cash = policy.capital - scenario.spent + scenario.received
  reserved_nonneg : 0 ≤ scenario.reserved
  reserved_le : scenario.reserved ≤ scenario.cash

structure Scenario.Sound (policy : BasketExecutionPolicy) (scenario : Scenario) : Prop
    extends scenario.Funded policy where
  attempt : ∀ attempt ∈ scenario.attempt, attempt.Sound policy scenario.reserved

/-! ### Leaving and buying -/

theorem nextHeld_eq_none {holdings : Fin 3 → ℤ} (h : Lane.nextHeld holdings 0 = none)
    (leg : Fin 3) :
    holdings leg = 0 := by
  have hnone := List.find?_eq_none.mp h leg (List.mem_finRange leg)
  simpa using hnone

theorem Attempt.Holds.sound_of_selling (h : attempt.Holds policy)
    (hstage : attempt.stage = .sellArrival ∨ attempt.stage = .sellResponse) :
    attempt.Sound policy reserved := by
  refine ⟨h, ?_, ?_⟩ <;> rcases hstage with hstage | hstage <;> simp [hstage]

/-- Leaving keeps the ledger. A residual only remains after a sale. -/
theorem Lane.ExitOutcome.sound {start : ℕ}
    (h : Lane.ExitOutcome index time scenario attempt start next rows)
    (hfunded : scenario.Funded policy) (hholds : attempt.Holds policy)
    (hstart : start = 0 ∨ attempt.stage = .sellResponse) : next.Sound policy := by
  cases h with
  | sells leg hleg =>
    refine ⟨⟨hfunded.cash_eq, hfunded.reserved_nonneg, hfunded.reserved_le⟩, ?_⟩
    rintro _ ⟨⟩
    exact Attempt.Holds.sound_of_selling ⟨hholds.basket_mem, hholds.nonneg, hholds.le_quantity⟩
      (.inl rfl)
  | residual hnone hheld =>
    refine ⟨⟨hfunded.cash_eq, hfunded.reserved_nonneg, hfunded.reserved_le⟩, ?_⟩
    rintro _ ⟨⟩
    rcases hstart with rfl | hstage
    · obtain ⟨leg, hleg⟩ := hheld
      exact absurd (nextHeld_eq_none hnone leg) hleg
    · exact hholds.sound_of_selling (.inr hstage)
  | exits hnone hspent =>
    exact ⟨⟨hfunded.cash_eq, hfunded.reserved_nonneg, hfunded.reserved_le⟩, fun _ h => nomatch h⟩
  | empties hnone hspent =>
    exact ⟨⟨hfunded.cash_eq, hfunded.reserved_nonneg, hfunded.reserved_le⟩, fun _ h => nomatch h⟩

/-- Without a reservation the ledger stands. -/
theorem Scenario.Funded.cash_nonneg (h : scenario.Funded policy) : 0 ≤ scenario.cash :=
  h.reserved_nonneg.trans h.reserved_le

theorem Lane.Leaves.sound {reason : String}
    (h : Lane.Leaves index time scenario attempt reason next rows)
    (hfunded : scenario.Funded policy) (hholds : attempt.Holds policy) : next.Sound policy := by
  obtain ⟨hexit⟩ := h
  refine hexit.sound ⟨hfunded.cash_eq, le_rfl, hfunded.cash_nonneg⟩ ?_ (.inl rfl)
  exact ⟨hholds.basket_mem, hholds.nonneg, hholds.le_quantity⟩

theorem Lane.BuyOutcome.sound (h : Lane.BuyOutcome policy index time scenario attempt next rows)
    (hfunded : scenario.Funded policy) (hready : attempt.Ready policy) : next.Sound policy := by
  cases h with
  | leaves reason aborts hleaves =>
    exact hleaves.sound ⟨hfunded.cash_eq, hfunded.reserved_nonneg, hfunded.reserved_le⟩
      hready.toHolds
  | submits limit reserve projected hreserve hle =>
    refine ⟨⟨hfunded.cash_eq, Int.natCast_nonneg _, hle⟩, ?_⟩
    rintro _ ⟨⟩
    refine ⟨⟨hready.basket_mem, hready.nonneg, hready.le_quantity⟩, fun _ => ?_, fun _ => ?_⟩
    · exact ⟨hready.received_eq, hready.earlier, hready.later⟩
    · exact ⟨hready.current, rfl, reserve, hreserve, rfl⟩

/-! ### Fills -/

/-- **A buy never costs more than its reservation**, which the cash covers. -/
theorem Scenario.Sound.buy_funded (h : scenario.Sound policy)
    (hattempt : scenario.attempt = some attempt) (hstage : attempt.stage = .buyArrival)
    {filled : Fill} (hfill : Lane.arrivingFill policy books scenario attempt false = .ok filled) :
    filled.cash ≤ attempt.reserve ∧ filled.cash ≤ scenario.cash := by
  have harriving := (h.attempt attempt hattempt).arriving hstage
  obtain ⟨reserve, hreserve, hattemptReserve⟩ := harriving.reservation
  have hreservable := buyReservation_eq_some hreserve
  have hamount := (buyReservation_eq hreservable).symm.trans hreserve
  have hle : filled.cash ≤ reserve := by
    rw [← Option.some.inj hamount]
    exact buy_cash_le hreservable hfill
  have hcovered := h.reserved_le
  rw [harriving.reserved_eq] at hcovered
  omega

theorem buys_sound (h : scenario.Sound policy) (hattempt : scenario.attempt = some attempt)
    (hstage : attempt.stage = .buyArrival) {filled : Fill}
    (hfill : Lane.arrivingFill policy books scenario attempt false = .ok filled) :
    Scenario.Sound policy { scenario with
      consumed := Lane.consumedBy scenario attempt false filled
      cash := scenario.cash - filled.cash
      spent := scenario.spent + filled.cash
      reserved := attempt.reserve - filled.cash
      attempt := some (Lane.boughtAttempt scenario.delay attempt filled) } := by
  have hsound := h.attempt attempt hattempt
  have hbuying := hsound.buying (.inl hstage)
  have harriving := hsound.arriving hstage
  have hfunded := h.buy_funded hattempt hstage hfill
  have hcash := h.cash_eq
  have hcovered := h.reserved_le
  rw [harriving.reserved_eq] at hcovered
  have hquantity : filled.quantity ≤ attempt.quantity := (fillLevels_taken hfill).quantity_le
  refine ⟨⟨?_, ?_, ?_⟩, ?_⟩
  · dsimp only
    omega
  · dsimp only
    omega
  · dsimp only
    omega
  rintro _ ⟨⟩
  refine ⟨⟨hsound.basket_mem, fun leg => ?_, fun leg => ?_⟩, fun _ => ⟨hbuying.received_eq, ?_, ?_⟩,
    fun h => nomatch h⟩
  · rcases eq_or_ne leg attempt.leg with rfl | hne
    · simp only [Lane.boughtAttempt, Function.update_self, harriving.current]
      omega
    · simpa only [Lane.boughtAttempt, Function.update_of_ne hne] using hsound.nonneg leg
  · rcases eq_or_ne leg attempt.leg with rfl | hne
    · simp only [Lane.boughtAttempt, Function.update_self, harriving.current]
      omega
    · simpa only [Lane.boughtAttempt, Function.update_of_ne hne] using hsound.le_quantity leg
  · intro leg hleg
    exact (Function.update_of_ne hleg.ne _ _).trans (hbuying.earlier leg hleg)
  · intro leg hleg
    exact (Function.update_of_ne hleg.ne' _ _).trans (hbuying.later leg hleg)

theorem sells_sound (h : scenario.Sound policy) (hattempt : scenario.attempt = some attempt)
    {filled : Fill}
    (hfill : Lane.arrivingFill policy books scenario attempt true = .ok filled) :
    Scenario.Sound policy { scenario with
      consumed := Lane.consumedBy scenario attempt true filled
      cash := scenario.cash + filled.cash
      received := scenario.received + filled.cash
      attempt := some (Lane.soldAttempt scenario.delay attempt filled) } := by
  have hsound := h.attempt attempt hattempt
  have hcash := h.cash_eq
  have hquantity : filled.quantity ≤ (attempt.holdings attempt.leg).toNat :=
    (fillLevels_taken hfill).quantity_le
  have hheld := hsound.nonneg attempt.leg
  refine ⟨⟨?_, h.reserved_nonneg, h.reserved_le.trans ?_⟩, ?_⟩
  · dsimp only
    omega
  · dsimp only
    omega
  rintro _ ⟨⟩
  refine Attempt.Holds.sound_of_selling ⟨hsound.basket_mem, fun leg => ?_, fun leg => ?_⟩ (.inr rfl)
  · rcases eq_or_ne leg attempt.leg with rfl | hne
    · simp only [Lane.soldAttempt, Function.update_self]
      omega
    · simpa only [Lane.soldAttempt, Function.update_of_ne hne] using hsound.nonneg leg
  · have hle := hsound.le_quantity leg
    rcases eq_or_ne leg attempt.leg with rfl | hne
    · simp only [Lane.soldAttempt, Function.update_self]
      omega
    · simpa only [Lane.soldAttempt, Function.update_of_ne hne] using hle

/-! ### Events and decisions -/

/-- **An event keeps the ledger.** -/
theorem Lane.EventOutcome.sound
    (hevent : Lane.EventOutcome policy books index scenario attempt next rows)
    (h : scenario.Sound policy) (hattempt : scenario.attempt = some attempt) :
    next.Sound policy := by
  have hsound := h.attempt attempt hattempt
  have hreleased : Scenario.Funded policy { scenario with reserved := 0 } :=
    ⟨h.cash_eq, le_rfl, h.cash_nonneg⟩
  cases hevent with
  | buys filled hstage hfill => exact buys_sound h hattempt hstage hfill
  | sells filled hstage hfill => exact sells_sound h hattempt hfill
  | leaves hstage hshort hleaves => exact hleaves.sound hreleased hsound.toHolds
  | goesOn leg hstage hfull hleg hbuys =>
    have hbuying := hsound.buying (.inr hstage)
    refine hbuys.sound hreleased ⟨⟨hsound.basket_mem, hsound.nonneg, hsound.le_quantity⟩,
      ⟨hbuying.received_eq, fun other hother => ?_, fun other hother => ?_⟩, ?_⟩
    · rcases eq_or_ne other attempt.leg with rfl | hne
      · exact hfull
      · exact hbuying.earlier other (by dsimp only at hother; omega)
    · exact hbuying.later other (by dsimp only at hother; omega)
    · exact hbuying.later leg (by omega)
  | completes breaches hstage hfull hleg =>
    exact ⟨⟨h.cash_eq, le_rfl, h.cash_nonneg⟩, fun _ h => nomatch h⟩
  | exits hstage hexit => exact hexit.sound h.toFunded hsound.toHolds (.inr hstage)

theorem Lane.DecideOutcome.sound
    (hdecide : Lane.DecideOutcome policy index time scenario next rows)
    (h : scenario.Sound policy) : next.Sound policy := by
  cases hdecide with
  | stays busy rejected =>
    exact ⟨⟨h.cash_eq, h.reserved_nonneg, h.reserved_le⟩, h.attempt⟩
  | enters rejected quantity quoteMargin basket hbasket hidle hactive hbuys =>
    refine hbuys.sound ⟨h.cash_eq, h.reserved_nonneg, h.reserved_le⟩
      ⟨⟨hbasket, fun _ => le_rfl, fun _ => Int.natCast_nonneg _⟩, ⟨rfl, fun leg hleg => ?_,
        fun _ _ => rfl⟩, rfl⟩
    exact absurd hleg (Fin.not_lt_zero leg)

theorem Lane.CensorOutcome.sound {reason : String}
    (hcensor : Lane.CensorOutcome index time reason scenario next rows)
    (h : scenario.Sound policy) : next.Sound policy := by
  cases hcensor with
  | stays => exact h
  | censors attempt hattempt hactive =>
    exact ⟨⟨h.cash_eq, h.reserved_nonneg, h.reserved_le⟩, h.attempt⟩

/-- **No check of the ledger fails in an event.** -/
theorem event_solvent {lane : Lane} (h : lane.scenario.Sound policy)
    (hattempt : lane.scenario.attempt = some attempt) :
    Solvent (fun next => ∃ scenario rows, next = lane.goesTo scenario rows ∧
      Lane.EventOutcome policy books lane.index lane.scenario attempt scenario rows)
      (lane.event policy books) := by
  unfold Lane.event
  rw [hattempt]
  refine Yields.bind (Lane.handle_solvent fun hstage filled hfill =>
    h.buy_funded hattempt hstage hfill) fun next _ hnext => ?_
  obtain ⟨scenario, rows, rfl, hevent⟩ := hnext
  have hsound := hevent.sound h hattempt
  have hcheck : ¬(scenario.cash ≠ policy.capital - scenario.spent + scenario.received ∨
      scenario.cash < 0 ∨ scenario.reserved < 0 ∨ scenario.cash < scenario.reserved) := by
    have hcash := hsound.cash_eq
    have hnonneg := hsound.reserved_nonneg
    have hcovered := hsound.reserved_le
    omega
  unfold Lane.checkLedger
  dsimp only [Lane.goesTo]
  rw [if_neg hcheck]
  exact ⟨scenario, rows, rfl, hevent⟩

end EventMarket.Session
