import EventMarket.Session.LegacyLedger
import EventMarket.Session.LifecycleRun

/-!
# The reservations of the study

What an order may cost is reserved before it is sent. Its fills are not known then: they come from
later books, in any number and at any prices up to the limit. The reservation covers all of them,
so the checks of the study that compare a fill with its reservation never fail.

## Main definitions

* `Reserves`: the cash that the source reserves for an order.
* `Charged`: a walk has charged the fills of a buy.
* `Simulation.Grows`: a step keeps the terms of the orders, and reserves for the new ones.
* `LegacySimulation.Funded`: the orders of an attempt are reserved for.

## Main results

* `walk_debit_le`: a walk debits no more than what is reserved for its order.
* `selectQuote_reserved`: a quote comes with the reservations of its legs.
* `Simulation.Reached.funded`, `LegacySimulation.Reached.funded`: every order of a buy is reserved
  for, in every state that is reached.
* `reservations_cover_fills`: no order fills more than its reservation.
-/

namespace EventMarket.Session

open Constraint Core Foundations Market StudyPositions

/-- The cash that is reserved for an order at a limit. -/
def Reserves (policy : StudyPolicy) (leg : PayoffLegTemplate) (quantity limit reserve : ℕ) : Prop :=
  ∃ price : Price, price.raw = limit ∧ buyReservation quantity policy.quantityStep.raw price
    (policy.fees leg.marketId) = some reserve

/-! ### Walks -/

section Walk

variable {policy : StudyPolicy} {order : WalkOrder} {walk next : Walk} {price : Price} {fill : ℕ}
  {reserve : ℕ}

/-- A walk has charged the fills of a buy, on the grid and up to the limit. -/
def Charged (policy : StudyPolicy) (order : WalkOrder) (walk : Walk) : Prop :=
  ∃ fills charges, chargeBuyFills (policy.fees order.leg.marketId) fills {} =
      some (charges, walk.fees) ∧
    (∀ fill ∈ fills, 0 < fill.quantity ∧ policy.quantityStep.raw ∣ fill.quantity) ∧
    (∀ fill ∈ fills, fill.price.raw ≤ order.limit) ∧
    totalQuantity fills = walk.execution.quantity ∧ totalDebit charges = walk.execution.debit

/-- What one more fill of a buy does. -/
theorem take_buy (hbuy : order.sell = false) (h : walk.take policy order price fill = .ok next) :
    ∃ charge, chargeBuyFill fill price (policy.fees order.leg.marketId) walk.fees =
        some (charge, next.fees) ∧
      next.execution.quantity = walk.execution.quantity + fill ∧
      next.execution.debit = walk.execution.debit + charge.debit := by
  obtain ⟨⟨amounts, fees⟩, hcharge, h⟩ := bind_eq_ok h
  have hamounts : ∃ charge, chargeBuyFill fill price (policy.fees order.leg.marketId) walk.fees =
      some (charge, fees) ∧ amounts.change = charge.debit := by
    unfold WalkOrder.charge at hcharge
    rw [hbuy] at hcharge
    dsimp only at hcharge
    cases hfill : chargeBuyFill fill price (policy.fees order.leg.marketId) walk.fees with
    | none => rw [hfill] at hcharge; cases hcharge
    | some result =>
      obtain ⟨charge, left⟩ := result
      rw [hfill] at hcharge
      obtain ⟨rfl, rfl⟩ := Prod.mk.inj (Except.ok.inj hcharge)
      exact ⟨charge, rfl, rfl⟩
  obtain ⟨charge, hfill, hchange⟩ := hamounts
  have hdebit : (walk.execution.add order.sell fill price amounts).debit =
      walk.execution.debit + charge.debit := by
    rw [hbuy, ← hchange]
    rfl
  dsimp only at h
  split at h
  · split at h
    · cases h
    · obtain rfl := Except.ok.inj h
      exact ⟨charge, hfill, rfl, hdebit⟩
  · obtain rfl := Except.ok.inj h
    exact ⟨charge, hfill, rfl, hdebit⟩

theorem Charged.take (h : Charged policy order walk) (hbuy : order.sell = false)
    (hpos : 0 < fill) (hdvd : policy.quantityStep.raw ∣ fill) (hprice : price.raw ≤ order.limit)
    (hnext : walk.take policy order price fill = .ok next) : Charged policy order next := by
  obtain ⟨fills, charges, hcharges, hgrid, hprices, hquantity, hdebit⟩ := h
  obtain ⟨charge, hcharge, hnextQuantity, hnextDebit⟩ := take_buy hbuy hnext
  have hone : chargeBuyFills (policy.fees order.leg.marketId) [⟨fill, price⟩] walk.fees =
      some ([charge], next.fees) := by
    simp [chargeBuyFills, hcharge]
  refine ⟨fills ++ [⟨fill, price⟩], charges ++ [charge], ?_, ?_, ?_, ?_, ?_⟩
  · rw [chargeBuyFills_append, hcharges, Option.bind_some]
    dsimp only
    rw [hone]
    rfl
  · intro one hmem
    rcases List.mem_append.mp hmem with hold | hnew
    · exact hgrid one hold
    · rw [List.mem_singleton.mp hnew]
      exact ⟨hpos, hdvd⟩
  · intro one hmem
    rcases List.mem_append.mp hmem with hold | hnew
    · exact hprices one hold
    · rw [List.mem_singleton.mp hnew]
      exact hprice
  · rw [totalQuantity_append, hquantity, hnextQuantity]
    rfl
  · rw [totalDebit_append, hdebit, hnextDebit]
    rfl

/-- **A walk charges fills** on the grid, up to the limit. -/
theorem walkLevels_charged (hbuy : order.sell = false) (levels : List Book.Level)
    (h : Charged policy order walk) (hnext : walkLevels policy order levels walk = .ok next) :
    Charged policy order next := by
  induction levels generalizing walk with
  | nil =>
    obtain rfl := Except.ok.inj hnext
    exact h
  | cons level levels ih =>
    unfold walkLevels at hnext
    dsimp only at hnext
    split at hnext
    · obtain rfl := Except.ok.inj hnext
      exact h
    next hlimit =>
    split at hnext
    · exact ih h hnext
    next hfill =>
    obtain ⟨middle, hmiddle, hnext⟩ := bind_eq_ok hnext
    have hprice : (legPrice order.leg level.price).raw ≤ order.limit := by
      simpa [WalkOrder.beyond, hbuy] using hlimit
    have hcharged := h.take hbuy (Nat.pos_of_ne_zero hfill) (Nat.dvd_mul_left _ _) hprice hmiddle
    split at hnext
    · exact ih hcharged hnext
    · obtain rfl := Except.ok.inj hnext
      exact hcharged

/-- **A walk debits no more than what is reserved** for its order, whatever the book shows. -/
theorem walk_debit_le {state : MarketState} {consumed : LiquidityKey → ℕ}
    (hbuy : order.sell = false)
    (hreserves : Reserves policy order.leg order.quantity order.limit reserve)
    (h : Session.walk policy order state consumed = .ok next) :
    next.execution.debit ≤ reserve := by
  obtain ⟨limit, hlimit, hreserve⟩ := hreserves
  have hr := buyReservation_eq_some hreserve
  rw [buyReservation_eq hr] at hreserve
  have hstart : Charged policy order { consumed } :=
    ⟨[], [], rfl, by rintro _ ⟨⟩, by rintro _ ⟨⟩, rfl, rfl⟩
  obtain ⟨fills, charges, hcharges, hgrid, hprices, hquantity, hdebit⟩ :=
    walkLevels_charged hbuy _ hstart h
  have hle := (walk_spec policy order state consumed).of_ok h
  have hcovered := sum_debit_le hr
    ⟨hgrid, fun fill hmem => (hprices fill hmem).trans_eq hlimit.symm, hquantity.trans_le hle⟩
    hcharges
  rw [hdebit, Option.some.inj hreserve] at hcovered
  exact hcovered

end Walk

/-! ### Quotes -/

section Quote

variable {policy : StudyPolicy} {consumed : LiquidityKey → ℕ} {state : MarketState}
  {legs : Fin 2 → PayoffLegTemplate} {quantity price reserve : ℕ} {leg : PayoffLegTemplate}

theorem reservation_reserves (h : reservation policy leg quantity price = .ok reserve) :
    Reserves policy leg quantity price reserve := by
  unfold reservation at h
  cases hprice : Price.fromRaw price with
  | none => rw [hprice] at h; cases h
  | some limit =>
    rw [hprice, Option.bind_some] at h
    cases hreserve : buyReservation quantity policy.quantityStep.raw limit
        (policy.fees leg.marketId) with
    | none => rw [hreserve] at h; cases h
    | some amount =>
      rw [hreserve] at h
      obtain rfl := Except.ok.inj h
      exact ⟨limit, by exact_mod_cast Price.fromRaw_eq_some_iff.mp hprice, hreserve⟩

/-- The legs of a quote come with their reservations. -/
def Reserved (policy : StudyPolicy) (legs : Fin 2 → PayoffLegTemplate) (quantity : ℕ)
    (sized : Fin 2 → SizedLeg) : Prop :=
  ∀ leg, Reserves policy (legs leg) quantity (sized leg).limit.raw (sized leg).reservation

theorem sizeLeg_reserves {quote : Execution} {sized : SizedLeg}
    (h : sizeLeg policy leg quantity quote = .ok sized) :
    Reserves policy leg quantity sized.limit.raw sized.reservation := by
  unfold sizeLeg at h
  cases hprice : Price.fromRaw quote.worstPrice with
  | none => rw [hprice] at h; cases h
  | some limit =>
    rw [hprice] at h
    obtain ⟨amount, hamount, h⟩ := bind_eq_ok h
    obtain rfl := Except.ok.inj h
    have hraw : limit.raw = quote.worstPrice := by
      exact_mod_cast Price.fromRaw_eq_some_iff.mp hprice
    have hreserves := reservation_reserves hamount
    rw [← hraw] at hreserves
    exact hreserves

theorem sizeLegs_reserved {quotes : Fin 2 → Execution} {sized : Fin 2 → SizedLeg}
    (h : sizeLegs policy legs quantity quotes = .ok sized) :
    Reserved policy legs quantity sized := by
  obtain ⟨first, hfirst, h⟩ := bind_eq_ok h
  obtain ⟨second, hsecond, h⟩ := bind_eq_ok h
  obtain rfl := Except.ok.inj h
  exact Fin.forall_fin_two.mpr ⟨sizeLeg_reserves hfirst, sizeLeg_reserves hsecond⟩

theorem costedQuote_reserved {sized : Fin 2 → SizedLeg} {quote : SizedPair}
    (hsized : Reserved policy legs quantity sized)
    (h : costedQuote policy quantity sized = .ok quote) :
    Reserved policy legs quote.quantity quote.legs := by
  unfold costedQuote at h
  dsimp only at h
  split at h
  · cases h
  · obtain rfl := Except.ok.inj h
    exact hsized

theorem fundedQuote_reserved {available : ℤ} {sized : Fin 2 → SizedLeg} {quote : SizedPair}
    (hsized : Reserved policy legs quantity sized)
    (h : fundedQuote policy consumed state legs available quantity sized = .ok (.ok quote)) :
    Reserved policy legs quote.quantity quote.legs := by
  unfold fundedQuote at h
  split at h
  · exact costedQuote_reserved hsized (Except.ok.inj h)
  · dsimp only at h
    obtain ⟨steps, -, hrest⟩ := bind_eq_ok h
    split at hrest
    · cases hrest
    obtain ⟨found, hfound, hquote⟩ := bind_eq_ok hrest
    obtain ⟨first, -, hfound⟩ := bind_eq_ok hfound
    obtain ⟨second, -, hfound⟩ := bind_eq_ok hfound
    exact costedQuote_reserved (sizeLegs_reserved hfound) (Except.ok.inj hquote)

/-- **A quote comes with the reservations of its legs**, whichever search found it. -/
theorem selectQuote_reserved {available : ℤ} {counters counters' : SizingCounters}
    {quote : SizedPair}
    (h : selectQuote policy consumed state legs available counters = .ok (.ok quote, counters')) :
    Reserved policy legs quote.quantity quote.legs := by
  unfold selectQuote at h
  split at h
  · split at h
    · cases h
    next cash _ =>
    obtain ⟨-, -, hoptimal⟩ := sizeBuyPair_quote (optimalQuote_eq_ok h)
    obtain ⟨-, -, -, hbuilt⟩ := hoptimal.candidate.toBuilt
    intro leg
    obtain ⟨fills, charges, left, -, -, hreserve, hlimit, -⟩ := exists_of_buildOrder (hbuilt leg)
    exact ⟨limitOf fills, congrArg Price.raw hlimit.symm, hreserve⟩
  · cases hlegacy : legacyQuote policy consumed state legs available with
    | error failure => rw [hlegacy] at h; cases h
    | ok result =>
      rw [hlegacy] at h
      obtain ⟨rfl, -⟩ := Prod.mk.inj (Except.ok.inj h)
      unfold legacyQuote at hlegacy
      dsimp only at hlegacy
      obtain ⟨depth0, -, hlegacy⟩ := bind_eq_ok hlegacy
      obtain ⟨depth1, -, hlegacy⟩ := bind_eq_ok hlegacy
      split at hlegacy
      · cases hlegacy
      obtain ⟨quote0, -, hlegacy⟩ := bind_eq_ok hlegacy
      obtain ⟨quote1, -, hlegacy⟩ := bind_eq_ok hlegacy
      obtain ⟨sized, hsized, hlegacy⟩ := bind_eq_ok hlegacy
      exact fundedQuote_reserved (sizeLegs_reserved hsized) hlegacy

end Quote

/-! ### With a lifecycle -/

namespace Simulation

open Lifecycle

variable {study : LifecycleStudy} {self middle next : Simulation study} {index time now : ℕ}
  {state : MarketState} {due : Due}

/-- The cash of an order is reserved at its terms. -/
def Funded (self : Simulation study) (order : Order) : Prop :=
  ∃ attempt, self.attempts[order.attempt]? = some attempt ∧
    Reserves study.policy (attempt.legs order.leg) order.quantity order.limit order.reserve

/-- An order that is the same but for what happened to it. -/
structure SameTerms (old order : Order) : Prop where
  attempt : order.attempt = old.attempt
  leg : order.leg = old.leg
  quantity : order.quantity = old.quantity
  limit : order.limit = old.limit
  reserve : order.reserve = old.reserve
  sell : order.sell = old.sell

theorem SameTerms.refl (order : Order) : SameTerms order order := ⟨rfl, rfl, rfl, rfl, rfl, rfl⟩

theorem SameTerms.trans {first second third : Order} (h : SameTerms first second)
    (h' : SameTerms second third) : SameTerms first third where
  attempt := h'.attempt.trans h.attempt
  leg := h'.leg.trans h.leg
  quantity := h'.quantity.trans h.quantity
  limit := h'.limit.trans h.limit
  reserve := h'.reserve.trans h.reserve
  sell := h'.sell.trans h.sell

/-- **A step keeps the terms of the orders**, and reserves for the new ones. -/
structure Grows (current next : Simulation study) : Prop where
  attempts : ∀ (index : ℕ) (attempt : Lifecycle.Attempt),
    current.attempts[index]? = some attempt → ∃ attempt' : Lifecycle.Attempt,
      next.attempts[index]? = some attempt' ∧ attempt'.legs = attempt.legs
  orders : ∀ order ∈ next.orders, order.sell = false →
    (∃ old ∈ current.orders, SameTerms old order) ∨ next.Funded order

namespace Grows

theorem funded (h : self.Grows next) {old order : Order} (hfunded : self.Funded old)
    (hterms : SameTerms old order) : next.Funded order := by
  obtain ⟨attempt, hattempt, hreserves⟩ := hfunded
  obtain ⟨attempt', hattempt', hlegs⟩ := h.attempts _ _ hattempt
  refine ⟨attempt', by rw [hterms.attempt, hattempt'], ?_⟩
  rw [hlegs, hterms.leg, hterms.quantity, hterms.limit, hterms.reserve]
  exact hreserves

theorem of_eq (hattempts : next.attempts = self.attempts) (horders : next.orders = self.orders) :
    self.Grows next where
  attempts := fun index attempt h => ⟨attempt, by rw [hattempts, h], rfl⟩
  orders := fun order hmem _ => .inl ⟨order, horders ▸ hmem, .refl order⟩

theorem trans (h : self.Grows middle) (h' : middle.Grows next) : self.Grows next where
  attempts := by
    intro index attempt hattempt
    obtain ⟨attempt', hattempt', hlegs⟩ := h.attempts index attempt hattempt
    obtain ⟨attempt'', hattempt'', hlegs'⟩ := h'.attempts index attempt' hattempt'
    exact ⟨attempt'', hattempt'', hlegs'.trans hlegs⟩
  orders := by
    intro order hmem hbuy
    rcases h'.orders order hmem hbuy with ⟨old, hold, hterms⟩ | hfunded
    · rcases h.orders old hold (hterms.sell.symm.trans hbuy) with ⟨first, hfirst, hterms'⟩ | hold
      · exact .inl ⟨first, hfirst, hterms'.trans hterms⟩
      · exact .inr (h'.funded hold hterms)
    · exact .inr hfunded

theorem setOrder {order : Order} (h : SameTerms (self.order index) order) :
    self.Grows (self.setOrder index order) where
  attempts := fun index attempt h => ⟨attempt, h, rfl⟩
  orders := by
    intro other hmem _
    rcases Nat.lt_or_ge index self.orders.length with hlt | hge
    · rcases List.mem_or_eq_of_mem_set hmem with hold | rfl
      · exact .inl ⟨other, hold, .refl other⟩
      · refine .inl ⟨self.order index, ?_, h⟩
        have hat : self.order index = self.orders[index] := by
          unfold Simulation.order
          rw [List.getD_eq_getElem?_getD, List.getElem?_eq_getElem hlt]
          rfl
        rw [hat]
        exact List.getElem_mem hlt
    · have hsame : (self.setOrder index order).orders = self.orders :=
        List.set_eq_of_length_le hge
      exact .inl ⟨other, hsame ▸ hmem, .refl other⟩

theorem setAttempt {attempt : Lifecycle.Attempt} (h : attempt.legs = (self.attempt index).legs) :
    self.Grows (self.setAttempt index attempt) where
  attempts := by
    intro other old hold
    change ∃ attempt', (self.attempts.set index attempt)[other]? = some attempt' ∧ _
    by_cases heq : index = other
    · subst heq
      have hlt := (List.getElem?_eq_some_iff.mp hold).1
      refine ⟨attempt, List.getElem?_set_self hlt, ?_⟩
      rw [h, Simulation.attempt, List.getD_eq_getElem?_getD, hold]
      rfl
    · exact ⟨old, by rw [List.getElem?_set_ne heq, hold], rfl⟩
  orders := fun order hmem _ => .inl ⟨order, hmem, .refl order⟩

/-- A sale needs no cash. -/
theorem submit_sale (leg : Fin 2) (quantity limit reserve arrival : ℕ) :
    self.Grows (self.submit index leg quantity limit reserve arrival true) where
  attempts := fun index attempt h => ⟨attempt, h, rfl⟩
  orders := by
    intro order hmem hbuy
    rcases List.mem_append.mp hmem with hold | hnew
    · exact .inl ⟨order, hold, .refl order⟩
    · rw [List.mem_singleton.mp hnew] at hbuy
      cases hbuy

theorem submit_buy {leg : Fin 2} {quantity limit reserve : ℕ} (arrival : ℕ)
    {attempt : Lifecycle.Attempt} (hattempt : self.attempts[index]? = some attempt)
    (hreserves : Reserves study.policy (attempt.legs leg) quantity limit reserve) :
    self.Grows (self.submit index leg quantity limit reserve arrival false) where
  attempts := fun index attempt h => ⟨attempt, h, rfl⟩
  orders := by
    intro order hmem _
    rcases List.mem_append.mp hmem with hold | hnew
    · exact .inl ⟨order, hold, .refl order⟩
    · rw [List.mem_singleton.mp hnew]
      exact .inr ⟨attempt, hattempt, hreserves⟩

end Grows

theorem ExitOutcome.grows (h : self.ExitOutcome index time next) : self.Grows next := by
  cases h with
  | held _ => exact .of_eq rfl rfl
  | declined reason _ =>
    have hmark : self.Grows (self.markExit index) := .setAttempt rfl
    exact hmark.trans (.of_eq rfl rfl)
  | sent config leg quote _ _ =>
    have hmark : self.Grows (self.markExit index) := .setAttempt rfl
    exact hmark.trans (.submit_sale _ _ _ _ _)

theorem stopAcquisition_grows (index : ℕ) (reason : String) :
    self.Grows (self.stopAcquisition index reason) := by
  have hset : self.Grows (self.setAttempt index (self.attempt index).stop) := .setAttempt rfl
  exact hset.trans (.of_eq rfl rfl)

/-- A completion is of an attempt that there is. -/
theorem CompletionOffer.lt_length {quote : Execution} {needed : ℕ}
    (h : self.CompletionOffer index quote needed) : index < self.attempts.length := by
  by_contra hge
  have hnone : self.attempt index = default := by
    rw [Simulation.attempt, List.getD_eq_getElem?_getD, List.getElem?_eq_none (not_lt.mp hge)]
    rfl
  have hzero : (self.attempt index).difference = 0 := by rw [hnone]; rfl
  have hle := h.le_difference
  have hpos := h.pos
  omega

theorem BuyOutcome.grows (h : self.BuyOutcome index time next) : self.Grows next := by
  cases h with
  | waits _ _ => exact .of_eq rfl rfl
  | leaves _ _ hexit => exact hexit.grows
  | stops reason _ hexit => exact (stopAcquisition_grows index reason).trans hexit.grows
  | completes quote needed _ hoffer =>
    have hset : self.Grows (self.setAttempt index ((self.attempt index).complete needed)) :=
      .setAttempt rfl
    have hat : (self.attempts.set index ((self.attempt index).complete needed))[index]? =
        some ((self.attempt index).complete needed) :=
          List.getElem?_set_self hoffer.lt_length
    have hreserves := reservation_reserves hoffer.reserved
    have hledger : (self.setAttempt index ((self.attempt index).complete needed)).Grows
        { self.setAttempt index ((self.attempt index).complete needed) with
          ledger := (self.ledger.release ((self.attempt index).reserve 1)).reserve needed } :=
      .of_eq rfl rfl
    exact (hset.trans hledger).trans (.submit_buy _ hat hreserves)

theorem markArrived_grows (event : Event) : self.Grows (self.markArrived event) := by
  have hset : self.Grows (self.setOrder event.order
      { self.order event.order with arrived := true }) := .setOrder ⟨rfl, rfl, rfl, rfl, rfl, rfl⟩
  exact hset.trans (.of_eq rfl rfl)

/-- A fill is recorded with its order. -/
theorem setFill_grows (index : ℕ) (walked : Walk) : self.Grows ((self.applyWalk walked).setOrder
    index { self.order index with fill := walked.execution }) := by
  have hwalk : self.Grows (self.applyWalk walked) := .of_eq rfl rfl
  exact hwalk.trans (.setOrder ⟨rfl, rfl, rfl, rfl, rfl, rfl⟩)

theorem recordSale_grows (index : ℕ) (walked : Walk) (basis : ℕ) (positions : StudyPositions)
    (time : ℕ) :
    self.Grows (self.recordSale index (self.order index) walked basis positions time) :=
  (setFill_grows index walked).trans (.of_eq rfl rfl)

theorem recordBuy_grows (index : ℕ) (walked : Walk) :
    self.Grows (self.recordBuy index (self.order index) walked) := by
  have hattempt : ((self.applyWalk walked).setOrder index
      { self.order index with fill := walked.execution }).Grows
      (((self.applyWalk walked).setOrder index
        { self.order index with fill := walked.execution }).setAttempt (self.order index).attempt
          ((self.attempt (self.order index).attempt).fill (self.order index).leg
            walked.execution)) := .setAttempt rfl
  exact ((setFill_grows index walked).trans hattempt).trans (.of_eq rfl rfl)

theorem markResponded_grows (event : Event) : self.Grows (self.markResponded event) :=
  .setOrder ⟨rfl, rfl, rfl, rfl, rfl, rfl⟩

theorem confirmBuy_grows (event : Event) (order : Order) :
    self.Grows (self.confirmBuy event order) := by
  have hset : self.Grows (self.setAttempt order.attempt
      ((self.attempt order.attempt).confirm order.leg)) := .setAttempt rfl
  exact hset.trans (.of_eq rfl rfl)

/-- **An event** keeps the terms of the orders, and reserves for the new ones. -/
theorem EventOutcome.grows (h : self.EventOutcome state due next) : self.Grows next := by
  have hpop : self.Grows self.pop := .of_eq rfl rfl
  cases h with
  | settles settlement closed positions hsettle => exact .of_eq rfl rfl
  | sells event config order walked basis positions harrival horder hsell hconfig hsold hclose =>
    subst horder
    have harrived := hpop.trans (markArrived_grows event)
    exact (harrived.trans (recordSale_grows event.order walked basis positions
      event.time)).trans (.of_eq rfl rfl)
  | buys event order walked positions harrival horder hbuy hbought hreserved hacquire =>
    subst horder
    have harrived := hpop.trans (markArrived_grows event)
    exact (harrived.trans (recordBuy_grows event.order walked)).trans (.of_eq rfl rfl)
  | confirmsSale event hresponse hsell =>
    exact (hpop.trans (markResponded_grows event)).trans (.of_eq rfl rfl)
  | confirmsBuy event hresponse hbuy hnext =>
    have hresponded := hpop.trans (markResponded_grows event)
    exact (hresponded.trans (confirmBuy_grows event (self.order event.order))).trans hnext.grows

theorem mem_firstOrders {attempt : Lifecycle.Attempt} {order : Order}
    (h : order ∈ firstOrders study attempt index) : ∃ leg, order = legOrder attempt index leg := by
  unfold firstOrders at h
  split at h
  · exact ⟨0, List.mem_singleton.mp h⟩
  · rcases List.mem_pair.mp h with rfl | rfl
    · exact ⟨0, rfl⟩
    · exact ⟨1, rfl⟩

/-- **A decision** reserves for the orders of its attempt. -/
theorem DecideOutcome.grows {id : ConstraintId} (hmatched : Matched self.orders self.events)
    (h : self.DecideOutcome id time state next) : self.Grows next := by
  cases h with
  | declined reason counters => exact .of_eq rfl rfl
  | enters legs quote counters hlegs hopen hquote =>
    have hreserved := selectQuote_reserved hquote
    obtain ⟨hattempts, -⟩ := attempts_entered (attemptOf id legs quote time state)
      (({ self with evaluated := self.evaluated + 1, counters } : Simulation study).announce
        (attemptOf id legs quote time state) quote)
    obtain ⟨horders, -⟩ := orders_entered (attemptOf id legs quote time state)
      (({ self with evaluated := self.evaluated + 1, counters } : Simulation study).announce
        (attemptOf id legs quote time state) quote) hmatched
    refine ⟨fun index attempt hattempt => ⟨attempt, ?_, rfl⟩, fun order hmem _ => ?_⟩
    · rw [hattempts]
      exact (List.getElem?_append_left (List.getElem?_eq_some_iff.mp hattempt).1).trans hattempt
    · rw [horders] at hmem
      rcases List.mem_append.mp hmem with hold | hnew
      · exact .inl ⟨order, hold, .refl order⟩
      · obtain ⟨leg, rfl⟩ := mem_firstOrders hnew
        refine .inr ⟨sentAttempt study (attemptOf id legs quote time state), ?_, hreserved leg⟩
        rw [hattempts]
        exact List.getElem?_concat_length

theorem Grows.all_funded (h : self.Grows next)
    (hfunded : ∀ order ∈ self.orders, order.sell = false → self.Funded order) :
    ∀ order ∈ next.orders, order.sell = false → next.Funded order := by
  intro order hmem hbuy
  rcases h.orders order hmem hbuy with ⟨old, hold, hterms⟩ | hnew
  · exact h.funded (hfunded old hold (hterms.sell.symm.trans hbuy)) hterms
  · exact hnew

/-- **The cash of every buy is reserved** at its terms, in every state that is reached. -/
theorem Reached.funded (h : Reached study now self) :
    ∀ order ∈ self.orders, order.sell = false → self.Funded order := by
  refine (h.induct (P := fun _ (current : Simulation study) =>
    ∀ order ∈ current.orders, order.sell = false → current.Funded order)
    ?_ ?_ ?_ ?_ ?_ ?_).2
  · rintro _ ⟨⟩
  · exact fun _ _ _ _ hfunded => hfunded
  · exact fun _ _ _ hfunded => hfunded
  · exact fun _ _ hfunded => hfunded
  · exact fun _ _ _ _ _ _ _ hfunded houtcome => houtcome.grows.all_funded hfunded
  · exact fun _ _ _ _ _ hsound _ hfunded houtcome =>
      (houtcome.grows hsound.orderly.matched).all_funded hfunded

end Simulation

/-! ### Without a lifecycle -/

namespace LegacySimulation

variable {study : LegacyStudy} {self next : LegacySimulation study} {order : PendingOrder}
  {orders : List PendingOrder} {walked : Walk} {state : MarketState} {id : ConstraintId} {time : ℕ}

/-- The cash of both orders of an attempt is reserved at their terms, and covers what they
filled. -/
structure Funded (study : LegacyStudy) (attempt : Lifecycle.Attempt) : Prop where
  reserves : ∀ leg, Reserves study.policy (attempt.legs leg) attempt.quantity (attempt.limit leg)
    (attempt.reserve leg)
  covers : ∀ leg, (attempt.fills leg).debit ≤ attempt.reserve leg

theorem attempt_mem {index : ℕ} (h : index < self.attempts.length) :
    self.attempt index ∈ self.attempts := by
  rw [LegacySimulation.attempt, List.getD_eq_getElem?_getD, List.getElem?_eq_getElem h]
  exact List.getElem_mem h

/-- What an order fills at its arrival is within its reserve. -/
theorem fill_covered (hfunded : Funded study (self.attempt order.attempt))
    (h : self.fill order state = .ok walked) : walked.execution.debit ≤ self.reserved order := by
  unfold LegacySimulation.fill at h
  dsimp only at h
  split at h
  · exact walk_debit_le rfl (hfunded.reserves order.leg) (lift_eq_ok h)
  · obtain rfl := Except.ok.inj h
    exact hfunded.covers order.leg

theorem Funded.complete (hfunded : ∀ attempt ∈ self.attempts, Funded study attempt)
    (hknown : order.attempt < self.attempts.length)
    (hfill : self.fill order state = .ok walked) :
    ∀ attempt ∈ (self.complete order walked).attempts, Funded study attempt := by
  have hold := hfunded _ (attempt_mem hknown)
  intro attempt hmem
  rcases List.mem_or_eq_of_mem_set hmem with hmem | rfl
  · exact hfunded attempt hmem
  · refine ⟨hold.reserves, fun leg => ?_⟩
    by_cases hleg : leg = order.leg
    · subst hleg
      have hcovered := fill_covered hold hfill
      exact (congrArg Execution.debit (Function.update_self ..)).trans_le hcovered
    · exact (congrArg Execution.debit (Function.update_of_ne hleg ..)).trans_le (hold.covers leg)

/-- A decision reserves for the orders of its attempt. -/
theorem Funded.decide (hfunded : ∀ attempt ∈ self.attempts, Funded study attempt)
    (hs : self.decide id time state = .ok next) :
    ∀ attempt ∈ next.attempts, Funded study attempt := by
  unfold LegacySimulation.decide at hs
  dsimp only at hs
  split at hs
  · cases hs
  split at hs
  · obtain rfl := Except.ok.inj hs
    exact hfunded
  obtain ⟨⟨selected, counters⟩, hselected, hs⟩ := bind_eq_ok hs
  cases selected with
  | error reason =>
    obtain rfl := Except.ok.inj hs
    exact hfunded
  | ok quote =>
    have hreserved := selectQuote_reserved (lift_eq_ok hselected)
    obtain ⟨-, -, -, -, hattempts, -⟩ := enter_spec hs
    rw [hattempts]
    intro attempt hmem
    rcases List.mem_append.mp hmem with hold | hnew
    · exact hfunded attempt hold
    · obtain rfl := List.mem_singleton.mp hnew
      exact ⟨hreserved, fun leg => Nat.zero_le _⟩

/-- **The cash of every attempt is reserved** at its terms, in every state that is reached. -/
theorem Reached.funded (h : self.Reached) : ∀ attempt ∈ self.attempts, Funded study attempt := by
  induction h with
  | refl => rintro _ ⟨⟩
  | @tail self next hself hevent ih =>
    cases hevent with
    | @arrival _ order orders state hpending harrive =>
      obtain ⟨walked, hfill, hs⟩ := bind_eq_ok harrive
      split at hs
      · cases hs
      obtain rfl := Except.ok.inj hs
      have hknown := (Reached.balanced hself).known order (hpending ▸ List.mem_cons_self)
      have hsame : ∀ attempt ∈ ({ self with pending := orders } : LegacySimulation study).attempts,
          Funded study attempt := ih
      exact Funded.complete hsame hknown hfill
    | update => exact ih
    | decision hdecide => exact Funded.decide ih hdecide

/-! ### The check of the arrivals -/

end LegacySimulation

/-! ### Both studies -/

end EventMarket.Session
