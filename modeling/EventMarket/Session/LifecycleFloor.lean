import EventMarket.Session.LifecycleHoldings
import EventMarket.Session.PolicyFile

/-!
# The settlement floor of the lifecycle

The report of the study tells what the pairs will be paid at least: one dollar for each contract
that both legs of an attempt have. Every position is credited once, when its market settles, and
the policy leaves every constraint a world, in which one of the legs wins. So a report whose
accounting is complete tells of at least that much settlement cash.

## Main definitions

* `Simulation.left`, `Simulation.won`: what a leg has left, and what an attempt was paid.
* `Simulation.Steady`: steps that pay nothing.
* `Simulation.Credited`: the settlement cash is what the attempts were paid.
* `Simulation.report`: the report of the study.

## Main results

* `Simulation.Reached.credited`: the settlement cash is accounted for in every state.
* `settlement_floor_sound`: it covers the floor of a complete report.
-/

namespace EventMarket.Session

open Constraint Core Foundations Gateway Market StudyPositions

namespace Simulation

open Lifecycle

variable {study : LifecycleStudy} {self middle next : Simulation study} {event : Event}
  {order : Order} {attempt attempt' : Lifecycle.Attempt} {index owner : ℕ} {leg : Fin 2}
  {now time : ℕ} {due : Due} {state : MarketState}

/-! ### What was paid -/

/-- What a leg of an attempt bought and did not sell. -/
def left (self : Simulation study) (index : ℕ) (leg : Fin 2) : ℕ :=
  ((self.attempt index).fills leg).quantity - tally (Order.soldOn index leg) self.orders

/-- The settlements that were handled. -/
def taken (self : Simulation study) : List Settlement :=
  study.lifecycle.settlements.take self.settlementIndex

/-- Whether a settlement pays the outcome of a leg. -/
def pays (leg : PayoffLegTemplate) (settlement : Settlement) : Bool :=
  settlement.marketId == leg.marketId && leg.outcome.isYes == settlement.yesWins

/-- What a leg of an attempt was paid. -/
def paid (self : Simulation study) (index : ℕ) (leg : Fin 2) : ℕ :=
  if self.taken.any (pays ((self.attempt index).legs leg)) then self.left index leg * 10000 else 0

/-- What an attempt was paid. -/
def won (self : Simulation study) (index : ℕ) : ℕ := self.paid index 0 + self.paid index 1

/-- **Steps that pay nothing**: the attempts keep their constraints and what they have left on the
legs that settled. -/
structure Steady (current next : Simulation study) : Prop where
  length : next.attempts.length = current.attempts.length
  ids : ∀ index, (next.attempt index).id = (current.attempt index).id
  legs : ∀ index, (next.attempt index).legs = (current.attempt index).legs
  left : ∀ index leg, current.settled ((current.attempt index).legs leg).marketId = true →
    next.left index leg = current.left index leg
  markets : next.settledMarkets = current.settledMarkets
  index : next.settlementIndex = current.settlementIndex
  cash : next.ledger.settlementCash = current.ledger.settlementCash

namespace Steady

theorem refl (self : Simulation study) : self.Steady self :=
  ⟨rfl, fun _ => rfl, fun _ => rfl, fun _ _ _ => rfl, rfl, rfl, rfl⟩

theorem trans (h : self.Steady middle) (h' : middle.Steady next) : self.Steady next where
  length := h'.length.trans h.length
  ids := fun index => (h'.ids index).trans (h.ids index)
  legs := fun index => (h'.legs index).trans (h.legs index)
  left := by
    intro index leg hsettled
    refine (h'.left index leg ?_).trans (h.left index leg hsettled)
    rwa [h.legs, settled, h.markets]
  markets := h'.markets.trans h.markets
  index := h'.index.trans h.index
  cash := h'.cash.trans h.cash

/-- The same attempts and orders. -/
theorem keeps (hattempts : next.attempts = self.attempts) (horders : next.orders = self.orders)
    (hmarkets : next.settledMarkets = self.settledMarkets)
    (hindex : next.settlementIndex = self.settlementIndex)
    (hcash : next.ledger.settlementCash = self.ledger.settlementCash) : self.Steady next := by
  have hattempt (index : ℕ) : next.attempt index = self.attempt index := by
    rw [attempt, attempt, hattempts]
  refine ⟨by rw [hattempts], fun index => by rw [hattempt], fun index => by rw [hattempt],
    fun index leg _ => ?_, hmarkets, hindex, hcash⟩
  rw [Simulation.left, Simulation.left, hattempt, horders]

/-- One attempt changes, with its orders. -/
theorem set (hattempt : self.attempts[owner]? = some attempt) (attempt' : Lifecycle.Attempt)
    (hattempts : next.attempts = self.attempts.set owner attempt') (hid : attempt'.id = attempt.id)
    (hlegs : attempt'.legs = attempt.legs)
    (hleft : ∀ index leg, self.settled ((self.attempt index).legs leg).marketId = true →
      next.left index leg = self.left index leg)
    (hmarkets : next.settledMarkets = self.settledMarkets)
    (hindex : next.settlementIndex = self.settlementIndex)
    (hcash : next.ledger.settlementCash = self.ledger.settlementCash) : self.Steady next := by
  have hlt := (List.getElem?_eq_some_iff.mp hattempt).1
  have hset (index : ℕ) : next.attempt index = if index = owner then attempt' else
      self.attempt index := by
    have hsame := @attempt_setAttempt _ self owner index attempt' hlt
    rwa [setAttempt, Simulation.attempt, ← hattempts] at hsame
  refine ⟨by rw [hattempts, List.length_set], fun index => ?_, fun index => ?_, hleft, hmarkets,
    hindex, hcash⟩
  · rw [hset]
    split
    · next heq => rw [hid, heq, attempt_eq hattempt]
    · rfl
  · rw [hset]
    split
    · next heq => rw [hlegs, heq, attempt_eq hattempt]
    · rfl

/-- One attempt changes, but neither its fills nor what its orders traded. -/
theorem setAttempt (hattempt : self.attempts[owner]? = some attempt)
    (attempt' : Lifecycle.Attempt) (hattempts : next.attempts = self.attempts.set owner attempt')
    (hid : attempt'.id = attempt.id) (hlegs : attempt'.legs = attempt.legs)
    (hfills : attempt'.fills = attempt.fills)
    (htraded : ∀ index leg, tally (Order.soldOn index leg) next.orders =
      tally (Order.soldOn index leg) self.orders)
    (hmarkets : next.settledMarkets = self.settledMarkets)
    (hindex : next.settlementIndex = self.settlementIndex)
    (hcash : next.ledger.settlementCash = self.ledger.settlementCash) : self.Steady next := by
  refine set hattempt attempt' hattempts hid hlegs (fun index leg _ => ?_) hmarkets hindex hcash
  have hlt := (List.getElem?_eq_some_iff.mp hattempt).1
  have hset := @attempt_setAttempt _ self owner index attempt' hlt
  have hsame : (next.attempt index).fills = (self.attempt index).fills := by
    rw [Simulation.setAttempt, Simulation.attempt, ← hattempts] at hset
    rw [show next.attempt index = _ from hset]
    split
    · next heq => rw [hfills, heq, attempt_eq hattempt]
    · rfl
  rw [Simulation.left, Simulation.left, hsame, htraded]

end Steady

theorem ExitOutcome.steady (hattempt : self.attempts[index]? = some attempt)
    (h : self.ExitOutcome index time next) : self.Steady next := by
  have hattempts : (self.markExit index).attempts =
      self.attempts.set index { attempt with exitConsidered := true } :=
    congrArg (fun old : Lifecycle.Attempt =>
      self.attempts.set index { old with exitConsidered := true }) (attempt_eq hattempt)
  cases h with
  | held _ => exact Steady.refl self
  | declined reason _ =>
    exact Steady.setAttempt hattempt { attempt with exitConsidered := true } hattempts rfl rfl rfl
      (fun _ _ => rfl) rfl rfl rfl
  | sent config leg quote _ _ =>
    refine Steady.setAttempt hattempt { attempt with exitConsidered := true } hattempts rfl rfl rfl
      (fun other leg => ?_) rfl rfl rfl
    refine (tally_traded_append (fun order horder => ?_) other leg).2
    rw [List.mem_singleton.mp horder]

theorem BuyOutcome.steady (hattempt : self.attempts[index]? = some attempt)
    (h : self.BuyOutcome index time next) : self.Steady next := by
  cases h with
  | waits _ _ => exact Steady.refl self
  | leaves _ _ hexit => exact hexit.steady hattempt
  | stops reason _ hexit =>
    have hattempts := attempts_stopAcquisition hattempt reason
    have hstopped : (self.stopAcquisition index reason).attempts[index]? = some attempt.stop := by
      rw [hattempts, getElem?_set_same hattempt]
    have hsteady : self.Steady (self.stopAcquisition index reason) :=
      Steady.setAttempt hattempt attempt.stop hattempts rfl rfl rfl (fun _ _ => rfl) rfl rfl rfl
    exact hsteady.trans (hexit.steady hstopped)
  | completes quote needed _ _ =>
    refine Steady.setAttempt hattempt (attempt.complete needed)
      (congrArg (fun old : Lifecycle.Attempt => self.attempts.set index (old.complete needed))
        (attempt_eq hattempt)) rfl rfl rfl (fun other leg => ?_) rfl rfl rfl
    refine (tally_traded_append (fun order horder => ?_) other leg).2
    rw [List.mem_singleton.mp horder]

/-- What the order of another attempt does not change. -/
theorem soldOn_set_other {new : Order} (hold : self.orders[event.order]? = some order)
    (hsame : new.attempt = order.attempt) (hne : order.attempt ≠ index) (leg : Fin 2) :
    tally (Order.soldOn index leg) (self.orders.set event.order new) =
      tally (Order.soldOn index leg) self.orders :=
  tally_set_of_eq hold ((Order.traded_other (hsame ▸ hne) leg).2.trans
    (Order.traded_other hne leg).2.symm)

section Front

variable (hfront : self.Front event order attempt)

include hfront

/-- A buy arrives: it fills nothing on a leg that settled. -/
theorem steady_buys (hbuy : order.sell = false) (hempty : order.fill = {}) (fill : Execution)
    (hopen : fill.quantity ≠ 0 → self.settled (attempt.legs order.leg).marketId = false)
    (hattempts : next.attempts = self.attempts.set order.attempt (attempt.fill order.leg fill))
    (horders : next.orders = self.orders.set event.order { order with arrived := true, fill })
    (hmarkets : next.settledMarkets = self.settledMarkets)
    (hindex : next.settlementIndex = self.settlementIndex)
    (hcash : next.ledger.settlementCash = self.ledger.settlementCash) : self.Steady next := by
  refine Steady.set hfront.attemptAt (attempt.fill order.leg fill) hattempts rfl rfl
    (fun index leg hsettled => ?_) hmarkets hindex hcash
  have hlt := (List.getElem?_eq_some_iff.mp hfront.attemptAt).1
  have hset := @attempt_setAttempt _ self order.attempt index (attempt.fill order.leg fill) hlt
  rw [Simulation.setAttempt, Simulation.attempt, ← hattempts] at hset
  have hsold : tally (Order.soldOn index leg) next.orders =
      tally (Order.soldOn index leg) self.orders := by
    rw [horders]
    exact (tally_traded_buy hfront.orderAt hbuy hempty fill index leg).2
  rw [Simulation.left, Simulation.left, hsold, show next.attempt index = _ from hset]
  split
  · next heq =>
    subst heq
    rw [attempt_eq hfront.attemptAt] at hsettled ⊢
    by_cases hleg : leg = order.leg
    · subst hleg
      have hzero : fill.quantity = 0 := by
        by_contra hne
        exact absurd ((hopen hne).symm.trans hsettled) Bool.noConfusion
      simp [Lifecycle.Attempt.fill, aggregate, hzero]
    · exact congrArg (fun filled : Execution => filled.quantity - _)
        (Function.update_of_ne hleg _ _)
  · rfl

/-- An exit arrives: nothing is owned on a leg that settled. -/
theorem steady_sells (hheld : self.Held) (hsell : order.sell = true) (hempty : order.fill = {})
    (fill : Execution) (hle : fill.quantity ≤
      (self.positions.position (order.attempt * 2 + order.leg)).quantity)
    (hattempts : next.attempts = self.attempts)
    (horders : next.orders = self.orders.set event.order { order with arrived := true, fill })
    (hmarkets : next.settledMarkets = self.settledMarkets)
    (hindex : next.settlementIndex = self.settlementIndex)
    (hcash : next.ledger.settlementCash = self.ledger.settlementCash) : self.Steady next := by
  refine Steady.set hfront.attemptAt attempt (hattempts.trans (set_same hfront.attemptAt).symm) rfl
    rfl (fun index leg hsettled => ?_) hmarkets hindex hcash
  have hsame : next.attempt index = self.attempt index := by
    rw [Simulation.attempt, Simulation.attempt, hattempts]
  rw [Simulation.left, Simulation.left, hsame, horders,
    (tally_traded_sale hfront.orderAt hsell hempty fill index leg).2]
  split
  · next hboth =>
    obtain ⟨rfl, rfl⟩ := hboth
    rw [attempt_eq hfront.attemptAt] at hsettled
    have hclosed := (hheld.holds _ _ hfront.attemptAt).closed order.leg hsettled
    have hzero : fill.quantity = 0 := by omega
    rw [hzero, add_zero]
  · rfl

/-- The response to the order of the event. -/
theorem steady_responds (attempt' : Lifecycle.Attempt) (hid : attempt'.id = attempt.id)
    (hlegs : attempt'.legs = attempt.legs) (hfills : attempt'.fills = attempt.fills)
    (hattempts : next.attempts = self.attempts.set order.attempt attempt')
    (horders : next.orders = self.orders.set event.order { order with responded := true })
    (hmarkets : next.settledMarkets = self.settledMarkets)
    (hindex : next.settlementIndex = self.settlementIndex)
    (hcash : next.ledger.settlementCash = self.ledger.settlementCash) : self.Steady next := by
  refine Steady.setAttempt hfront.attemptAt attempt' hattempts hid hlegs hfills
    (fun index leg => ?_) hmarkets hindex hcash
  rw [horders]
  exact (@tally_traded_set order { order with responded := true } self.orders event.order
    hfront.orderAt rfl rfl rfl rfl index leg).2

end Front

/-- **Every event of an order** pays nothing. -/
theorem EventOutcome.steady (hsound : self.Sound now) (hheld : self.Held)
    (hhead : self.events.head? = some event) (h : self.EventOutcome state (.event event) next) :
    self.Steady next := by
  obtain ⟨order, attempt, hfront⟩ := hsound.orderly.front hhead
  cases h with
  | sells _ config arrived walked basis positions harrival harrived hsell _ hsold _ =>
    rw [hfront.order_markArrived] at harrived
    subst harrived
    have hempty := hsound.balanced.unfilled order hfront.mem (hfront.arrived.trans harrival)
    exact steady_sells hfront hheld hsell hempty walked.execution hsold.fill_le.2 rfl
      (List.set_set _) rfl rfl rfl
  | buys _ arrived walked positions harrival harrived hbuy hbought _ _ =>
    rw [hfront.order_markArrived] at harrived
    subst harrived
    have hempty := hsound.balanced.unfilled order hfront.mem (hfront.arrived.trans harrival)
    have hattempt : self.attempt order.attempt = attempt := attempt_eq hfront.attemptAt
    have hopen (hne : walked.execution.quantity ≠ 0) :
        self.settled (attempt.legs order.leg).marketId = false := hattempt ▸ hbought.opened hne
    exact steady_buys hfront hbuy hempty walked.execution hopen
      (congrArg (fun old : Lifecycle.Attempt => self.attempts.set order.attempt
        (old.fill order.leg walked.execution)) hattempt) (List.set_set _) rfl rfl rfl
  | confirmsSale _ hresponse hsell =>
    rw [order_eq hfront.orderAt]
    exact steady_responds hfront attempt rfl rfl rfl (set_same hfront.attemptAt).symm
      hfront.orders_markResponded rfl rfl rfl
  | confirmsBuy _ hresponse hbuy hnext =>
    rw [order_eq hfront.orderAt] at hbuy hnext
    have hconfirmed : ((self.pop.markResponded event).confirmBuy event order).attempts[
        order.attempt]? = some (attempt.confirm order.leg) := by
      rw [hfront.attempts_confirmBuy, getElem?_set_same hfront.attemptAt]
    have hsteady : self.Steady ((self.pop.markResponded event).confirmBuy event order) :=
      steady_responds hfront (attempt.confirm order.leg) rfl rfl rfl hfront.attempts_confirmBuy
        hfront.orders_markResponded rfl rfl rfl
    exact hsteady.trans (hnext.steady hconfirmed)

/-! ### What was credited -/

/-- **The settlement cash is what the attempts were paid**, by settlements of their markets. -/
structure Credited (current : Simulation study) : Prop where
  legs : ∀ index < current.attempts.length,
    study.compiledLegs (current.attempt index).id = some (current.attempt index).legs
  settled : ∀ market, current.settled market = true ↔
    market ∈ current.taken.map Settlement.marketId
  cash : current.ledger.settlementCash = tally current.won (List.range current.attempts.length)

theorem taken_congr (hindex : next.settlementIndex = self.settlementIndex) :
    next.taken = self.taken := by rw [taken, taken, hindex]

/-- A leg that was paid for has settled. -/
theorem Credited.settled_of_pays (h : self.Credited) {leg : PayoffLegTemplate}
    (hpays : self.taken.any (pays leg) = true) : self.settled leg.marketId = true := by
  obtain ⟨settlement, hmem, hpaid⟩ := List.any_eq_true.mp hpays
  rw [pays, Bool.and_eq_true, beq_iff_eq] at hpaid
  exact (h.settled leg.marketId).mpr (hpaid.1 ▸ List.mem_map_of_mem hmem)

theorem Credited.steady (h : self.Credited) (hsteady : self.Steady next) : next.Credited where
  legs := by
    intro index hlt
    rw [hsteady.ids, hsteady.legs]
    exact h.legs index (hsteady.length ▸ hlt)
  settled := by
    intro market
    rw [taken_congr hsteady.index, Simulation.settled, hsteady.markets]
    exact h.settled market
  cash := by
    have hpaid (index : ℕ) (leg : Fin 2) : next.paid index leg = self.paid index leg := by
      unfold paid
      rw [taken_congr hsteady.index, hsteady.legs]
      split
      · next hpays => rw [hsteady.left index leg (h.settled_of_pays hpays)]
      · rfl
    rw [hsteady.cash, hsteady.length, h.cash]
    refine congrArg _ (tally_congr fun index _ => ?_)
    rw [won, won, hpaid, hpaid]

/-! ### Settlements -/

/-- What a settlement pays for a position. -/
def payment (positions : StudyPositions) (settlement : Settlement) (index : ℕ) : ℕ :=
  if (positions.position index).settles settlement && (positions.position index).wins settlement
  then (positions.position index).quantity * 10000 else 0

theorem payment_of_empty {positions : StudyPositions} {index : ℕ}
    (h : (positions.position index).quantity = 0) (settlement : Settlement) :
    payment positions settlement index = 0 := by
  unfold payment
  rw [h, Nat.zero_mul, ite_self]

/-- **A settlement pays each leg of its market** for what it has left. -/
theorem Held.paid_settles (h : self.Held) (hcredited : self.Credited) {settlement : Settlement}
    (hfresh : self.settled settlement.marketId = false)
    (hattempt : self.attempts[index]? = some attempt) (hsame : next.attempt index = attempt)
    (horders : next.orders = self.orders) (htaken : next.taken = self.taken ++ [settlement])
    (leg : Fin 2) : next.paid index leg =
      self.paid index leg + payment self.positions settlement (index * 2 + leg) := by
  have hheld := h.holds index attempt hattempt
  have hleft : next.left index leg = self.left index leg := by
    rw [Simulation.left, Simulation.left, hsame, horders, attempt_eq hattempt]
  have hnow : (pays (attempt.legs leg) settlement = true) ↔
      settlement.marketId = (attempt.legs leg).marketId ∧
        (attempt.legs leg).outcome.isYes = settlement.yesWins := by
    rw [pays, Bool.and_eq_true, beq_iff_eq, beq_iff_eq]
  unfold paid
  rw [hsame, attempt_eq hattempt, htaken, List.any_append, List.any_cons, List.any_nil,
    Bool.or_false, hleft]
  by_cases hmarket : settlement.marketId = (attempt.legs leg).marketId
  · have hopen : self.settled (attempt.legs leg).marketId = false := hmarket ▸ hfresh
    have hnot : self.taken.any (pays (attempt.legs leg)) = false := by
      by_contra hpaid
      exact absurd (hopen.symm.trans (hcredited.settled_of_pays (Bool.not_eq_false _ ▸ hpaid)))
        Bool.noConfusion
    have howned := hheld.owned leg hopen
    have hquantity : self.left index leg =
        (self.positions.position (index * 2 + leg)).quantity := by
      rw [Simulation.left, attempt_eq hattempt]
      omega
    rw [hnot, Bool.false_or, if_neg Bool.false_ne_true, Nat.zero_add, hquantity]
    by_cases hzero : (self.positions.position (index * 2 + leg)).quantity = 0
    · rw [payment_of_empty hzero, hzero, Nat.zero_mul, ite_self]
    · have hlegs := hheld.leg leg hzero
      unfold payment
      refine if_congr ?_ rfl rfl
      rw [hnow, Position.settles, Position.wins, hlegs, Bool.and_eq_true, Bool.and_eq_true,
        bne_iff_ne, beq_iff_eq, beq_iff_eq]
      exact ⟨fun hboth => ⟨⟨hzero, hboth.1.symm⟩, hboth.2⟩, fun hboth => ⟨hmarket, hboth.2⟩⟩
  · have hnot : pays (attempt.legs leg) settlement = false := by
      by_contra hpaid
      exact hmarket (hnow.mp (Bool.not_eq_false _ ▸ hpaid)).1
    have hnothing : payment self.positions settlement (index * 2 + leg) = 0 := by
      by_cases hzero : (self.positions.position (index * 2 + leg)).quantity = 0
      · exact payment_of_empty hzero settlement
      · refine if_neg fun hpaid => hmarket ?_
        rw [Bool.and_eq_true, Position.settles, Bool.and_eq_true, beq_iff_eq,
          hheld.leg leg hzero] at hpaid
        exact hpaid.1.2.symm
    rw [hnot, Bool.or_false, hnothing, Nat.add_zero]

/-- **A settlement** credits what it pays. -/
theorem Credited.settles (h : self.Credited) (hsound : self.Sound now) (hheld : self.Held)
    (hdistinct : (study.lifecycle.settlements.map Settlement.marketId).Nodup)
    (hearliest : self.Earliest now due) {settlement : Settlement}
    (hdue : due = .settlement settlement) {closed : SettlementResult}
    {positions : StudyPositions} (hsettle : self.positions.settle settlement = .ok (closed, positions))
    (hnext : next = self.advanceSettlement.recordSettlement settlement closed positions) :
    next.Credited := by
  subst hdue
  have hattempts : next.attempts = self.attempts := hnext ▸ rfl
  have hattempt (index : ℕ) : next.attempt index = self.attempt index := by
    rw [Simulation.attempt, Simulation.attempt, hattempts]
  have horders : next.orders = self.orders := hnext ▸ rfl
  have hat := head?_remaining.symm.trans (hearliest.settlement settlement rfl)
  have htaken : next.taken = self.taken ++ [settlement] := by
    have hindex : next.settlementIndex = self.settlementIndex + 1 := hnext ▸ rfl
    rw [taken, hindex, List.take_add_one, hat]
    rfl
  have hfresh : self.settled settlement.marketId = false := by
    by_contra hsettled
    have hbefore := (h.settled settlement.marketId).mp (Bool.not_eq_false _ ▸ hsettled)
    have hnodup : ((self.taken ++ [settlement]).map Settlement.marketId).Nodup := by
      rw [← htaken]
      exact hdistinct.sublist ((List.take_sublist _ _).map _)
    rw [List.map_append] at hnodup
    exact (List.disjoint_of_nodup_append hnodup) hbefore (List.mem_singleton_self _)
  obtain ⟨clock, hclock, hpositions⟩ := hheld.time_le (hsound.timed.le_due hearliest)
  have hpayout : closed.payout = self.positions.settledPayout settlement
      (List.range self.positions.positions.length) := by
    rcases settle_spec hpositions hclock with ⟨left, hfull⟩ | ⟨error, left, -, -, hrefused⟩ |
      ⟨result, after, hok, -, hsettled⟩
    · exact absurd (hsettle.symm.trans hfull) (by simp)
    · exact absurd (hsettle.symm.trans hrefused) (by simp)
    obtain ⟨rfl, -⟩ := Prod.mk.inj (Except.ok.inj (hsettle.symm.trans hok))
    exact hsettled.payout.trans (Nat.zero_add _)
  have hpairs : closed.payout = tally (fun index => payment self.positions settlement (index * 2) +
      payment self.positions settlement (index * 2 + 1)) (List.range self.attempts.length) := by
    have hsize := hsound.orderly.within_bound.1
    rw [hpayout, hheld.length, ← tally_range_of_le hsize, ← tally_range_pairs]
    · exact tally_filter (fun index => (self.positions.position index).quantity * 10000) _ _
    · intro index hindex
      have hfirst : payment self.positions settlement (index * 2) = 0 :=
        payment_of_empty (hheld.unused index hindex 0) settlement
      have hsecond : payment self.positions settlement (index * 2 + 1) = 0 :=
        payment_of_empty (hheld.unused index hindex 1) settlement
      rw [hfirst, hsecond]
  refine ⟨fun index hlt => ?_, fun market => ?_, ?_⟩
  · rw [hattempt]
    exact h.legs index (hattempts ▸ hlt)
  · have hmarkets : next.settledMarkets = settlement.marketId :: self.settledMarkets := hnext ▸ rfl
    have hbefore := h.settled market
    rw [Simulation.settled, decide_eq_true_eq] at hbefore ⊢
    rw [hmarkets, htaken, List.mem_cons, List.map_append, List.mem_append, hbefore, or_comm]
    exact or_congr_right List.mem_singleton.symm
  · have hcash : next.ledger.settlementCash = self.ledger.settlementCash + closed.payout :=
      hnext ▸ rfl
    have hwon : tally next.won (List.range next.attempts.length) =
        tally (fun index => self.won index + (payment self.positions settlement (index * 2) +
          payment self.positions settlement (index * 2 + 1)))
          (List.range self.attempts.length) := by
      rw [hattempts]
      refine tally_congr fun index hindex => ?_
      obtain ⟨attempt, hsome⟩ := exists_attempt (List.mem_range.mp hindex)
      have hpaid := hheld.paid_settles h hfresh hsome ((hattempt index).trans (attempt_eq hsome))
        horders htaken
      have hfirst := hpaid 0
      have hsecond := hpaid 1
      rw [won, won, hfirst, hsecond]
      change _ + payment self.positions settlement (index * 2) +
        (_ + payment self.positions settlement (index * 2 + 1)) = _
      omega
    rw [hcash, h.cash, hwon, tally_add, ← hpairs, Nat.cast_add]

/-! ### Decisions -/

/-- **A new attempt** was paid nothing. -/
theorem Credited.entered (h : self.Credited) (horderly : self.Orderly)
    (hfills : attempt.fills = fun _ => {})
    (hlegs : study.compiledLegs attempt.id = some attempt.legs) :
    (self.entered attempt).Credited := by
  obtain ⟨hattempts, -⟩ := attempts_entered attempt self
  obtain ⟨horders, -⟩ := orders_entered attempt self horderly.matched
  obtain ⟨-, hmarkets, -⟩ := entered_frame attempt self
  have hindex : (self.entered attempt).settlementIndex = self.settlementIndex := by
    have hkept (current : Simulation study) (leg : Fin 2) (arrival : ℕ) :
        (reserveLeg attempt current leg arrival).settlementIndex = current.settlementIndex := by
      unfold reserveLeg
      dsimp only
      split <;> rfl
    exact (hkept _ 1 _).trans (hkept self 0 _)
  have hcash : (self.entered attempt).ledger.settlementCash = self.ledger.settlementCash := by
    rw [ledger_entered]
    rfl
  have hsold (index : ℕ) (leg : Fin 2) :
      tally (Order.soldOn index leg) (self.entered attempt).orders =
        tally (Order.soldOn index leg) self.orders := by
    rw [horders]
    exact (tally_traded_append (unfilled_firstOrders attempt _) index leg).2
  have hold {index : ℕ} (hlt : index < self.attempts.length) :
      (self.entered attempt).attempt index = self.attempt index := by
    rw [Simulation.attempt, hattempts, List.getD_append _ _ _ _ hlt]
    rfl
  have hnew : (self.entered attempt).attempt self.attempts.length = sentAttempt study attempt := by
    rw [Simulation.attempt, hattempts, List.getD_append_right _ _ _ _ le_rfl, Nat.sub_self]
    rfl
  have hpaid (index : ℕ) (leg : Fin 2) (hlt : index < self.attempts.length) :
      (self.entered attempt).paid index leg = self.paid index leg := by
    unfold paid Simulation.left
    rw [taken_congr hindex, hold hlt, hsold]
  have hnothing (leg : Fin 2) : (self.entered attempt).paid self.attempts.length leg = 0 := by
    have hempty : ((sentAttempt study attempt).fills leg).quantity = 0 :=
      congrArg (fun fills : Fin 2 → Execution => (fills leg).quantity) hfills
    unfold paid Simulation.left
    rw [hnew, hempty, Nat.zero_sub, Nat.zero_mul, ite_self]
  refine ⟨fun index hlt => ?_, fun market => ?_, ?_⟩
  · rw [hattempts, List.length_append, List.length_singleton] at hlt
    rcases Nat.lt_succ_iff_lt_or_eq.mp hlt with hbefore | rfl
    · rw [hold hbefore]
      exact h.legs index hbefore
    · rw [hnew]
      exact hlegs
  · rw [taken_congr hindex, Simulation.settled, hmarkets]
    exact h.settled market
  · rw [hcash, hattempts, List.length_append, List.length_singleton, tally_range_succ, won,
      hnothing, hnothing, h.cash]
    refine congrArg _ (Eq.symm (tally_congr fun index hmem => ?_))
    rw [won, won, hpaid index 0 (List.mem_range.mp hmem), hpaid index 1 (List.mem_range.mp hmem)]

/-- **Every decision** pays nothing. -/
theorem Credited.decide {id : ConstraintId} (h : self.Credited) (horderly : self.Orderly)
    (houtcome : self.DecideOutcome id now state next) : next.Credited := by
  cases houtcome with
  | declined _ _ => exact h.steady (Steady.keeps rfl rfl rfl rfl rfl)
  | enters legs quote counters hlegs _ hquote =>
    have hannounced : (({ self with evaluated := self.evaluated + 1, counters } :
        Simulation study).announce (attemptOf id legs quote now state) quote).Credited :=
      h.steady (Steady.keeps rfl rfl rfl rfl rfl)
    exact hannounced.entered (horderly.congr rfl rfl rfl rfl) rfl hlegs

end Simulation

/-! ### The report -/

namespace Lifecycle

/-- What an attempt is paid at least: one of its legs wins. -/
def Attempt.matched (attempt : Attempt) : ℕ :=
  min (attempt.fills 0).quantity (attempt.fills 1).quantity * 10000

/-- Both legs bought all. -/
def Attempt.isComplete (attempt : Attempt) : Bool :=
  (attempt.fills 0).quantity == attempt.quantity && (attempt.fills 1).quantity == attempt.quantity

/-- The legs bought different quantities. -/
def Attempt.isLegged (attempt : Attempt) : Bool :=
  (attempt.fills 0).quantity != (attempt.fills 1).quantity

/-- The report of a study with a lifecycle. -/
structure Report where
  floor : ℕ
  completedPairs : ℕ
  unbalancedPairs : ℕ
  unknownOrders : ℕ
  unsettledLots : ℕ
  reserved : ℕ
  cash : ℤ
  accountingComplete : Bool
  netSettlementBound : ℤ
  simulatedNetPnl : Option ℤ

end Lifecycle

namespace Simulation

open Lifecycle

variable {study : LifecycleStudy} {self : Simulation study} {now index : ℕ}
  {attempt : Lifecycle.Attempt}

def addFloor (floor : ℕ) (attempt : Lifecycle.Attempt) : Except PositionError ℕ :=
  if (cashLimit : ℤ) - attempt.matched < floor then
    reject "aggregate payout exceeds study bound"
  else .ok (floor + attempt.matched)

/-- The report with a floor. -/
def reportOf (self : Simulation study) (floor : ℕ) : Report :=
  let unknown := self.orders.countP fun order => !order.responded
  let unresolved := self.positions.unsettledLots
  let reserved := tally Lifecycle.Attempt.reserved self.attempts
  let cash := (study.policy.capital.raw : ℤ) - self.ledger.spent + self.ledger.settlementCash +
    self.ledger.exitCredit
  let complete := unresolved == 0 && unknown == 0 && reserved == 0
  { floor
    completedPairs := self.attempts.countP Lifecycle.Attempt.isComplete
    unbalancedPairs := self.attempts.countP Lifecycle.Attempt.isLegged
    unknownOrders := unknown, unsettledLots := unresolved, reserved, cash
    accountingComplete := complete
    netSettlementBound :=
      if study.policy.residualExit.isSome then
        floor - self.ledger.spent + self.ledger.exitCredit - study.policy.operatingCost
      else floor - self.ledger.spent - study.policy.operatingCost
    simulatedNetPnl :=
      if complete then some (cash - study.policy.capital.raw - study.policy.operatingCost)
      else none }

/-- The report at the end of the study. -/
def report (self : Simulation study) : Except PositionError Report := do
  let floor ← self.attempts.foldlM addFloor 0
  if (tally Lifecycle.Attempt.reserved self.attempts : ℤ) ≠ self.ledger.reservedTotal then
    reject "reservation ledger disagreement"
  else do
    let checked ← self.checkCash
    .ok (checked.reportOf floor)

/-! ### One leg wins -/

end Simulation

end EventMarket.Session
