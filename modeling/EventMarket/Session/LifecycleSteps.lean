import EventMarket.Foundations.Yields
import EventMarket.Session.StudyArrival
import EventMarket.Session.StudyLifecycle

/-!
# What the events of the lifecycle can do

Every event changes the simulation in one of a few ways, or ends the study with an error. The
checks of the lifecycle itself fail for no event that is expected and whose cash is there.

## Main definitions

* `BrokenLifecycle`, `Intact`: the errors of the checks of the lifecycle, and computations without
  them.
* `OfQuote`: the errors of walks and quotes.
* `ExitOutcome`, `BuyOutcome`, `EventOutcome`, `DecideOutcome`: everything that a step can do.
* `Expected`: an event that fits its order.
* `Solvent`: a ledger that covers an event.

## Main results

* `walk_spec`: an order fills no more than its quantity.
* `handle_intact`, `decide_intact`: the steps do that.
-/

namespace EventMarket.Session

open Constraint Core Foundations Market StudyPositions

/-! ### The checks of the lifecycle -/

/-- The checks that an order goes through its stages once, that an attempt leaves once, that
nothing is sold that is not owned, and that no cash is lost. -/
def lifecycleChecks : List String :=
  ["duplicate order arrival", "response lifecycle", "acquisition response count",
    "duplicate exit decision", "exit before acquisition responses",
    "cannot close unowned position", "cash conservation", "reservation ledger disagreement"]

/-- The error of a check of the lifecycle. -/
def BrokenLifecycle (error : PositionError) : Prop :=
  ∃ text ∈ lifecycleChecks, error = .study (.replay text 0)

/-- An error of something else. -/
def Foreign (error : StudyException) : Prop := ∀ text ∈ lifecycleChecks, error ≠ .replay text 0

/-- A computation in which no check of the lifecycle fails. -/
abbrev Intact {α : Type} (P : α → Prop) (x : Except PositionError α) : Prop :=
  Yields (fun error => ¬BrokenLifecycle error) P x

section Errors

variable {α : Type} {P : α → Prop} {text : String}

theorem foreign_of_notMem (h : text ∉ lifecycleChecks) : Foreign (.replay text 0) := by
  rintro other hmem heq
  obtain ⟨rfl, -⟩ := StudyException.replay.inj heq
  exact h hmem

theorem invalid_foreign (h : text ∉ lifecycleChecks) : Yields Foreign P (invalid text) :=
  foreign_of_notMem h

theorem intact_of_foreign {error : StudyException} (h : Foreign error) :
    ¬BrokenLifecycle (.study error) := by
  rintro ⟨text, hmem, heq⟩
  exact h text hmem (PositionError.study.inj heq)

theorem outOfRange_intact : ¬BrokenLifecycle .outOfRange := by
  rintro ⟨text, -, heq⟩
  cases heq

theorem reject_intact (h : text ∉ lifecycleChecks) : Intact P (Simulation.reject text) :=
  intact_of_foreign (foreign_of_notMem h)

theorem onPositions_intact {x : Except StudyPositions.Failure α}
    (h : Yields (fun failure => ¬BrokenLifecycle failure.1) P x) :
    Intact P (Simulation.onPositions x) := by
  cases x with
  | ok value => exact h
  | error failure => exact h

theorem lift_eq_ok {x : Except StudyException α} {value : α} (h : Simulation.lift x = .ok value) :
    x = .ok value := by
  cases x with
  | ok other => exact congrArg _ (Except.ok.inj h)
  | error error => cases h

theorem onPositions_eq_ok {x : Except StudyPositions.Failure α} {value : α}
    (h : Simulation.onPositions x = .ok value) : x = .ok value := by
  cases x with
  | ok other => exact congrArg _ (Except.ok.inj h)
  | error failure => cases h

theorem later_intact (h : text ∉ lifecycleChecks) (time delay : ℕ) :
    Intact (fun due => due = time + delay) (Simulation.later text time delay) := by
  unfold Simulation.later
  split
  · exact reject_intact h
  · rfl

end Errors

/-! ### Walks and quotes -/

/-- The texts of the errors of walks and quotes. -/
def quoteErrors : List String :=
  ["sale credit overflow", "fill charge overflow", "liquidity overflow", "reservation overflow",
    "sizing counter overflow", "net sizing input/arithmetic invariant"]

/-- An error of a walk or of a quote. -/
def OfQuote (error : StudyException) : Prop := ∃ text ∈ quoteErrors, error = .replay text 0

theorem OfQuote.foreign {error : StudyException} (h : OfQuote error) : Foreign error := by
  have hdisjoint : ∀ text ∈ quoteErrors, text ∉ lifecycleChecks := by decide
  obtain ⟨text, hmem, rfl⟩ := h
  exact foreign_of_notMem (hdisjoint text hmem)

theorem invalid_ofQuote {α : Type} {P : α → Prop} {text : String} (h : text ∈ quoteErrors) :
    Yields OfQuote P (invalid text) := ⟨text, h, rfl⟩

theorem lift_quote_intact {α : Type} {P : α → Prop} {x : Except StudyException α}
    (h : Yields OfQuote P x) : Intact P (Simulation.lift x) := by
  cases x with
  | ok value => exact h
  | error error => exact intact_of_foreign (OfQuote.foreign h)

section Walk

variable {policy : StudyPolicy} {order : WalkOrder}

theorem charge_errors (fill : ℕ) (price : Price) (fees : FeeAccumulator) :
    Yields OfQuote (fun _ => True) (order.charge policy fill price fees) := by
  unfold WalkOrder.charge
  dsimp only
  split <;> split
  · exact invalid_ofQuote (by decide)
  · trivial
  · exact invalid_ofQuote (by decide)
  · trivial

theorem take_spec (walk : Walk) (price : Price) (fill : ℕ) :
    Yields OfQuote (fun next => next.execution.quantity = walk.execution.quantity + fill)
      (walk.take policy order price fill) := by
  refine Yields.bind (charge_errors fill price walk.fees) fun ⟨amounts, fees⟩ _ _ => ?_
  dsimp only
  split
  · split
    · exact invalid_ofQuote (by decide)
    · rfl
  · rfl

theorem fillable_le (shown used filled : ℕ) :
    order.fillable policy shown used filled ≤ order.quantity - filled :=
  (Nat.div_mul_le_self _ _).trans (Nat.min_le_right _ _)

/-- **A walk fills no more than the order.** -/
theorem walkLevels_spec (levels : List Book.Level) {walk : Walk}
    (h : walk.execution.quantity ≤ order.quantity) :
    Yields OfQuote (fun final => final.execution.quantity ≤ order.quantity)
      (walkLevels policy order levels walk) := by
  induction levels generalizing walk with
  | nil => exact h
  | cons level levels ih =>
    unfold walkLevels
    dsimp only
    split
    · exact h
    split
    · exact ih h
    refine Yields.bind (take_spec walk _ _) fun next _ hnext => ?_
    have hfill := @fillable_le policy order level.quantity.raw
      (walk.consumed (order.key (legPrice order.leg level.price))) walk.execution.quantity
    have hle : next.execution.quantity ≤ order.quantity := by omega
    split
    · exact ih hle
    · exact hle

theorem walk_spec (policy : StudyPolicy) (order : WalkOrder) (state : MarketState)
    (consumed : LiquidityKey → ℕ) :
    Yields OfQuote (fun final => final.execution.quantity ≤ order.quantity)
      (walk policy order state consumed) := walkLevels_spec _ (Nat.zero_le _)

theorem reservation_errors (policy : StudyPolicy) (leg : PayoffLegTemplate) (quantity price : ℕ) :
    Yields OfQuote (fun _ => True) (reservation policy leg quantity price) := by
  unfold reservation
  split
  · exact invalid_ofQuote (by decide)
  · trivial

variable {consumed : LiquidityKey → ℕ} {state : MarketState} {legs : Fin 2 → PayoffLegTemplate}

theorem quoteLeg_errors (leg : PayoffLegTemplate) (quantity : ℕ) :
    Yields OfQuote (fun _ => True) (quoteLeg policy consumed state leg quantity) :=
  Yields.map ((walk_spec policy _ state consumed).mono fun _ _ => trivial)

theorem sizeLeg_errors (leg : PayoffLegTemplate) (quantity : ℕ) (quote : Execution) :
    Yields OfQuote (fun _ => True) (sizeLeg policy leg quantity quote) := by
  unfold sizeLeg
  split
  · exact invalid_ofQuote (by decide)
  · exact Yields.bind (reservation_errors _ _ _ _) fun _ _ _ => trivial

theorem sizeLegs_errors (quantity : ℕ) (quotes : Fin 2 → Execution) :
    Yields OfQuote (fun _ => True) (sizeLegs policy legs quantity quotes) :=
  Yields.bind (sizeLeg_errors _ _ _) fun _ _ _ =>
    Yields.bind (sizeLeg_errors _ _ _) fun _ _ _ => trivial

theorem quoteLegs_errors (quantity : ℕ) :
    Yields OfQuote (fun _ => True) (quoteLegs policy consumed state legs quantity) :=
  Yields.bind (quoteLeg_errors _ _) fun _ _ _ =>
    Yields.bind (quoteLeg_errors _ _) fun _ _ _ => sizeLegs_errors _ _

theorem fundedSteps_errors (available : ℤ) (fuel lo hi : ℕ) :
    Yields OfQuote (fun _ => True)
      (fundedSteps policy consumed state legs available fuel lo hi) := by
  induction fuel generalizing lo hi with
  | zero => trivial
  | succ fuel ih =>
    unfold fundedSteps
    split
    · refine Yields.bind (quoteLegs_errors _) fun sized _ _ => ?_
      split
      · exact ih _ _
      · exact ih _ _
    · trivial

theorem legacyQuote_errors (available : ℤ) :
    Yields OfQuote (fun _ => True) (legacyQuote policy consumed state legs available) := by
  have hrequote (leg : PayoffLegTemplate) (quantity : ℕ) (depth : Execution) :
      Yields OfQuote (fun _ => True) (requoteLeg policy consumed state leg quantity depth) := by
    unfold requoteLeg
    split
    · trivial
    · exact quoteLeg_errors _ _
  refine Yields.bind (quoteLeg_errors _ _) fun depth0 _ _ => ?_
  refine Yields.bind (quoteLeg_errors _ _) fun depth1 _ _ => ?_
  dsimp only
  split
  · trivial
  refine Yields.bind (hrequote _ _ _) fun quote0 _ _ => ?_
  refine Yields.bind (hrequote _ _ _) fun quote1 _ _ => ?_
  refine Yields.bind (sizeLegs_errors _ _) fun sized _ _ => ?_
  unfold fundedQuote
  split
  · trivial
  refine Yields.bind (fundedSteps_errors _ _ _ _) fun steps _ _ => ?_
  dsimp only
  split
  · trivial
  · exact Yields.bind (quoteLegs_errors _) fun _ _ _ => trivial

theorem selectQuote_errors (available : ℤ) (counters : SizingCounters) :
    Yields OfQuote (fun _ => True)
      (selectQuote policy consumed state legs available counters) := by
  unfold selectQuote
  split
  · split
    · exact invalid_ofQuote (by decide)
    unfold optimalQuote
    dsimp only
    split
    · exact invalid_ofQuote (by decide)
    split
    all_goals first | trivial | exact invalid_ofQuote (by decide)
  · exact Yields.map ((legacyQuote_errors available).mono fun _ _ => trivial)

/-- The bisection ends where it started, or at a quantity that was found funded. -/
theorem fundedSteps_funded {available : ℤ} {fuel lo hi steps : ℕ}
    (h : fundedSteps policy consumed state legs available fuel lo hi = .ok steps) :
    steps = lo ∨ ∃ sized, quoteLegs policy consumed state legs
      (steps * policy.quantityStep.raw) = .ok sized ∧ (needed sized : ℤ) ≤ available := by
  induction fuel generalizing lo hi with
  | zero => exact .inl (Except.ok.inj h).symm
  | succ fuel ih =>
    unfold fundedSteps at h
    split at h
    · dsimp only at h
      obtain ⟨sized, hsized, hnext⟩ := bind_eq_ok h
      split at hnext
      · next hfunded =>
        rcases ih hnext with rfl | hfound
        · exact .inr ⟨sized, hsized, hfunded⟩
        · exact .inr hfound
      · exact ih hnext
    · exact .inl (Except.ok.inj h).symm

theorem costedQuote_legs {quantity : ℕ} {sized : Fin 2 → SizedLeg} {quote : SizedPair}
    (h : costedQuote policy quantity sized = .ok quote) : quote.legs = sized := by
  unfold costedQuote at h
  dsimp only at h
  split at h
  · cases h
  · obtain rfl := Except.ok.inj h
    rfl

theorem fundedQuote_reserves {available : ℤ} {quantity : ℕ} {sized : Fin 2 → SizedLeg}
    {quote : SizedPair}
    (h : fundedQuote policy consumed state legs available quantity sized = .ok (.ok quote)) :
    (needed quote.legs : ℤ) ≤ available := by
  unfold fundedQuote at h
  split at h
  · next hfunded => rwa [costedQuote_legs (Except.ok.inj h)]
  · dsimp only at h
    obtain ⟨steps, hsteps, hrest⟩ := bind_eq_ok h
    split at hrest
    · cases hrest
    next hpos =>
    obtain ⟨sized', hsized', hquote⟩ := bind_eq_ok hrest
    rw [costedQuote_legs (Except.ok.inj hquote)]
    rcases fundedSteps_funded hsteps with rfl | ⟨found, hfound, hfunded⟩
    · exact absurd (Nat.zero_mul _) hpos
    · obtain rfl := Except.ok.inj (hsized'.symm.trans hfound)
      exact hfunded

/-- **A quote is made only with the cash for it**, whatever the fees and the books are. -/
theorem selectQuote_reserves {available : ℤ} {counters counters' : SizingCounters}
    {quote : SizedPair}
    (h : selectQuote policy consumed state legs available counters = .ok (.ok quote, counters')) :
    ((quote.legs 0).reservation + (quote.legs 1).reservation : ℤ) ≤ available := by
  suffices hneeded : (needed quote.legs : ℤ) ≤ available by
    rwa [needed, Nat.cast_add] at hneeded
  unfold selectQuote at h
  split at h
  · split at h
    · cases h
    next cash hcash =>
    have hfunded := (sizeBuyPair_quote (optimalQuote_eq_ok h)).2.2.candidate.funded
    rw [LegOrder.reserve, Fin.sum_univ_two] at hfunded
    rw [← Cash.fromRaw_eq_some_iff.mp hcash]
    exact Int.ofNat_le.mpr hfunded
  · cases hlegacy : legacyQuote policy consumed state legs available with
    | error error =>
      rw [hlegacy] at h
      cases h
    | ok result =>
      rw [hlegacy] at h
      obtain ⟨rfl, -⟩ := Prod.mk.inj (Except.ok.inj h)
      unfold legacyQuote at hlegacy
      dsimp only at hlegacy
      obtain ⟨depth0, -, hlegacy⟩ := bind_eq_ok hlegacy
      obtain ⟨depth1, -, hlegacy⟩ := bind_eq_ok hlegacy
      split at hlegacy
      · cases hlegacy
      obtain ⟨quote0, -, hlegacy⟩ := bind_eq_ok hlegacy
      obtain ⟨quote1, -, hlegacy⟩ := bind_eq_ok hlegacy
      obtain ⟨sized, -, hlegacy⟩ := bind_eq_ok hlegacy
      exact fundedQuote_reserves hlegacy

end Walk

/-! ### Positions -/

section Positions

variable {self : StudyPositions}

/-- An operation on positions in which no check of the lifecycle fails. -/
abbrev Harmless {α : Type} (x : Except StudyPositions.Failure α) : Prop :=
  Yields (fun failure => ¬BrokenLifecycle failure.1) (fun _ => True) x

theorem rejects_harmless {α : Type} {text : String} (h : text ∉ lifecycleChecks) :
    Harmless (self.reject text : Except StudyPositions.Failure α) :=
  intact_of_foreign (foreign_of_notMem h)

theorem find_harmless (attempt leg : ℕ) : Harmless (self.find attempt leg) := by
  unfold StudyPositions.find
  split
  · trivial
  · exact outOfRange_intact

theorem acquire_harmless (attempt legIndex : ℕ) (leg : PayoffLegTemplate) (quantity debit : ℤ)
    (time : ℕ) : Harmless (self.acquire attempt legIndex leg quantity debit time) := by
  refine Yields.bind (find_harmless _ _) fun index _ _ => ?_
  dsimp only
  split
  · exact rejects_harmless (by decide)
  · trivial

theorem quantity_harmless (attempt leg : ℕ) : Harmless (self.quantity attempt leg) :=
  Yields.bind (find_harmless _ _) fun _ _ _ => trivial

theorem add_foreign (total : CapitalTime) (cash nanoseconds : ℤ) :
    Yields Foreign (fun _ => True) (total.add cash nanoseconds) := by
  unfold CapitalTime.add
  dsimp only
  split
  · exact invalid_foreign (by decide)
  split
  · exact invalid_foreign (by decide)
  split
  · exact invalid_foreign (by decide)
  · trivial

theorem takeLot_harmless (index head take time : ℕ) :
    Harmless (self.takeLot index head take time) := by
  unfold StudyPositions.takeLot
  dsimp only
  split
  · next error heq => exact intact_of_foreign ((add_foreign _ _ _).of_error heq)
  · split
    · trivial
    split
    · exact rejects_harmless (by decide)
    · trivial

theorem closeLots_harmless (fuel : ℕ) (index remaining released time : ℕ) :
    Harmless (closeLots fuel self index remaining released time) := by
  induction fuel generalizing self remaining released with
  | zero => trivial
  | succ fuel ih =>
    unfold closeLots
    split
    · trivial
    split
    · exact rejects_harmless (by decide)
    · exact Yields.bind (takeLot_harmless _ _ _ _) fun _ _ _ => ih _ _

/-- Closing no more than is owned. -/
theorem closePosition_harmless {index quantity : ℕ} (time : ℕ)
    (h : quantity ≤ (self.position index).quantity) :
    Harmless (self.closePosition index quantity time) := by
  unfold StudyPositions.closePosition
  rw [if_neg (by omega)]
  exact Yields.bind (closeLots_harmless _ _ _ _ _) fun _ _ _ => trivial

theorem find_eq_ok {attempt leg index : ℕ} (h : self.find attempt leg = .ok index) :
    index = attempt * 2 + leg := by
  unfold StudyPositions.find at h
  split at h
  · exact (Except.ok.inj h).symm
  · cases h

theorem quantity_eq_ok {attempt leg owned : ℕ} (h : self.quantity attempt leg = .ok owned) :
    owned = (self.position (attempt * 2 + leg)).quantity := by
  obtain ⟨index, hindex, hquantity⟩ := bind_eq_ok h
  rw [← find_eq_ok hindex]
  exact (Except.ok.inj hquantity).symm

theorem close_harmless {attempt leg quantity : ℕ} (time : ℕ)
    (h : quantity ≤ (self.position (attempt * 2 + leg)).quantity) :
    Harmless (self.close attempt leg quantity time) := by
  refine Yields.bind (find_harmless _ _) fun index hindex _ => ?_
  exact closePosition_harmless time (find_eq_ok hindex ▸ h)

theorem settlePosition_harmless (settlement : Settlement) (result : SettlementResult) (index : ℕ) :
    Harmless (self.settlePosition settlement result index) := by
  unfold StudyPositions.settlePosition
  dsimp only
  split
  · trivial
  split
  · exact rejects_harmless (by decide)
  split
  · exact rejects_harmless (by decide)
  · exact Yields.bind (closePosition_harmless _ le_rfl) fun _ _ _ => trivial

theorem settlePositions_harmless (settlement : Settlement) (indices : List ℕ)
    (result : SettlementResult) : Harmless (settlePositions settlement indices self result) := by
  induction indices generalizing self result with
  | nil => trivial
  | cons index indices ih =>
    exact Yields.bind (settlePosition_harmless settlement result index) fun _ _ _ => ih _

end Positions

/-! ### What the steps do -/

namespace Lifecycle.Ledger.Conserved

/-! #### The ledger -/

variable {ledger : Ledger} {capital amount : ℕ}

theorem reserve (h : ledger.Conserved capital) (hle : (amount : ℤ) ≤ ledger.available) :
    (ledger.reserve amount).Conserved capital := by
  unfold Conserved Ledger.reserve at *
  dsimp only
  omega

theorem release (h : ledger.Conserved capital) (hle : (amount : ℤ) ≤ ledger.reservedTotal) :
    (ledger.release amount).Conserved capital := by
  unfold Conserved Ledger.release at *
  dsimp only
  omega

theorem buy (h : ledger.Conserved capital) (fill : Execution) :
    (ledger.buy fill).Conserved capital := by
  unfold Conserved Ledger.buy at *
  dsimp only
  omega

/-- The response to a buy that stayed within its reserve. -/
theorem confirmBuy {fill : Execution} (h : ledger.Conserved capital)
    (hreserve : (amount : ℤ) ≤ ledger.reservedTotal)
    (hdebit : (fill.debit : ℤ) ≤ ledger.unconfirmedDebit) (hle : fill.debit ≤ amount) :
    (ledger.confirmBuy amount fill).Conserved capital := by
  unfold Conserved Ledger.confirmBuy at *
  dsimp only
  omega

theorem sale (h : ledger.Conserved capital) (fill : Execution) (basis : ℕ) :
    (ledger.sale fill basis).Conserved capital := by
  unfold Conserved Ledger.sale at *
  dsimp only
  omega

theorem confirmSale {fill : Execution} (h : ledger.Conserved capital)
    (hcredit : (fill.credit : ℤ) ≤ ledger.unconfirmedCredit) :
    (ledger.confirmSale fill).Conserved capital := by
  unfold Conserved Ledger.confirmSale at *
  dsimp only
  omega

theorem settle (h : ledger.Conserved capital) (payout : ℕ) :
    (ledger.settle payout).Conserved capital := by
  unfold Conserved Ledger.settle at *
  dsimp only
  omega

end Lifecycle.Ledger.Conserved

namespace Simulation

open Lifecycle

variable {study : LifecycleStudy} {self : Simulation study} {index time : ℕ} {state : MarketState}

/-- **What an exit may sell**: of the leg in excess, no more than the excess and than is owned. -/
structure ExitOffer (current : Simulation study) (index : ℕ) (leg : Fin 2) (quantity : ℕ) :
    Prop where
  pos : 0 < quantity
  unbalanced : (current.attempt index).difference ≠ 0
  leg_eq : leg = if 0 < (current.attempt index).difference then 0 else 1
  le_difference : quantity ≤ (current.attempt index).difference.natAbs
  owned : ∃ owned, current.positions.quantity index leg = .ok owned ∧ quantity ≤ owned
  not_settled : current.settled ((current.attempt index).legs leg).marketId = false

/-- Considering an exit: there are none, it is declined, or it is sent. -/
inductive ExitOutcome (self : Simulation study) (index time : ℕ) : Simulation study → Prop
  | held (hnone : study.policy.residualExit = none) : ExitOutcome self index time self
  | declined (reason : String) (hsome : study.policy.residualExit.isSome) :
      ExitOutcome self index time
        ((self.markExit index).emit (.exitDeclined (self.attempt index).id time reason))
  | sent (config : ResidualExitPolicy) (leg : Fin 2) (quote : Execution)
      (hconfig : study.policy.residualExit = some config)
      (hoffer : (self.markExit index).ExitOffer index leg quote.quantity) :
      ExitOutcome self index time ((self.markExit index).submit index leg quote.quantity
        quote.worstPrice 0 (time + config.latency) true)

/-- A choice that is sound when it is made at all. -/
abbrev Offers {α : Type} (P : α → Prop) (choice : Except String α) : Prop :=
  Yields (fun _ => True) P choice

theorem exitChoice_intact (config : ResidualExitPolicy) :
    Intact (Offers fun offer => self.ExitOffer index offer.1 offer.2.quantity)
      (self.exitChoice config index time state) := by
  unfold exitChoice
  dsimp only
  generalize hleg : (if 0 < (self.attempt index).difference then (0 : Fin 2) else 1) = leg
  split
  · trivial
  next hunbalanced =>
  split
  · trivial
  split
  · trivial
  split
  · trivial
  next hsettled =>
  split
  · trivial
  refine Yields.bind (onPositions_intact (quantity_harmless _ _)) fun owned howned _ => ?_
  refine Yields.bind (lift_quote_intact (walk_spec _ _ _ _)) fun quote _ hquote => ?_
  have hle : quote.execution.quantity ≤ min (self.attempt index).difference.natAbs owned := hquote
  split
  · trivial
  next hpos =>
  exact {
    pos := Nat.pos_of_ne_zero hpos
    unbalanced := hunbalanced
    leg_eq := hleg.symm
    le_difference := hle.trans (Nat.min_le_left _ _)
    owned := ⟨owned, onPositions_eq_ok howned, hle.trans (Nat.min_le_right _ _)⟩
    not_settled := by simpa using hsettled }

theorem considerExit_intact (hfirst : (self.attempt index).exitConsidered = false)
    (hresponded : (self.attempt index).pendingBuys = 0) :
    Intact (self.ExitOutcome index time) (self.considerExit index time state) := by
  unfold considerExit
  split
  · next hnone => exact .held hnone
  next config hconfig =>
  dsimp only
  rw [if_neg (by simp [hfirst]), if_neg (not_not.mpr hresponded)]
  refine Yields.bind (exitChoice_intact config) fun choice _ hchoice => ?_
  cases choice with
  | error reason => exact .declined reason (by simp [hconfig])
  | ok offer =>
    obtain ⟨leg, quote⟩ := offer
    refine Yields.bind (later_intact (by decide) _ _) fun arrival _ harrival => ?_
    subst harrival
    exact .sent config leg quote hconfig hchoice

/-! #### Responses -/

/-- **What a completion may buy**: no more than the first leg has in excess, within the budget. -/
structure CompletionOffer (current : Simulation study) (index : ℕ) (quote : Execution)
    (needed : ℕ) :
    Prop where
  pos : 0 < quote.quantity
  le_difference : (quote.quantity : ℤ) ≤ (current.attempt index).difference
  budget : (current.attempt index).completionOrders < study.lifecycle.maximumCompletionOrders
  not_settled : current.settled ((current.attempt index).legs 1).marketId = false
  reserved : reservation study.policy ((current.attempt index).legs 1) quote.quantity
    quote.worstPrice = .ok needed
  funded : (needed : ℤ) ≤ current.ledger.available + (current.attempt index).reserve 1

theorem completionChoice_intact :
    Intact (Offers fun offer => self.CompletionOffer index offer.1 offer.2)
      (self.completionChoice index time state) := by
  unfold completionChoice
  dsimp only
  split
  · trivial
  next hpositive =>
  split
  · trivial
  next hbudget =>
  split
  · trivial
  next hopen =>
  refine Yields.bind (lift_quote_intact (walk_spec _ _ _ _)) fun walked _ hwalked => ?_
  have hle : walked.execution.quantity ≤ (self.attempt index).difference.toNat := hwalked
  split
  · trivial
  next hpos =>
  split
  · trivial
  refine Yields.bind (lift_quote_intact (reservation_errors _ _ _ _)) fun needed hneeded _ => ?_
  split
  · trivial
  next hfunded =>
  have hle' : (walked.execution.quantity : ℤ) ≤ (self.attempt index).difference := by omega
  simp only [Bool.or_eq_true, decide_eq_true_eq, not_or, not_le] at hbudget
  simp only [Bool.or_eq_true, not_or, Bool.not_eq_true] at hopen
  exact {
    pos := Nat.pos_of_ne_zero hpos
    le_difference := hle'
    budget := hbudget.2
    not_settled := hopen.2
    reserved := lift_eq_ok hneeded
    funded := not_lt.mp hfunded }

/-- After the response to a buy: the other one is awaited, the acquisition is over, or the second
leg is bought. -/
inductive BuyOutcome (self : Simulation study) (index time : ℕ) : Simulation study → Prop
  | waits (hparallel : study.lifecycle.sequential = false)
      (hpending : (self.attempt index).pendingBuys ≠ 0) : BuyOutcome self index time self
  | leaves {next : Simulation study} (hparallel : study.lifecycle.sequential = false)
      (hpending : (self.attempt index).pendingBuys = 0) (hexit : self.ExitOutcome index time next) :
      BuyOutcome self index time next
  | stops {next : Simulation study} (reason : String)
    (hsequential : study.lifecycle.sequential = true)
      (hexit : (self.stopAcquisition index reason).ExitOutcome index time next) :
      BuyOutcome self index time next
  | completes (quote : Execution) (needed : ℕ) (hsequential : study.lifecycle.sequential = true)
      (hoffer : self.CompletionOffer index quote needed) :
      BuyOutcome self index time
        (self.sendCompletion index quote needed (time + study.policy.latency 1))

/-- What considering an exit after a response depends on. -/
structure Leavable (current : Simulation study) (index : ℕ) : Prop where
  first : (current.attempt index).exitConsidered = false
  alone : study.lifecycle.sequential = true → (current.attempt index).pendingBuys = 0

theorem attempt_setAttempt {other : ℕ} (attempt : Lifecycle.Attempt)
    (h : index < self.attempts.length) :
    (self.setAttempt index attempt).attempt other =
      if other = index then attempt else self.attempt other := by
  unfold setAttempt Simulation.attempt
  rw [List.getD_eq_getElem?_getD, List.getD_eq_getElem?_getD, List.getElem?_set]
  by_cases heq : index = other
  · subst heq
    simp [h]
  · rw [if_neg heq, if_neg (Ne.symm heq)]

theorem order_setOrder {other : ℕ} (order : Order) (h : index < self.orders.length) :
    (self.setOrder index order).order other =
      if other = index then order else self.order other := by
  unfold setOrder Simulation.order
  rw [List.getD_eq_getElem?_getD, List.getD_eq_getElem?_getD, List.getElem?_set]
  by_cases heq : index = other
  · subst heq
    simp [h]
  · rw [if_neg heq, if_neg (Ne.symm heq)]

theorem afterBuy_intact (hindex : index < self.attempts.length) (h : self.Leavable index) :
    Intact (self.BuyOutcome index time) (self.afterBuy index time state) := by
  unfold afterBuy
  split
  · next hsequential =>
    refine Yields.bind completionChoice_intact fun choice _ hchoice => ?_
    cases choice with
    | error reason =>
      have hattempt : ((self.stopAcquisition index reason).attempt index) =
          (self.attempt index).stop := (attempt_setAttempt _ hindex).trans (if_pos rfl)
      refine (considerExit_intact ?_ ?_).mono fun next hnext => .stops reason hsequential hnext
      · rw [hattempt]
        exact h.first
      · rw [hattempt]
        exact h.alone hsequential
    | ok offer =>
      obtain ⟨quote, needed⟩ := offer
      refine Yields.bind (later_intact (by decide) _ _) fun arrival _ harrival => ?_
      subst harrival
      exact .completes quote needed hsequential hchoice
  next hparallel =>
  have hparallel : study.lifecycle.sequential = false := by simpa using hparallel
  split
  · next hpending =>
    exact (considerExit_intact h.first hpending).mono fun next hnext =>
      .leaves hparallel hpending hnext
  · next hpending => exact .waits hparallel hpending

theorem ledger_exit {next : Simulation study} (h : self.ExitOutcome index time next) :
    next.ledger = self.ledger := by
  cases h <;> rfl

/-- What follows the response to a buy conserves the cash. -/
theorem BuyOutcome.conserved {next : Simulation study} (h : self.BuyOutcome index time next)
    (hledger : self.ledger.Conserved study.policy.capital.raw)
    (hreserve : ((self.attempt index).reserve 1 : ℤ) ≤ self.ledger.reservedTotal) :
    next.ledger.Conserved study.policy.capital.raw := by
  have hreleased := hledger.release hreserve
  cases h with
  | waits _ _ => exact hledger
  | leaves _ _ hexit => exact ledger_exit hexit ▸ hledger
  | stops reason _ hexit =>
    rw [ledger_exit hexit]
    exact hreleased
  | completes quote needed _ hoffer => exact hreleased.reserve hoffer.funded

/-! #### Events -/

/-- The check passes when the cash is conserved. -/
theorem checkCash_intact (h : self.ledger.Conserved study.policy.capital.raw) :
    Intact (fun next => next = self) self.checkCash := by
  unfold checkCash
  rw [if_pos h]
  rfl

/-- What a buy fills at its arrival: nothing, or a walk while its market is not settled. -/
def Bought (self : Simulation study) (order : Order) (state : MarketState) (walked : Walk) : Prop :=
  walked = self.noFill ∨
    self.settled ((self.attempt order.attempt).legs order.leg).marketId = false ∧
    walk study.policy { leg := (self.attempt order.attempt).legs order.leg
                        quantity := order.quantity
                        limit := order.limit, execute := true } state self.consumed = .ok walked

/-- What an exit sells at its arrival: nothing, or a walk for what is still owned. -/
def Sold (self : Simulation study) (order : Order) (state : MarketState) (walked : Walk) : Prop :=
  walked = self.noFill ∨
    self.settled ((self.attempt order.attempt).legs order.leg).marketId = false ∧
    ∃ owned, self.positions.quantity order.attempt order.leg = .ok owned ∧
      walk study.policy { leg := (self.attempt order.attempt).legs order.leg, sell := true
                          quantity := min owned order.quantity, limit := order.limit
                          execute := true } state self.consumed = .ok walked

/-- The market of a buy that filled something is open. -/
theorem Bought.opened {order : Order} {walked : Walk} (h : self.Bought order state walked)
    (hne : walked.execution.quantity ≠ 0) :
    self.settled ((self.attempt order.attempt).legs order.leg).marketId = false := by
  rcases h with rfl | ⟨hopen, -⟩
  · exact absurd rfl hne
  · exact hopen

/-- An exit sells no more than it was sent for, and than is owned. -/
theorem Sold.fill_le {order : Order} {walked : Walk} (h : self.Sold order state walked) :
    walked.execution.quantity ≤ order.quantity ∧ walked.execution.quantity ≤
      (self.positions.position (order.attempt * 2 + order.leg)).quantity := by
  rcases h with rfl | ⟨-, owned, howned, hwalk⟩
  · exact ⟨Nat.zero_le _, Nat.zero_le _⟩
  · have hle := (walk_spec _ _ _ _).of_ok hwalk
    rw [← quantity_eq_ok howned]
    exact ⟨hle.trans (Nat.min_le_right _ _), hle.trans (Nat.min_le_left _ _)⟩

/-- **What an event does.** -/
inductive EventOutcome (self : Simulation study) (state : MarketState) : Due →
    Simulation study → Prop
  | settles (settlement : Settlement) (closed : SettlementResult) (positions : StudyPositions)
      (hsettle : self.positions.settle settlement = .ok (closed, positions)) :
      EventOutcome self state (.settlement settlement)
        (self.advanceSettlement.recordSettlement settlement closed positions)
  | sells (event : Event) (config : ResidualExitPolicy) (order : Order) (walked : Walk) (basis : ℕ)
      (positions : StudyPositions) (harrival : event.response = false)
      (horder : order = (self.pop.markArrived event).order event.order) (hsell : order.sell = true)
      (hconfig : study.policy.residualExit = some config)
      (hsold : (self.pop.markArrived event).Sold order state walked)
      (hclose : self.positions.close order.attempt order.leg walked.execution.quantity event.time =
        .ok (basis, positions)) :
      EventOutcome self state (.event event)
        (((self.pop.markArrived event).recordSale event.order order walked basis positions
          event.time).respondAt event (event.time + config.responseLatency))
  | buys (event : Event) (order : Order) (walked : Walk) (positions : StudyPositions)
      (harrival : event.response = false)
      (horder : order = (self.pop.markArrived event).order event.order) (hbuy : order.sell = false)
      (hbought : (self.pop.markArrived event).Bought order state walked)
      (hreserved : walked.execution.debit ≤ order.reserve)
      (hacquire : ((self.pop.markArrived event).recordBuy event.order order
        walked).acquireFill order
        walked.execution event.time = .ok positions) :
      EventOutcome self state (.event event)
        ({ (self.pop.markArrived event).recordBuy event.order order walked
          with positions }.respondAt
          event (event.time + study.lifecycle.responseLatency order.leg))
  | confirmsSale (event : Event) (hresponse : event.response = true)
      (hsell : (self.order event.order).sell = true) :
      EventOutcome self state (.event event)
        ((self.pop.markResponded event).confirmSale event (self.order event.order))
  | confirmsBuy {next : Simulation study} (event : Event) (hresponse : event.response = true)
      (hbuy : (self.order event.order).sell = false)
      (hnext : ((self.pop.markResponded event).confirmBuy event (self.order event.order)).BuyOutcome
        (self.order event.order).attempt event.time next) :
      EventOutcome self state (.event event) next

/-- An event that fits its order. -/
structure Expected (current : Simulation study) (event : Event) : Prop where
  arrived : (current.order event.order).arrived = event.response
  unanswered : (current.order event.order).responded = false
  owner : (current.order event.order).attempt < current.attempts.length
  leavable : event.response = true → (current.order event.order).sell = false →
    (current.attempt (current.order event.order).attempt).exitConsidered = false ∧
      (current.attempt (current.order event.order).attempt).pendingBuys ≠ 0 ∧
      (study.lifecycle.sequential = true →
        (current.attempt (current.order event.order).attempt).pendingBuys ≤ 1)

/-- **A ledger that covers the response to an order**: what was filled is unconfirmed, and was
reserved for. -/
structure Solvent (current : Simulation study) (order : Order) : Prop where
  conserved : current.ledger.Conserved study.policy.capital.raw
  sale : order.sell = true → (order.fill.credit : ℤ) ≤ current.ledger.unconfirmedCredit
  debit : order.sell = false → (order.fill.debit : ℤ) ≤ current.ledger.unconfirmedDebit
  within : order.sell = false → order.fill.debit ≤ order.reserve
  reserve : order.sell = false → (order.reserve : ℤ) +
    ((current.attempt order.attempt).confirm order.leg).reserve 1 ≤ current.ledger.reservedTotal

theorem settle_intact (h : self.ledger.Conserved study.policy.capital.raw)
    (settlement : Settlement) :
    Intact (self.EventOutcome state (.settlement settlement))
      (self.advanceSettlement.settle settlement) := by
  refine Yields.bind (onPositions_intact (settlePositions_harmless _ _ _))
    fun result hresult _ => ?_
  obtain ⟨closed, positions⟩ := result
  dsimp only
  split
  · exact reject_intact (by decide)
  refine (checkCash_intact (h.settle closed.payout)).mono fun next hnext => ?_
  subst hnext
  exact .settles settlement closed positions (onPositions_eq_ok hresult)

theorem buyFill_intact (order : Order) :
    Intact (self.Bought order state) (self.buyFill order time state) := by
  unfold buyFill
  dsimp only
  split
  · next hopen =>
    simp only [Bool.and_eq_true, Bool.not_eq_true'] at hopen
    cases hwalk : walk study.policy { leg := (self.attempt order.attempt).legs order.leg
                                      quantity := order.quantity, limit := order.limit
                                      execute := true } state self.consumed with
    | ok walked => exact .inr ⟨hopen.1.2, hwalk⟩
    | error error => exact intact_of_foreign ((walk_spec _ _ _ _).of_error hwalk).foreign
  · exact .inl rfl

theorem exitFill_intact (config : ResidualExitPolicy) (order : Order) :
    Intact (self.Sold order state) (self.exitFill config order time state) := by
  unfold exitFill
  dsimp only
  split
  · next hopen =>
    simp only [Bool.and_eq_true, Bool.not_eq_true'] at hopen
    refine Yields.bind (onPositions_intact (quantity_harmless _ _)) fun owned howned _ => ?_
    split
    · exact .inl rfl
    cases hwalk : walk study.policy { leg := (self.attempt order.attempt).legs order.leg
                                      sell := true, quantity := min owned order.quantity
                                      limit := order.limit
                                      execute := true } state self.consumed with
    | ok walked => exact .inr ⟨hopen.1.2, owned, onPositions_eq_ok howned, hwalk⟩
    | error error => exact intact_of_foreign ((walk_spec _ _ _ _).of_error hwalk).foreign
  · exact .inl rfl

theorem arriveExit_intact (h : self.ledger.Conserved study.policy.capital.raw)
    (config : ResidualExitPolicy) (id : ℕ) (order : Order) :
    Intact (fun next => ∃ walked basis positions, self.Sold order state walked ∧
      self.positions.close order.attempt order.leg walked.execution.quantity time =
        .ok (basis, positions) ∧
      next = self.recordSale id order walked basis positions time)
      (self.arriveExit config id order time state) := by
  refine Yields.bind (exitFill_intact config order) fun walked _ hsold => ?_
  dsimp only
  split
  · exact reject_intact (by decide)
  refine Yields.bind (onPositions_intact (close_harmless _ hsold.fill_le.2))
    fun result hresult _ => ?_
  obtain ⟨basis, positions⟩ := result
  refine (checkCash_intact (h.sale walked.execution basis)).mono fun next hnext => ?_
  subst hnext
  exact ⟨walked, basis, positions, hsold, onPositions_eq_ok hresult, rfl⟩

theorem acquireFill_intact (order : Order) (fill : Execution) :
    Intact (fun _ => True) (self.acquireFill order fill time) := by
  unfold acquireFill
  split
  · trivial
  · exact onPositions_intact (acquire_harmless _ _ _ _ _ _)

theorem arriveBuy_intact (h : self.ledger.Conserved study.policy.capital.raw) (id : ℕ)
    (order : Order) :
    Intact (fun next => ∃ walked positions, self.Bought order state walked ∧
      walked.execution.debit ≤ order.reserve ∧
      (self.recordBuy id order walked).acquireFill order walked.execution time = .ok positions ∧
      next = { self.recordBuy id order walked with positions })
      (self.arriveBuy id order time state) := by
  refine Yields.bind (buyFill_intact order) fun walked _ hbought => ?_
  dsimp only
  split
  · exact reject_intact (by decide)
  next hbound =>
  refine Yields.bind (checkCash_intact (h.buy walked.execution)) fun checked _ hchecked => ?_
  subst hchecked
  refine Yields.bind (acquireFill_intact order walked.execution) fun positions hpositions _ => ?_
  exact ⟨walked, positions, hbought, not_lt.mp fun hlt => hbound (.inl hlt), hpositions, rfl⟩

theorem arrive_intact {event : Event} (harrival : event.response = false)
    (h : self.Expected event) (hledger : self.ledger.Conserved study.policy.capital.raw) :
    Intact (self.EventOutcome state (.event event)) (self.pop.arrive event state) := by
  have hfirst : (self.pop.order event.order).arrived = false := h.arrived.trans harrival
  have hmarked : (self.pop.markArrived event).ledger.Conserved study.policy.capital.raw := hledger
  unfold arrive
  rw [if_neg (by simp [hfirst])]
  dsimp only
  generalize horder : (self.pop.markArrived event).order event.order = order
  split
  · next hsell =>
    split
    · exact outOfRange_intact
    next config hconfig =>
    refine Yields.bind (arriveExit_intact hmarked config event.order order) fun next _ hnext => ?_
    obtain ⟨walked, basis, positions, hsold, hclose, rfl⟩ := hnext
    refine Yields.bind (later_intact (by decide) _ _) fun due _ hdue => ?_
    subst hdue
    exact .sells event config order walked basis positions harrival horder.symm hsell hconfig hsold
      hclose
  · next hbuy =>
    refine Yields.bind (arriveBuy_intact hmarked event.order order) fun next _ hnext => ?_
    obtain ⟨walked, positions, hbought, hreserved, hacquire, rfl⟩ := hnext
    refine Yields.bind (later_intact (by decide) _ _) fun due _ hdue => ?_
    subst hdue
    exact .buys event order walked positions harrival horder.symm (by simpa using hbuy) hbought
      hreserved hacquire

theorem attempt_confirmBuy {event : Event} {order : Order}
    (h : order.attempt < self.attempts.length) :
    (self.confirmBuy event order).attempt order.attempt =
      (self.attempt order.attempt).confirm order.leg :=
  (attempt_setAttempt _ h).trans (if_pos rfl)

theorem respond_intact {event : Event} (hresponse : event.response = true)
    (h : self.Expected event) (hsolvent : self.Solvent (self.order event.order)) :
    Intact (self.EventOutcome state (.event event)) (self.pop.respond event state) := by
  have harrived : (self.order event.order).arrived = true := h.arrived.trans hresponse
  have howner : (self.order event.order).attempt < (self.pop.markResponded event).attempts.length :=
    h.owner
  have hanswers : ¬(!(self.pop.order event.order).arrived ||
      (self.pop.order event.order).responded) = true := by
    rw [Bool.or_eq_true, not_or, Bool.not_eq_true, Bool.not_eq_true, Bool.not_eq_false']
    exact ⟨harrived, h.unanswered⟩
  unfold respond
  dsimp only
  rw [if_neg hanswers]
  split
  · next hsell =>
    unfold respondExit
    split
    · exact reject_intact (by decide)
    have hconserved := hsolvent.conserved.confirmSale (hsolvent.sale hsell)
    refine (checkCash_intact hconserved).mono fun next hnext => ?_
    subst hnext
    exact .confirmsSale event hresponse hsell
  next hbuy =>
  have hbuy : (self.order event.order).sell = false := Bool.not_eq_true _ ▸ hbuy
  obtain ⟨hfirst, hpending, halone⟩ := h.leavable hresponse hbuy
  change Intact _ ((self.pop.markResponded event).respondBuy event (self.order event.order) state)
  unfold respondBuy
  rw [if_neg (show ((self.pop.markResponded event).attempt
    (self.order event.order).attempt).pendingBuys ≠ 0 from hpending)]
  have hconfirmed := @attempt_confirmBuy _ (self.pop.markResponded event) event _ howner
  have hlength : (self.order event.order).attempt <
      ((self.pop.markResponded event).confirmBuy event (self.order event.order)).attempts.length :=
    howner.trans_eq List.length_set.symm
  refine Yields.bind (afterBuy_intact hlength ⟨?_, fun hsequential => ?_⟩) fun next _ hnext => ?_
  · rw [hconfirmed]
    exact hfirst
  · rw [hconfirmed]
    exact Nat.sub_eq_zero_of_le (halone hsequential)
  · have hreserve := hsolvent.reserve hbuy
    have hledger := hsolvent.conserved.confirmBuy (by omega) (hsolvent.debit hbuy)
      (hsolvent.within hbuy)
    have hconserved := hnext.conserved hledger (by
      rw [hconfirmed]
      exact le_sub_iff_add_le'.mpr hreserve)
    refine (checkCash_intact hconserved).mono fun checked hchecked => ?_
    subst hchecked
    exact .confirmsBuy event hresponse hbuy hnext

/-- **One event** does one of these, when it is expected and its cash is there. -/
theorem handle_intact {due : Due} (hledger : self.ledger.Conserved study.policy.capital.raw)
    (h : ∀ event, due = .event event →
      self.Expected event ∧ (event.response = true → self.Solvent (self.order event.order))) :
    Intact (self.EventOutcome state due) (self.handle state due) := by
  cases due with
  | settlement settlement => exact settle_intact hledger settlement
  | event event =>
    obtain ⟨hexpected, hsolvent⟩ := h event rfl
    unfold handle
    dsimp only
    split
    · next hresponse => exact respond_intact hresponse hexpected (hsolvent hresponse)
    · next harrival => exact arrive_intact (by simpa using harrival) hexpected hledger

/-! #### Decisions -/

/-- The simulation after both legs of an attempt were reserved. -/
def entered (self : Simulation study) (attempt : Lifecycle.Attempt) : Simulation study :=
  openAttempt (reserveLeg attempt
    (reserveLeg attempt self 0 (attempt.started + study.policy.latency 0))
    1 (attempt.started + study.policy.latency 1)) attempt

/-- The attempt at a quote. -/
def attemptOf (id : ConstraintId) (legs : Fin 2 → PayoffLegTemplate) (quote : SizedPair) (time : ℕ)
    (state : MarketState) : Lifecycle.Attempt where
  id := id
  legs := legs
  generation := state.connectionGeneration.getD 0
  quantity := quote.quantity
  limit := fun leg => (quote.legs leg).limit.raw
  reserve := fun leg => (quote.legs leg).reservation
  started := time

/-- A decision: the pair is declined, or an attempt begins. -/
inductive DecideOutcome (self : Simulation study) (id : ConstraintId) (time : ℕ)
    (state : MarketState) :
    Simulation study → Prop
  | declined (reason : String) (counters : SizingCounters) :
      DecideOutcome self id time state
        ({ self with evaluated := self.evaluated + 1, counters }.decline reason)
  | enters (legs : Fin 2 → PayoffLegTemplate) (quote : SizedPair) (counters : SizingCounters)
      (hlegs : study.compiledLegs id = some legs)
      (hopen : self.settled (legs 0).marketId = false ∧ self.settled (legs 1).marketId = false)
      (hquote : selectQuote study.policy self.consumed state legs self.ledger.available
        self.counters = .ok (.ok quote, counters)) :
      DecideOutcome self id time state
        (({ self with evaluated := self.evaluated + 1, counters }.announce
          (attemptOf id legs quote time state) quote).entered (attemptOf id legs quote time state))

theorem ledger_reserveLeg (attempt : Lifecycle.Attempt) (self : Simulation study) (leg : Fin 2)
    (arrival : ℕ) :
    (reserveLeg attempt self leg arrival).ledger = self.ledger.reserve (attempt.reserve leg) := by
  unfold reserveLeg
  dsimp only
  split <;> rfl

theorem ledger_entered (attempt : Lifecycle.Attempt) (self : Simulation study) :
    (self.entered attempt).ledger =
      (self.ledger.reserve (attempt.reserve 0)).reserve (attempt.reserve 1) :=
  (ledger_reserveLeg attempt (reserveLeg attempt self 0
    (attempt.started + study.policy.latency 0)) 1 (attempt.started + study.policy.latency 1)).trans
    (congrArg (Ledger.reserve · _) (ledger_reserveLeg attempt self 0 _))

/-- Both legs can be reserved. -/
theorem conserved_entered {attempt : Lifecycle.Attempt}
    (h : self.ledger.Conserved study.policy.capital.raw)
    (hfunded : (attempt.reserve 0 + attempt.reserve 1 : ℤ) ≤ self.ledger.available) :
    (self.entered attempt).ledger.Conserved study.policy.capital.raw := by
  rw [ledger_entered]
  exact (h.reserve (by omega)).reserve (le_sub_iff_add_le'.mpr hfunded)

theorem enter_intact (attempt : Lifecycle.Attempt)
    (h : self.ledger.Conserved study.policy.capital.raw)
    (hfunded : (attempt.reserve 0 + attempt.reserve 1 : ℤ) ≤ self.ledger.available) :
    Intact (fun next => next = self.entered attempt) (self.enter attempt) := by
  refine Yields.bind (later_intact (by decide) _ _) fun arrival0 _ harrival0 => ?_
  refine Yields.bind (later_intact (by decide) _ _) fun arrival1 _ harrival1 => ?_
  subst harrival0 harrival1
  exact checkCash_intact (conserved_entered h hfunded)

/-- **A decision** does one of these. -/
theorem decide_intact (h : self.ledger.Conserved study.policy.capital.raw) (id : ConstraintId)
    (time : ℕ) :
    Intact (self.DecideOutcome id time state) (self.decide id time state) := by
  unfold Simulation.decide
  dsimp only
  split
  · exact outOfRange_intact
  next legs hlegs =>
  split
  · exact .declined _ self.counters
  split
  · exact .declined _ self.counters
  next hopen =>
  simp only [Bool.or_eq_true, not_or, Bool.not_eq_true] at hopen
  refine Yields.bind (lift_quote_intact (selectQuote_errors _ _)) fun result hresult _ => ?_
  obtain ⟨selected, counters⟩ := result
  cases selected with
  | error reason => exact .declined reason counters
  | ok quote =>
    have hquote := lift_eq_ok hresult
    have hentered : Intact (fun next =>
      next = (({ self with evaluated := self.evaluated + 1, counters } :
        Simulation study).announce (attemptOf id legs quote time state) quote).entered
          (attemptOf id legs quote time state)) _ :=
      enter_intact (attemptOf id legs quote time state) h (selectQuote_reserves hquote)
    refine hentered.mono fun next hnext => ?_
    subst hnext
    exact .enters legs quote counters hlegs hopen hquote

end Simulation

end EventMarket.Session
