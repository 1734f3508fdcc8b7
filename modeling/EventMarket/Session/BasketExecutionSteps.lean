import EventMarket.Session.BasketExecution

/-!
# What the steps of the execution can do

Every step of a scenario writes rows and changes the scenario in one of a few ways.

## Main definitions

* `LedgerError`, `Solvent`: the errors of the ledger, and computations without them.
* `ExitOutcome`, `BuyOutcome`, `EventOutcome`, `DecideOutcome`, `CensorOutcome`: everything that a
  step can do.

## Main results

* `handle_solvent`, `decide_solvent`, `censor_solvent`: the steps do that, and no check of the
  ledger fails when the fills are funded.
-/

namespace EventMarket.Session

open Core Foundations Market

/-- The errors of the checks of the ledger. -/
def LedgerError (error : StudyException) : Prop :=
  error ∈ [.replay "execution funding invariant" 0, .replay "execution cash ledger" 0]

/-- A computation in which no check of the ledger fails. -/
abbrev Solvent {α : Type} (P : α → Prop) (x : Except StudyException α) : Prop :=
  Yields (fun error => ¬LedgerError error) P x

namespace Lane

variable {policy : BasketExecutionPolicy} {books : MarketId → CachedBook} {lane : Lane}
  {attempt : Attempt} {start : ℕ} {time delay : ℤ}

/-- The lane with another scenario and more rows. -/
def goesTo (lane : Lane) (scenario : Scenario) (rows : List ExecutionRow) : Lane :=
  { lane with scenario, trace := lane.trace ++ rows }

theorem emit_solvent (lane : Lane) (row : ExecutionRow) :
    Solvent (fun next => next = lane.goesTo lane.scenario [row]) (lane.emit row) := by
  unfold emit
  split
  · simp [Yields, invalid, LedgerError]
  · rfl

theorem later_solvent (time delay : ℤ) :
    Solvent (fun due => due = time + delay) (later time delay) := by
  unfold later
  split
  · simp [Yields, invalid, LedgerError]
  · rfl

/-- **Leaving an attempt**: sell the next leg, or end with a residual, with or without money
spent. -/
inductive ExitOutcome (index : ℕ) (time : ℤ) (scenario : Scenario) (attempt : Attempt)
    (start : ℕ) : Scenario → List ExecutionRow → Prop
  | sells (leg : Fin 3) (hleg : nextHeld attempt.holdings start = some leg) :
      ExitOutcome index time scenario attempt start
        { scenario with attempt := some { attempt with
          leg, stage := .sellArrival, due := time + scenario.delay } }
        [.submit index scenario.attempts time (time + scenario.delay) leg true
          (attempt.holdings leg) 0 none]
  | residual (hnone : nextHeld attempt.holdings start = none)
      (hheld : ∃ leg, attempt.holdings leg ≠ 0) :
      ExitOutcome index time scenario attempt start
        { scenario with halted := true, attempt := some attempt }
        [.exitComplete index scenario.attempts time attempt.holdings
          (attempt.received - attempt.spent) true]
  | exits (hnone : ∀ leg, attempt.holdings leg = 0) (hspent : attempt.spent ≠ 0) :
      ExitOutcome index time scenario attempt start
        { scenario with
          exited := scenario.exited + 1
          unwindNet := scenario.unwindNet + (attempt.received - attempt.spent)
          attempt := none }
        [.exitComplete index scenario.attempts time attempt.holdings
          (attempt.received - attempt.spent) false]
  | empties (hnone : ∀ leg, attempt.holdings leg = 0) (hspent : attempt.spent = 0) :
      ExitOutcome index time scenario attempt start
        { scenario with empty := scenario.empty + 1, attempt := none }
        [.exitComplete index scenario.attempts time attempt.holdings
          (attempt.received - attempt.spent) false]

theorem sendExit_solvent (lane : Lane) (attempt : Attempt) (start : ℕ) (time : ℤ) :
    Solvent (fun next => ∃ scenario rows, next = lane.goesTo scenario rows ∧
      ExitOutcome lane.index time lane.scenario attempt start scenario rows)
      (lane.sendExit attempt start time) := by
  unfold sendExit
  cases hnext : nextHeld attempt.holdings start with
  | none =>
    refine Yields.bind (emit_solvent _ _) fun written _ hwritten => ?_
    subst hwritten
    by_cases hheld : ∃ leg, attempt.holdings leg ≠ 0
    · simp only [hheld, decide_true, if_true]
      exact ⟨_, _, rfl, .residual hnext hheld⟩
    · have hnone : ∀ leg, attempt.holdings leg = 0 := by simpa using hheld
      simp only [hheld, decide_false, Bool.false_eq_true, if_false]
      split
      · rename_i hspent
        exact ⟨_, _, rfl, .exits hnone hspent⟩
      · rename_i hspent
        exact ⟨_, _, rfl, .empties hnone (not_not.mp hspent)⟩
  | some leg =>
    refine Yields.bind (later_solvent _ _) fun due _ hdue => ?_
    subst hdue
    refine (emit_solvent _ _).mono fun next hnextEq => ?_
    subst hnextEq
    exact ⟨_, _, rfl, .sells leg hnext⟩

/-- Leaving from the first leg on, for a reason. -/
inductive Leaves (index : ℕ) (time : ℤ) (scenario : Scenario) (attempt : Attempt)
    (reason : String) : Scenario → List ExecutionRow → Prop
  | leaves {next : Scenario} {rows : List ExecutionRow}
      (hexit : ExitOutcome index time
        { scenario with reserved := 0, attempt := some { attempt with reason, leg := 0 } }
        { attempt with reason, leg := 0 } 0 next rows) :
      Leaves index time scenario attempt reason next
        (.abort index scenario.attempts time reason attempt.holdings :: rows)

theorem beginExit_solvent (lane : Lane) (attempt : Attempt) (time : ℤ) (reason : String) :
    Solvent (fun next => ∃ scenario rows, next = lane.goesTo scenario rows ∧
      Leaves lane.index time lane.scenario attempt reason scenario rows)
      (lane.beginExit attempt time reason) := by
  refine Yields.bind (emit_solvent _ _) fun written _ hwritten => ?_
  subst hwritten
  refine (sendExit_solvent _ _ _ _).mono fun next hnext => ?_
  obtain ⟨scenario, rows, rfl, hexit⟩ := hnext
  exact ⟨scenario, _, by simp [goesTo], .leaves hexit⟩

/-! ### Buying -/

theorem fill_solvent {scenario : Scenario} {marketId : MarketId} {yes sell : Bool}
    {desired limit : ℕ} :
    Solvent (fun _ => True) (fill policy books scenario marketId yes sell desired limit) := by
  unfold fill
  generalize levels policy.cap books scenario.consumed marketId yes sell = offered
  generalize ({} : FeeAccumulator) = accumulator
  induction offered generalizing desired accumulator with
  | nil => trivial
  | cons level offered ih =>
    rw [fillLevels]
    split
    · trivial
    dsimp only
    split
    · trivial
    cases fillCash sell (min desired level.quantity.raw) level.price (policy.fee marketId)
        accumulator with
    | none => cases sell <;> simp [Yields, invalid, LedgerError]
    | some paid => exact Yields.bind (ih _) fun _ _ _ => trivial

theorem planBuys_solvent {scenario : Scenario} {legs : List (Fin 3)} {projected : ℤ}
    {current : Fill} :
    Solvent (fun _ => True) (planBuys policy books scenario attempt legs projected current) := by
  induction legs generalizing projected current with
  | nil => trivial
  | cons leg legs ih =>
    refine Yields.bind fill_solvent fun planned _ _ => ?_
    split
    · trivial
    · exact ih

/-- **Sending a buy**: leave, or submit an order that the cash covers with its reservation. -/
inductive BuyOutcome (policy : BasketExecutionPolicy) (index : ℕ) (time : ℤ) (scenario : Scenario)
    (attempt : Attempt) : Scenario → List ExecutionRow → Prop
  | leaves (reason : String) (aborts : ℕ) {next : Scenario} {rows : List ExecutionRow}
      (hleaves : Leaves index time
        { scenario with budgetAborts := scenario.budgetAborts + aborts } attempt reason next rows) :
      BuyOutcome policy index time scenario attempt next rows
  | submits (limit : Price) (reserve : ℕ) (projected : ℤ)
      (hreserve : buyReservation attempt.quantity 1 limit
        (policy.fee (attempt.basket.markets attempt.leg)) = some reserve)
      (hle : reserve ≤ scenario.cash) :
      BuyOutcome policy index time scenario attempt
        { scenario with
          reserved := reserve
          peakEncumbered := max scenario.peakEncumbered (policy.capital - scenario.cash + reserve)
          attempt := some { attempt with
            limit, reserve, stage := .buyArrival, due := time + scenario.delay } }
        [.submit index scenario.attempts time (time + scenario.delay) attempt.leg false
          attempt.quantity limit.raw (some projected)]

theorem sendBuy_solvent (lane : Lane) (attempt : Attempt) (time : ℤ) :
    Solvent (fun next => ∃ scenario rows, next = lane.goesTo scenario rows ∧
      BuyOutcome policy lane.index time lane.scenario attempt scenario rows)
      (lane.sendBuy policy books attempt time) := by
  have hleaves : ∀ reason, Solvent (fun next => ∃ scenario rows, next = lane.goesTo scenario rows ∧
      BuyOutcome policy lane.index time lane.scenario attempt scenario rows)
      (lane.beginExit attempt time reason) := fun reason =>
    (beginExit_solvent lane attempt time reason).mono fun next ⟨scenario, rows, hnext, hleaves⟩ =>
      ⟨scenario, rows, hnext, .leaves reason 0 hleaves⟩
  refine Yields.bind planBuys_solvent fun plan _ _ => ?_
  cases plan with
  | none => exact hleaves _
  | some plan =>
    obtain ⟨projected, current⟩ := plan
    dsimp only
    split
    · refine (beginExit_solvent _ attempt time _).mono ?_
      rintro next ⟨scenario, rows, rfl, hleaves⟩
      exact ⟨scenario, rows, rfl, .leaves _ 1 hleaves⟩
    cases hreserve : buyReservation attempt.quantity 1 current.limit
        (policy.fee (attempt.basket.markets attempt.leg)) with
    | none => exact hleaves _
    | some reserve =>
      dsimp only
      split
      · exact hleaves _
      rename_i hcash
      refine Yields.bind (later_solvent _ _) fun due _ hdue => ?_
      subst hdue
      refine (emit_solvent _ _).mono fun next hnext => ?_
      subst hnext
      exact ⟨_, _, rfl, .submits current.limit reserve projected hreserve (not_lt.mp hcash)⟩

/-! ### Events -/

/-- The fill of the order that is on the way. -/
def arrivingFill (policy : BasketExecutionPolicy) (books : MarketId → CachedBook)
    (scenario : Scenario) (attempt : Attempt) (sell : Bool) : Except StudyException Fill :=
  fill policy books scenario (attempt.basket.markets attempt.leg) (decide (attempt.leg = 0)) sell
    (if sell then (attempt.holdings attempt.leg).toNat else attempt.quantity)
    (if sell then 0 else attempt.limit.raw)

/-- The attempt after a buy was filled. -/
def boughtAttempt (delay : ℤ) (attempt : Attempt) (filled : Fill) : Attempt :=
  { attempt with
    holdings := Function.update attempt.holdings attempt.leg
      (attempt.holdings attempt.leg + filled.quantity)
    spent := attempt.spent + filled.cash
    stage := .buyResponse
    due := attempt.due + delay }

/-- The attempt after a sale was filled. -/
def soldAttempt (delay : ℤ) (attempt : Attempt) (filled : Fill) : Attempt :=
  { attempt with
    holdings := Function.update attempt.holdings attempt.leg
      (attempt.holdings attempt.leg - filled.quantity)
    received := attempt.received + filled.cash
    stage := .sellResponse
    due := attempt.due + delay }

/-- What a fill consumes. -/
def consumedBy (scenario : Scenario) (attempt : Attempt) (sell : Bool) (filled : Fill) :
    PhysicalLevel → ℕ :=
  consume scenario.consumed (attempt.basket.markets attempt.leg) (decide (attempt.leg = 0)) sell
    filled

/-- **An event**: a fill, a next order, the end of the buys, or a step of leaving. -/
inductive EventOutcome (policy : BasketExecutionPolicy) (books : MarketId → CachedBook) (index : ℕ)
    (scenario : Scenario) (attempt : Attempt) : Scenario → List ExecutionRow → Prop
  | buys (filled : Fill) (hstage : attempt.stage = .buyArrival)
      (hfill : arrivingFill policy books scenario attempt false = .ok filled) :
      EventOutcome policy books index scenario attempt
        { scenario with
          consumed := consumedBy scenario attempt false filled
          cash := scenario.cash - filled.cash
          spent := scenario.spent + filled.cash
          reserved := attempt.reserve - filled.cash
          attempt := some (boughtAttempt scenario.delay attempt filled) }
        [.fill index scenario.attempts attempt.due attempt.leg false filled]
  | sells (filled : Fill) (hstage : attempt.stage = .sellArrival)
      (hfill : arrivingFill policy books scenario attempt true = .ok filled) :
      EventOutcome policy books index scenario attempt
        { scenario with
          consumed := consumedBy scenario attempt true filled
          cash := scenario.cash + filled.cash
          received := scenario.received + filled.cash
          attempt := some (soldAttempt scenario.delay attempt filled) }
        [.fill index scenario.attempts attempt.due attempt.leg true filled]
  | leaves {next : Scenario} {rows : List ExecutionRow} (hstage : attempt.stage = .buyResponse)
      (hshort : attempt.holdings attempt.leg ≠ attempt.quantity)
      (hleaves : Leaves index attempt.due { scenario with reserved := 0 } attempt "partial_buy"
        next rows) :
      EventOutcome policy books index scenario attempt next rows
  | goesOn {next : Scenario} {rows : List ExecutionRow} (leg : Fin 3)
      (hstage : attempt.stage = .buyResponse)
      (hfull : attempt.holdings attempt.leg = attempt.quantity)
      (hleg : attempt.leg.val + 1 = leg.val)
      (hbuys : BuyOutcome policy index attempt.due { scenario with reserved := 0 }
        { attempt with leg } next rows) :
      EventOutcome policy books index scenario attempt next rows
  | completes (breaches : ℕ) (hstage : attempt.stage = .buyResponse)
      (hfull : attempt.holdings attempt.leg = attempt.quantity) (hleg : attempt.leg = 2) :
      EventOutcome policy books index scenario attempt
        { scenario with
          reserved := 0
          floor := scenario.floor + attempt.quantity * 20000
          completeCost := scenario.completeCost + attempt.spent
          completed := scenario.completed + 1
          finalBudgetBreaches := breaches
          attempt := none }
        [.held index scenario.attempts attempt.due attempt.quantity attempt.spent
          (attempt.quantity * 20000) (attempt.quantity * 20000 - attempt.spent)]
  | exits {next : Scenario} {rows : List ExecutionRow} (hstage : attempt.stage = .sellResponse)
      (hexit : ExitOutcome index attempt.due scenario attempt (attempt.leg.val + 1) next rows) :
      EventOutcome policy books index scenario attempt next rows

theorem arriveBuy_solvent (hstage : attempt.stage = .buyArrival)
    (hfunded : ∀ filled, arrivingFill policy books lane.scenario attempt false = .ok filled →
      filled.cash ≤ attempt.reserve ∧ filled.cash ≤ lane.scenario.cash) :
    Solvent (fun next => ∃ scenario rows, next = lane.goesTo scenario rows ∧
      EventOutcome policy books lane.index lane.scenario attempt scenario rows)
      (lane.arriveBuy policy books attempt) := by
  refine Yields.bind fill_solvent fun filled hfilled _ => ?_
  obtain ⟨hreserve, hcash⟩ := hfunded filled hfilled
  rw [if_neg (by omega)]
  refine Yields.bind (emit_solvent _ _) fun written _ hwritten => ?_
  subst hwritten
  refine Yields.bind (later_solvent _ _) fun due _ hdue => ?_
  subst hdue
  exact ⟨_, _, rfl, .buys filled hstage hfilled⟩

theorem arriveSale_solvent (hstage : attempt.stage = .sellArrival) :
    Solvent (fun next => ∃ scenario rows, next = lane.goesTo scenario rows ∧
      EventOutcome policy books lane.index lane.scenario attempt scenario rows)
      (lane.arriveSale policy books attempt) := by
  refine Yields.bind fill_solvent fun filled hfilled _ => ?_
  refine Yields.bind (emit_solvent _ _) fun written _ hwritten => ?_
  subst hwritten
  refine Yields.bind (later_solvent _ _) fun due _ hdue => ?_
  subst hdue
  exact ⟨_, _, rfl, .sells filled hstage hfilled⟩

theorem respondBuy_solvent (hstage : attempt.stage = .buyResponse) :
    Solvent (fun next => ∃ scenario rows, next = lane.goesTo scenario rows ∧
      EventOutcome policy books lane.index lane.scenario attempt scenario rows)
      (lane.respondBuy policy books attempt) := by
  unfold respondBuy
  dsimp only
  split
  · rename_i hshort
    refine (beginExit_solvent _ attempt _ _).mono ?_
    rintro next ⟨scenario, rows, rfl, hleaves⟩
    exact ⟨scenario, rows, rfl, .leaves hstage hshort hleaves⟩
  rename_i hfull
  split
  · refine (sendBuy_solvent _ _ _).mono ?_
    rintro next ⟨scenario, rows, rfl, hbuys⟩
    exact ⟨scenario, rows, rfl, .goesOn _ hstage (not_not.mp hfull) rfl hbuys⟩
  · refine (emit_solvent _ _).mono ?_
    rintro next rfl
    exact ⟨_, _, rfl, .completes _ hstage (not_not.mp hfull) (by omega)⟩

/-- **Everything an event can do.** -/
theorem handle_solvent
    (hfunded : attempt.stage = .buyArrival → ∀ filled,
      arrivingFill policy books lane.scenario attempt false = .ok filled →
      filled.cash ≤ attempt.reserve ∧ filled.cash ≤ lane.scenario.cash) :
    Solvent (fun next => ∃ scenario rows, next = lane.goesTo scenario rows ∧
      EventOutcome policy books lane.index lane.scenario attempt scenario rows)
      (lane.handle policy books attempt) := by
  unfold handle
  split
  · exact arriveBuy_solvent ‹_› (hfunded ‹_›)
  · exact arriveSale_solvent ‹_›
  · exact respondBuy_solvent ‹_›
  · refine (sendExit_solvent _ _ _ _).mono ?_
    rintro next ⟨scenario, rows, rfl, hexit⟩
    exact ⟨scenario, rows, rfl, .exits ‹_› hexit⟩

/-! ### Deciding -/

theorem consider_solvent {scenario : Scenario} {selection : Selection} {signal : BasketEpisode}
    (hmem : ∀ quote basket, selection.best = some (quote, basket) →
      basket ∈ policy.basket.screen.baskets) :
    Solvent (fun next : Selection => ∀ quote basket, next.best = some (quote, basket) →
      basket ∈ policy.basket.screen.baskets) (consider policy books scenario selection signal) := by
  unfold consider
  split
  · exact hmem
  split
  · rename_i basket bounds hfind _
    dsimp only
    split
    · simp [Yields, invalid, LedgerError]
    split
    · exact hmem
    · rename_i quote _
      intro chosenQuote chosen hchosen
      have hbasket := List.mem_of_find?_eq_some hfind
      unfold Selection.offer at hchosen
      split at hchosen
      · obtain ⟨-, rfl⟩ := Prod.mk.inj (Option.some.inj hchosen)
        exact hbasket
      · split at hchosen
        · obtain ⟨-, rfl⟩ := Prod.mk.inj (Option.some.inj hchosen)
          exact hbasket
        · exact hmem _ _ hchosen
  · simp [Yields, invalid, LedgerError]

/-- **Deciding**: only counters change, or a basket of the screen is entered. -/
inductive DecideOutcome (policy : BasketExecutionPolicy) (index : ℕ) (time : ℤ)
    (scenario : Scenario) : Scenario → List ExecutionRow → Prop
  | stays (busy rejected : ℕ) :
      DecideOutcome policy index time scenario { scenario with busy, rejected } []
  | enters (rejected quantity : ℕ) (quoteMargin : ℤ) (basket : ScreenBasket)
      (hbasket : basket ∈ policy.basket.screen.baskets) (hidle : scenario.attempt = none)
      (hactive : scenario.halted = false) {next : Scenario} {rows : List ExecutionRow}
      (hbuys : BuyOutcome policy index time
        { scenario with
          rejected, attempts := scenario.attempts + 1, attempt := some { basket, quantity } }
        { basket, quantity } next rows) :
      DecideOutcome policy index time scenario next
        (.entry index (scenario.attempts + 1) time basket.id quantity quoteMargin :: rows)

theorem enter_solvent (lane : Lane) (quote : SizedBasket) (basket : ScreenBasket) :
    Solvent (fun next => ∃ scenario rows,
      next = lane.goesTo scenario (.entry lane.index (lane.scenario.attempts + 1) time basket.id
        quote.quantity quote.netMarginMicro :: rows) ∧
      BuyOutcome policy lane.index time
        { lane.scenario with
          attempts := lane.scenario.attempts + 1
          attempt := some { basket, quantity := quote.quantity } }
        { basket, quantity := quote.quantity } scenario rows)
      (lane.enter policy books quote basket time) := by
  refine Yields.bind (emit_solvent _ _) fun written _ hwritten => ?_
  subst hwritten
  refine (sendBuy_solvent _ _ _).mono ?_
  rintro next ⟨scenario, rows, rfl, hbuys⟩
  exact ⟨scenario, rows, by simp [goesTo], hbuys⟩

theorem decide_solvent {signals : List BasketEpisode} (lane : Lane) :
    Solvent (fun next => ∃ scenario rows, next = lane.goesTo scenario rows ∧
      DecideOutcome policy lane.index time lane.scenario scenario rows)
      (lane.decide policy books signals time) := by
  unfold Lane.decide
  dsimp only
  split
  · exact ⟨lane.scenario, [], by simp [goesTo], .stays _ _⟩
  rename_i hactive
  split
  · exact ⟨{ lane.scenario with busy := lane.scenario.busy + signals.length }, [],
      by simp [goesTo], .stays _ _⟩
  rename_i hidle
  refine Yields.bind (Yields.foldlM (I := fun _ (selection : Selection) =>
    ∀ quote basket, selection.best = some (quote, basket) → basket ∈ policy.basket.screen.baskets)
    (fun _ _ hbest => nomatch hbest) fun _ _ _ _ hmem => consider_solvent hmem)
    fun selection _ hselection => ?_
  split
  · exact ⟨{ lane.scenario with rejected := lane.scenario.rejected + selection.rejected }, [],
      by simp [goesTo], .stays _ _⟩
  rename_i quote basket hbest
  refine (enter_solvent _ quote basket).mono ?_
  rintro next ⟨scenario, rows, rfl, hbuys⟩
  refine ⟨scenario, _, rfl, .enters _ _ _ basket (hselection _ _ hbest) ?_ ?_ hbuys⟩
  · simpa using hidle
  · simpa using (not_or.mp hactive).1

/-! ### Censoring -/

/-- **Censoring** halts a scenario with an open attempt. -/
inductive CensorOutcome (index : ℕ) (time : ℤ) (reason : String) (scenario : Scenario) :
    Scenario → List ExecutionRow → Prop
  | stays : CensorOutcome index time reason scenario scenario []
  | censors (attempt : Attempt) (hattempt : scenario.attempt = some attempt)
      (hactive : scenario.halted = false) :
      CensorOutcome index time reason scenario
        { scenario with censored := scenario.censored + 1, halted := true }
        [.censored index scenario.attempts time reason attempt.holdings scenario.reserved]

theorem censor_solvent {reason : String} (lane : Lane) :
    Solvent (fun next => ∃ scenario rows, next = lane.goesTo scenario rows ∧
      CensorOutcome lane.index time reason lane.scenario scenario rows)
      (censor time reason lane) := by
  unfold censor
  dsimp only
  split
  · exact ⟨lane.scenario, [], by simp [goesTo], .stays⟩
  rename_i attempt hattempt
  split
  · exact ⟨lane.scenario, [], by simp [goesTo], .stays⟩
  rename_i hactive
  refine (emit_solvent _ _).mono ?_
  rintro next rfl
  exact ⟨_, _, rfl, .censors attempt hattempt (by simpa using hactive)⟩

end Lane

end EventMarket.Session
