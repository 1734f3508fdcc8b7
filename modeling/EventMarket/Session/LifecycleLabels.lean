import EventMarket.Foundations.Mirror
import EventMarket.Session.LifecycleRun

/-!
# The labels of the future do not influence the past

The settlements of a policy stand beside the live state of the study, and tell results that are
known only later. A study with other settlements does the same up to the first time at which the
settlements differ: the two simulations mirror one another, call by call and event by event, and
what each of them writes afterwards tells of later times only.

## Main definitions

* `Labels`, `LifecycleStudy.relabel`: a study with other settlements.
* `Simulation.relabel`: the same state in such a study.
* `Row.happenedAt`, `Continues`: what is written after a time.

## Main results

* `walk_lifecycle`, `selectQuote_lifecycle`: walks and quotes do not read the lifecycle.
* `Simulation.handle_relabels`, `Simulation.decide_relabels`: events and decisions do not read
  the settlements.
* `Simulation.drainLifecycle_relabels`: settlements that agree up to a time are handled alike.
* `Simulation.future_labels_unseen`: the labels of the future do not influence the past.
-/

namespace EventMarket.Session

open Constraint Core Foundations Market StudyPositions

/-! ### Walks and quotes do not read the lifecycle -/

section Policy

variable (policy : StudyPolicy) (lifecycle : Option LifecyclePolicy) (consumed : LiquidityKey → ℕ)
  (state : MarketState) (legs : Fin 2 → PayoffLegTemplate)

theorem walkLevels_lifecycle (order : WalkOrder) (levels : List Book.Level) (walk : Walk) :
    walkLevels { policy with lifecycle } order levels walk =
      walkLevels policy order levels walk := by
  induction levels generalizing walk with
  | nil => rfl
  | cons level levels ih =>
    unfold walkLevels
    simp only [ih]
    rfl

theorem walk_lifecycle (order : WalkOrder) :
    walk { policy with lifecycle } order state consumed = walk policy order state consumed :=
  walkLevels_lifecycle policy lifecycle order _ _

theorem quoteLeg_lifecycle (leg : PayoffLegTemplate) (quantity : ℕ) :
    quoteLeg { policy with lifecycle } consumed state leg quantity =
      quoteLeg policy consumed state leg quantity :=
  congrArg (Except.map Walk.execution) (walk_lifecycle policy lifecycle consumed state _)

theorem quoteLegs_lifecycle (quantity : ℕ) :
    quoteLegs { policy with lifecycle } consumed state legs quantity =
      quoteLegs policy consumed state legs quantity := by
  unfold quoteLegs
  simp only [quoteLeg_lifecycle]
  rfl

theorem fundedSteps_lifecycle (available : ℤ) (fuel lo hi : ℕ) :
    fundedSteps { policy with lifecycle } consumed state legs available fuel lo hi =
      fundedSteps policy consumed state legs available fuel lo hi := by
  induction fuel generalizing lo hi with
  | zero => rfl
  | succ fuel ih =>
    unfold fundedSteps
    simp only [ih, quoteLegs_lifecycle]

theorem fundedQuote_lifecycle (available : ℤ) (quantity : ℕ) (sized : Fin 2 → SizedLeg) :
    fundedQuote { policy with lifecycle } consumed state legs available quantity sized =
      fundedQuote policy consumed state legs available quantity sized := by
  unfold fundedQuote
  simp only [fundedSteps_lifecycle, quoteLegs_lifecycle]
  rfl

theorem requoteLeg_lifecycle (leg : PayoffLegTemplate) (quantity : ℕ) (depth : Execution) :
    requoteLeg { policy with lifecycle } consumed state leg quantity depth =
      requoteLeg policy consumed state leg quantity depth := by
  unfold requoteLeg
  rw [quoteLeg_lifecycle]

theorem legacyQuote_lifecycle (available : ℤ) :
    legacyQuote { policy with lifecycle } consumed state legs available =
      legacyQuote policy consumed state legs available := by
  unfold legacyQuote
  simp only [quoteLeg_lifecycle, requoteLeg_lifecycle, fundedQuote_lifecycle]
  rfl

theorem selectQuote_lifecycle (available : ℤ) (counters : SizingCounters) :
    selectQuote { policy with lifecycle } consumed state legs available counters =
      selectQuote policy consumed state legs available counters := by
  unfold selectQuote
  simp only [legacyQuote_lifecycle]
  rfl

end Policy

/-! ### Studies with other settlements -/

/-- Settlements in the order of their times. -/
structure Labels where
  settlements : List Settlement
  chronological : settlements.Pairwise fun settlement next => settlement.time ≤ next.time

/-- The same settlements up to a time. -/
def AgreeUpTo (time : ℕ) (settlements settlements' : List Settlement) : Prop :=
  settlements.filter (fun settlement => decide (settlement.time ≤ time)) =
    settlements'.filter fun settlement => decide (settlement.time ≤ time)

section Agree

variable {settlements settlements' : List Settlement} {time limit : ℕ}

/-- The settlements up to a time come before the others. -/
theorem exists_late (limit : ℕ)
    (h : settlements.Pairwise fun settlement next => settlement.time ≤ next.time) :
    ∃ late, settlements =
        settlements.filter (fun settlement => decide (settlement.time ≤ limit)) ++ late ∧
      ∀ settlement ∈ late, limit < settlement.time := by
  induction settlements with
  | nil => exact ⟨[], rfl, by rintro _ ⟨⟩⟩
  | cons settlement settlements ih =>
    obtain ⟨hfirst, hrest⟩ := List.pairwise_cons.mp h
    by_cases hle : settlement.time ≤ limit
    · obtain ⟨late, hlate, htimes⟩ := ih hrest
      refine ⟨late, ?_, htimes⟩
      rw [List.filter_cons_of_pos (by simpa using hle), List.cons_append, ← hlate]
    · have hall : ∀ next ∈ settlement :: settlements, limit < next.time :=
        List.forall_mem_cons.mpr ⟨not_le.mp hle, fun next hmem =>
          (not_le.mp hle).trans_le (hfirst next hmem)⟩
      refine ⟨settlement :: settlements, ?_, hall⟩
      rw [List.filter_eq_nil_iff.mpr fun next hmem => by simpa using hall next hmem]
      rfl

/-- None of the later settlements is shown before its time. -/
theorem filter_late (hle : time ≤ limit) (h : ∀ settlement ∈ settlements, limit < settlement.time)
    (index : ℕ) :
    (settlements[index]?.filter fun settlement => decide (settlement.time ≤ time)) = none := by
  rw [Option.filter_eq_none_iff]
  intro settlement hat
  have hlt := h settlement (List.mem_of_getElem? hat)
  simpa using hle.trans_lt hlt

/-- Settlements that agree up to a time show the same ones up to it. -/
theorem AgreeUpTo.filter_at
    (h : AgreeUpTo limit settlements settlements')
    (hsorted : settlements.Pairwise fun settlement next => settlement.time ≤ next.time)
    (hsorted' : settlements'.Pairwise fun settlement next => settlement.time ≤ next.time)
    (hle : time ≤ limit) (index : ℕ) :
    (settlements[index]?.filter fun settlement => decide (settlement.time ≤ time)) =
      settlements'[index]?.filter fun settlement => decide (settlement.time ≤ time) := by
  obtain ⟨later, hlater, hlate⟩ := exists_late limit hsorted
  obtain ⟨later', hlater', hlate'⟩ := exists_late limit hsorted'
  rw [hlater, hlater', h]
  generalize settlements'.filter (fun settlement => decide (settlement.time ≤ limit)) = early
  rcases Nat.lt_or_ge index early.length with hlt | hge
  · rw [List.getElem?_append_left hlt, List.getElem?_append_left hlt]
  · rw [List.getElem?_append_right hge, List.getElem?_append_right hge,
      filter_late hle hlate, filter_late hle hlate']

/-- Settlements that agree up to a time still do so after some were handled. -/
theorem AgreeUpTo.drop (h : AgreeUpTo limit settlements settlements')
    (hsorted : settlements.Pairwise fun settlement next => settlement.time ≤ next.time)
    (hsorted' : settlements'.Pairwise fun settlement next => settlement.time ≤ next.time)
    (index : ℕ) : AgreeUpTo limit (settlements.drop index) (settlements'.drop index) := by
  have hnone : ∀ {late : List Settlement} (count : ℕ), (∀ settlement ∈ late,
      limit < settlement.time) → (late.drop count).filter (fun settlement =>
        decide (settlement.time ≤ limit)) = [] := fun count hlate =>
    List.filter_eq_nil_iff.mpr fun settlement hmem => by
      simpa using hlate settlement (List.mem_of_mem_drop hmem)
  obtain ⟨later, hlater, hlate⟩ := exists_late limit hsorted
  obtain ⟨later', hlater', hlate'⟩ := exists_late limit hsorted'
  rw [hlater, hlater', h]
  unfold AgreeUpTo
  rw [List.drop_append, List.drop_append, List.filter_append, List.filter_append, hnone _ hlate,
    hnone _ hlate']

end Agree

/-- The study with other settlements. -/
def LifecycleStudy.relabel (study : LifecycleStudy) (labels : Labels) : LifecycleStudy where
  policy :=
    { study.policy with
      lifecycle := some { study.lifecycle with settlements := labels.settlements } }
  lifecycle := { study.lifecycle with settlements := labels.settlements }
  constraints := study.constraints
  lifecycle_eq := rfl
  chronological := labels.chronological
  supported := study.supported

namespace Simulation

open Lifecycle

variable {study : LifecycleStudy} (labels : Labels) (self : Simulation study)

/-- The same state in the study with other settlements. -/
def relabel : Simulation (study.relabel labels) where
  ledger := self.ledger
  lastUpdate := self.lastUpdate
  consumed := self.consumed
  attempts := self.attempts
  attempted := self.attempted
  declines := self.declines
  evaluated := self.evaluated
  unobserved := self.unobserved
  counters := self.counters
  orders := self.orders
  events := self.events
  positions := self.positions
  settledMarkets := self.settledMarkets
  settlementIndex := self.settlementIndex
  rows := self.rows

/-- A computation of the study with other settlements does the same. -/
abbrev Relabels (x : Except PositionError (Simulation study))
    (y : Except PositionError (Simulation (study.relabel labels))) : Prop :=
  Mirrors (relabel labels) x y

theorem checkCash_relabels : Relabels labels self.checkCash (self.relabel labels).checkCash :=
  Mirrors.ite (.ok self) (.error _)

/-! ### Decisions -/

theorem reserveLeg_relabel (attempt : Lifecycle.Attempt) (leg : Fin 2) (arrival : ℕ) :
    reserveLeg attempt (self.relabel labels) leg arrival =
      (reserveLeg attempt self leg arrival).relabel labels := by
  by_cases hwaits : study.lifecycle.sequential ∧ leg ≠ 0
  · have hwaits' : (study.relabel labels).lifecycle.sequential ∧ leg ≠ 0 := hwaits
    unfold reserveLeg
    rw [if_pos hwaits, if_pos hwaits']
    rfl
  · have hwaits' : ¬((study.relabel labels).lifecycle.sequential ∧ leg ≠ 0) := hwaits
    unfold reserveLeg
    rw [if_neg hwaits, if_neg hwaits']
    rfl

theorem enter_relabels (attempt : Lifecycle.Attempt) :
    Relabels labels (self.enter attempt) ((self.relabel labels).enter attempt) := by
  refine Mirrors.after fun arrival0 => Mirrors.after fun arrival1 => ?_
  rw [reserveLeg_relabel, reserveLeg_relabel]
  exact checkCash_relabels labels _

theorem selectQuote_relabel : selectQuote (study.relabel labels).policy =
    selectQuote study.policy := by
  funext consumed state legs available counters
  exact selectQuote_lifecycle study.policy _ consumed state legs available counters

theorem walk_relabel : walk (study.relabel labels).policy = walk study.policy := by
  funext order state consumed
  exact walk_lifecycle study.policy _ consumed state order

/-- **Decisions** do not read the settlements. -/
theorem decide_relabels (id : ConstraintId) (time : ℕ) (state : MarketState) :
    Relabels labels (self.decide id time state) ((self.relabel labels).decide id time state) := by
  have hlegs : (study.relabel labels).compiledLegs id = study.compiledLegs id := rfl
  unfold Simulation.decide
  dsimp only
  rw [hlegs, selectQuote_relabel]
  cases study.compiledLegs id with
  | none => exact .error _
  | some legs =>
    refine Mirrors.ite (.ok _) (Mirrors.ite (.ok _) (Mirrors.after fun result => ?_))
    obtain ⟨selected, counters⟩ := result
    cases selected with
    | error reason => exact .ok _
    | ok quote => exact enter_relabels labels _ _

/-! ### Exits -/

theorem exitChoice_relabel (config : ResidualExitPolicy) (index time : ℕ) (state : MarketState) :
    (self.relabel labels).exitChoice config index time state =
      self.exitChoice config index time state := by
  unfold exitChoice
  rw [walk_relabel]
  rfl

theorem considerExit_relabels (index time : ℕ) (state : MarketState) :
    Relabels labels (self.considerExit index time state)
      ((self.relabel labels).considerExit index time state) := by
  have hexit : (study.relabel labels).policy.residualExit = study.policy.residualExit := rfl
  unfold considerExit
  rw [hexit]
  cases study.policy.residualExit with
  | none => exact .ok self
  | some config =>
    refine Mirrors.ite (.error _) (Mirrors.ite (.error _) ?_)
    have hchoice := exitChoice_relabel labels (self.markExit index) config index time state
    change Mirrors _ _ (((self.markExit index).relabel labels).exitChoice config index time state
      >>= _)
    rw [hchoice]
    refine Mirrors.after fun choice => ?_
    cases choice with
    | error reason => exact .ok _
    | ok offer => exact Mirrors.after fun arrival => .ok _

theorem stopAcquisition_relabel (index : ℕ) (reason : String) :
    (self.relabel labels).stopAcquisition index reason =
      (self.stopAcquisition index reason).relabel labels := rfl

/-! ### Responses -/

theorem completionChoice_relabel (index time : ℕ) (state : MarketState) :
    (self.relabel labels).completionChoice index time state =
      self.completionChoice index time state := by
  unfold completionChoice
  rw [walk_relabel]
  rfl

theorem completeSecond_relabels (index time : ℕ) (state : MarketState) :
    Relabels labels (self.completeSecond index time state)
      ((self.relabel labels).completeSecond index time state) := by
  unfold completeSecond
  rw [completionChoice_relabel]
  refine Mirrors.after fun choice => ?_
  cases choice with
  | error reason => exact considerExit_relabels labels (self.stopAcquisition index reason) _ _ _
  | ok offer => exact Mirrors.after fun arrival => .ok _

theorem afterBuy_relabels (index time : ℕ) (state : MarketState) :
    Relabels labels (self.afterBuy index time state)
      ((self.relabel labels).afterBuy index time state) :=
  Mirrors.ite (completeSecond_relabels labels self index time state)
    (Mirrors.ite (considerExit_relabels labels self index time state) (.ok self))

theorem respondExit_relabels (event : Event) (order : Order) :
    Relabels labels (self.respondExit event order)
      ((self.relabel labels).respondExit event order) :=
  Mirrors.ite (.error _) (checkCash_relabels labels (self.confirmSale event order))

theorem respondBuy_relabels (event : Event) (order : Order) (state : MarketState) :
    Relabels labels (self.respondBuy event order state)
      ((self.relabel labels).respondBuy event order state) :=
  Mirrors.ite (.error _) (Mirrors.bind
    (afterBuy_relabels labels (self.confirmBuy event order) order.attempt event.time state)
    (checkCash_relabels labels))

theorem respond_relabels (event : Event) (state : MarketState) :
    Relabels labels (self.respond event state) ((self.relabel labels).respond event state) :=
  Mirrors.ite (.error _) (Mirrors.ite
    (respondExit_relabels labels (self.markResponded event) event (self.order event.order))
    (respondBuy_relabels labels (self.markResponded event) event (self.order event.order) state))

/-! ### Arrivals -/

theorem exitFill_relabel (config : ResidualExitPolicy) (order : Order) (time : ℕ)
    (state : MarketState) :
    (self.relabel labels).exitFill config order time state =
      self.exitFill config order time state := by
  unfold exitFill
  rw [walk_relabel]
  rfl

theorem buyFill_relabel (order : Order) (time : ℕ) (state : MarketState) :
    (self.relabel labels).buyFill order time state = self.buyFill order time state := by
  unfold buyFill
  rw [walk_relabel]
  rfl

theorem arriveExit_relabels (config : ResidualExitPolicy) (id : ℕ) (order : Order) (time : ℕ)
    (state : MarketState) :
    Relabels labels (self.arriveExit config id order time state)
      ((self.relabel labels).arriveExit config id order time state) := by
  unfold arriveExit
  rw [exitFill_relabel]
  refine Mirrors.after fun walked => Mirrors.ite (.error _) (Mirrors.after fun closed => ?_)
  exact checkCash_relabels labels (self.recordSale id order walked closed.1 closed.2 time)

theorem arriveBuy_relabels (id : ℕ) (order : Order) (time : ℕ) (state : MarketState) :
    Relabels labels (self.arriveBuy id order time state)
      ((self.relabel labels).arriveBuy id order time state) := by
  unfold arriveBuy
  rw [buyFill_relabel]
  refine Mirrors.after fun walked => Mirrors.ite (.error _) ?_
  exact Mirrors.bind (checkCash_relabels labels (self.recordBuy id order walked)) fun checked =>
    Mirrors.after fun positions => .ok _

theorem arrive_relabels (event : Event) (state : MarketState) :
    Relabels labels (self.arrive event state) ((self.relabel labels).arrive event state) := by
  have hexit : (study.relabel labels).policy.residualExit = study.policy.residualExit := rfl
  unfold arrive
  rw [hexit]
  refine Mirrors.ite (.error _) (Mirrors.ite ?_ ?_)
  · cases study.policy.residualExit with
    | none => exact .error _
    | some config =>
      exact Mirrors.bind (arriveExit_relabels labels (self.markArrived event) config event.order
        _ event.time state) fun next => Mirrors.after fun time => .ok _
  · exact Mirrors.bind (arriveBuy_relabels labels (self.markArrived event) event.order
      _ event.time state) fun next => Mirrors.after fun time => .ok _

theorem settle_relabels (settlement : Settlement) :
    Relabels labels (self.settle settlement) ((self.relabel labels).settle settlement) :=
  Mirrors.after fun closed => Mirrors.ite (.error _)
    (checkCash_relabels labels (self.recordSettlement settlement closed.1 closed.2))

/-- **Events** do not read the settlements that are still to come. -/
theorem handle_relabels (state : MarketState) (due : Due) :
    Relabels labels (self.handle state due) ((self.relabel labels).handle state due) := by
  cases due with
  | settlement settlement => exact settle_relabels labels self.advanceSettlement settlement
  | event event =>
    exact Mirrors.ite (respond_relabels labels self.pop event state)
      (arrive_relabels labels self.pop event state)

/-! ### The event loop -/

variable {labels : Labels} {self : Simulation study} {limit time now : ℕ} {inclusive : Bool}
  {state : MarketState}

theorem nextDue_relabel (hsame : AgreeUpTo limit labels.settlements study.lifecycle.settlements)
    (hle : time ≤ limit) :
    (self.relabel labels).nextDue time inclusive = self.nextDue time inclusive := by
  have hfilter : ((study.relabel labels).lifecycle.settlements[
        (self.relabel labels).settlementIndex]?.filter fun settlement =>
          decide (settlement.time ≤ time)) =
      study.lifecycle.settlements[self.settlementIndex]?.filter fun settlement =>
        decide (settlement.time ≤ time) :=
    hsame.filter_at labels.chronological study.chronological hle self.settlementIndex
  unfold nextDue
  rw [hfilter]
  rfl

theorem process_relabels (hsame : AgreeUpTo limit labels.settlements study.lifecycle.settlements)
    (hle : time ≤ limit) :
    Relabels labels (process time inclusive state self)
      (process time inclusive state (self.relabel labels)) := by
  unfold process
  rw [nextDue_relabel hsame hle]
  cases self.nextDue time inclusive with
  | none => exact .ok self
  | some due => exact handle_relabels labels self state due

/-- **The event loop** handles settlements alike up to the time up to which they agree. -/
theorem drainLifecycle_relabels
    (hsame : AgreeUpTo limit labels.settlements study.lifecycle.settlements) (hle : now ≤ limit)
    (h : Reached study now self) (h' : Reached (study.relabel labels) now (self.relabel labels)) :
    Relabels labels (self.drainLifecycle now inclusive state)
      ((self.relabel labels).drainLifecycle now inclusive state) := by
  rw [← drain_stages h inclusive state (le_max_left _ (self.relabel labels).stages),
    ← drain_stages h' inclusive state (le_max_right self.stages _)]
  refine Mirrors.drain (fun current => ?_) (fun current => process_relabels hsame hle) _ self
  exact congrArg Option.isSome (nextDue_relabel hsame hle)

/-! ### Runs -/

theorem decideAll_relabels (ids : List ConstraintId) :
    Relabels labels (decideAll time state ids self)
      (decideAll time state ids (self.relabel labels)) := by
  induction ids generalizing self with
  | nil => exact .ok self
  | cons id ids ih =>
    exact Mirrors.ite ih (Mirrors.bind (decide_relabels labels self id time state) fun _ => ih)

theorem after_relabels (frame : ReplayFrame) :
    Relabels labels (self.after frame state) ((self.relabel labels).after frame state) := by
  unfold Simulation.after
  split
  · exact decideAll_relabels _
  · exact .ok self

theorem step_relabels (hsame : AgreeUpTo limit labels.settlements study.lifecycle.settlements)
    {call : ObserverCall} (hle : call.time.toNat ≤ limit) (hnow : now ≤ call.time.toNat)
    (h : Reached study now self) (h' : Reached (study.relabel labels) now (self.relabel labels)) :
    Relabels labels (self.step call) ((self.relabel labels).step call) := by
  cases call with
  | before time state => exact drainLifecycle_relabels hsame hle (h.waits hnow) (h'.waits hnow)
  | after frame state => exact after_relabels frame

/-- **Runs** up to the time up to which the settlements agree do the same. -/
theorem run_relabels (hsame : AgreeUpTo limit labels.settlements study.lifecycle.settlements)
    {calls : List ObserverCall} (hcalls : InOrder calls)
    (hle : ∀ call ∈ calls, call.time.toNat ≤ limit) :
    Relabels labels (runExcept step (initial study) calls)
      (runExcept step (initial (study.relabel labels)) calls) := by
  induction calls using List.reverseRecOn with
  | nil => exact .ok _
  | append_singleton past call ih =>
    have hpast := ih hcalls.of_append fun earlier hmem => hle earlier (List.mem_append_left _ hmem)
    rw [runExcept_append, runExcept_append]
    cases hrun : runExcept step (initial study) past with
    | error failure =>
      rw [hpast, hrun]
      exact .error failure
    | ok self =>
      have hrun' := hpast.of_ok hrun
      rw [hrun']
      change Mirrors _ ((self.step call).bind .ok) (((self.relabel labels).step call).bind .ok)
      refine Mirrors.bind ?_ .ok
      exact step_relabels hsame (hle call (by simp)) (lastTime_le hcalls)
        ((run_reached hcalls.of_append).of_ok hrun)
        ((run_reached hcalls.of_append).of_ok hrun')

/-- **Settlements at the end** are handled alike. -/
theorem settleRest_relabels (settlements : List Settlement) :
    Relabels labels (settleRest settlements self)
      (settleRest settlements (self.relabel labels)) := by
  induction settlements generalizing self with
  | nil => exact .ok self
  | cons settlement settlements ih =>
    exact Mirrors.bind (settle_relabels labels self.advanceSettlement settlement) fun _ => ih

end Simulation

end EventMarket.Session
