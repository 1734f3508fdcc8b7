import EventMarket.Session.LifecycleCash

/-!
# The time of the lifecycle

The events and the settlements are handled in the order of their times. What is handled schedules
nothing before itself, so nothing is ever late.

## Main definitions

* `Lifecycle.Sorted`: the events stand in the order in which they are handled.
* `Simulation.processedTimes`: the times of what was handled.
* `Simulation.Earliest`: what is due comes before everything else that is to come.
* `Simulation.Schedules`: what a step adds to the past and to the future.
* `Simulation.Timed`: what was handled came before what is still to come.

## Main results

* `Simulation.nextDue_earliest`: what is due next is the earliest.
* `Simulation.EventOutcome.schedules`, `Simulation.DecideOutcome.schedules`: no step schedules
  anything before itself.
* `Simulation.Timed.handle`, `Simulation.Timed.decide`: every step keeps to the time.
-/

namespace EventMarket.Session

open Constraint Core Foundations Market StudyPositions

namespace Lifecycle

/-! ### The order of the events -/

section Events

variable {event other : Event} {events : List Event}

theorem Event.before_iff : event.before other = true ↔
    event.time < other.time ∨ event.time = other.time ∧ (event.order < other.order ∨
      event.order = other.order ∧ (event.response = true → other.response = true)) := by
  unfold Event.before
  cases event.response <;> cases other.response <;> simp

instance : Std.Total fun event other : Event => event.before other = true where
  total event other := by
    rw [Event.before_iff, Event.before_iff]
    cases event.response <;> cases other.response <;> simp <;> omega

instance : IsTrans Event fun event other => event.before other = true where
  trans first second third h h' := by
    rw [Event.before_iff] at h h' ⊢
    rcases h with hlt | ⟨heq, hlt | ⟨hsame, hresponse⟩⟩ <;>
      rcases h' with hlt' | ⟨heq', hlt' | ⟨hsame', hresponse'⟩⟩
    all_goals first
      | exact .inl (by omega)
      | exact .inr ⟨by omega, .inl (by omega)⟩
      | exact .inr ⟨by omega, .inr ⟨by omega, hresponse' ∘ hresponse⟩⟩

theorem Event.time_le_of_before (h : event.before other = true) : event.time ≤ other.time := by
  rcases Event.before_iff.mp h with hlt | ⟨heq, -⟩
  · exact hlt.le
  · exact heq.le

/-- The events stand in the order in which they are handled. -/
def Sorted (events : List Event) : Prop :=
  events.Pairwise fun event other => event.before other = true

theorem Sorted.push (h : Sorted events) (event : Event) : Sorted (push event events) :=
  List.Pairwise.orderedInsert event events h

theorem Sorted.tail (h : Sorted events) : Sorted events.tail := List.Pairwise.tail h

/-- The first event is the earliest one. -/
theorem Sorted.head_le (h : Sorted events) (hhead : events.head? = some event)
    (hmem : other ∈ events) : event.time ≤ other.time := by
  rw [List.eq_cons_of_mem_head? hhead] at h hmem
  rcases List.mem_cons.mp hmem with rfl | hmem
  · exact le_rfl
  · exact Event.time_le_of_before ((List.pairwise_cons.mp h).1 other hmem)

end Events

/-- When a row tells of something that was handled. -/
def Row.processedAt : Row → Option ℕ
  | .arrival _ _ _ _ time => some time
  | .response _ _ time _ _ _ => some time
  | .settlement _ time _ _ _ => some time
  | _ => none

end Lifecycle

namespace Simulation

open Lifecycle

/-- The time of what is due. -/
def Due.time : Due → ℕ
  | .settlement next => next.time
  | .event next => next.time

variable {study : LifecycleStudy} {self middle next : Simulation study} {event : Event}
  {clock later now time : ℕ}
  {times more : List ℕ} {inclusive : Bool} {state : MarketState} {due : Due}

/-- The times of what was handled, in the order in which it was handled. -/
def processedTimes (self : Simulation study) : List ℕ := self.rows.filterMap Row.processedAt

/-! ### What is due -/

/-- The settlements that are still to come. -/
def remaining (self : Simulation study) : List Settlement :=
  study.lifecycle.settlements.drop self.settlementIndex

/-- **What is due next** comes first of all events and settlements. -/
structure Earliest (current : Simulation study) (time : ℕ) (due : Due) : Prop where
  settlement : ∀ settlement, due = .settlement settlement →
    current.remaining.head? = some settlement
  event : ∀ event, due = .event event → current.events.head? = some event
  le_time : due.time ≤ time
  le_settlement : ∀ settlement, current.remaining.head? = some settlement →
    due.time ≤ settlement.time
  le_event : ∀ event, current.events.head? = some event → due.time ≤ event.time

theorem head?_remaining : self.remaining.head? =
    study.lifecycle.settlements[self.settlementIndex]? := List.head?_drop

theorem earliest_settlement {settlement : Settlement}
    (hhead : self.remaining.head? = some settlement) (hle : settlement.time ≤ time)
    (hevent : ∀ event, self.events.head? = some event → settlement.time ≤ event.time) :
    self.Earliest time (.settlement settlement) where
  settlement := by
    rintro _ ⟨⟩
    exact hhead
  event := by rintro _ ⟨⟩
  le_time := hle
  le_settlement := by
    intro other hother
    obtain rfl := Option.some.inj (hhead.symm.trans hother)
    exact le_rfl
  le_event := hevent

theorem earliest_event (hhead : self.events.head? = some event) (hle : event.time ≤ time)
    (hsettlement : ∀ settlement, self.remaining.head? = some settlement →
      event.time ≤ settlement.time) : self.Earliest time (.event event) where
  settlement := by rintro _ ⟨⟩
  event := by
    rintro _ ⟨⟩
    exact hhead
  le_time := hle
  le_settlement := hsettlement
  le_event := by
    intro other hother
    obtain rfl := Option.some.inj (hhead.symm.trans hother)
    exact le_rfl

/-- **What is due next is the earliest.** -/
theorem nextDue_earliest (h : self.nextDue time inclusive = some due) :
    self.Earliest time due := by
  unfold nextDue at h
  rw [← head?_remaining] at h
  dsimp only at h
  generalize hsettlement : self.remaining.head?.filter
    (fun settlement => decide (settlement.time ≤ time)) = dueSettlement at h
  generalize hevent : self.events.head?.filter
    (fun event => decide (event.time < time) || inclusive && decide (event.time = time)) =
      dueEvent at h
  have hlate : dueSettlement = none → ∀ settlement, self.remaining.head? = some settlement →
      time < settlement.time := by
    rintro rfl settlement hhead
    simpa using Option.filter_eq_none_iff.mp hsettlement settlement hhead
  have hwaits : dueEvent = none → ∀ event, self.events.head? = some event → time ≤ event.time := by
    rintro rfl event hhead
    have hnot := Option.filter_eq_none_iff.mp hevent event hhead
    simp only [Bool.or_eq_true, decide_eq_true_eq, not_or, not_lt] at hnot
    exact hnot.1
  have hsettles : ∀ settlement, dueSettlement = some settlement →
      self.remaining.head? = some settlement ∧ settlement.time ≤ time := by
    rintro settlement rfl
    simpa using Option.filter_eq_some_iff.mp hsettlement
  have hhandles : ∀ event, dueEvent = some event →
      self.events.head? = some event ∧ event.time ≤ time := by
    rintro event rfl
    obtain ⟨hhead, hdue⟩ := Option.filter_eq_some_iff.mp hevent
    refine ⟨hhead, ?_⟩
    simp only [Bool.or_eq_true, Bool.and_eq_true, decide_eq_true_eq] at hdue
    omega
  cases dueSettlement with
  | none =>
    cases dueEvent with
    | none => cases h
    | some event =>
      obtain rfl := Option.some.inj h
      obtain ⟨hhead, hle⟩ := hhandles event rfl
      exact earliest_event hhead hle fun settlement hs =>
        (hle.trans_lt (hlate rfl settlement hs)).le
  | some settlement =>
    obtain ⟨hhead, hle⟩ := hsettles settlement rfl
    cases dueEvent with
    | none =>
      obtain rfl := Option.some.inj h
      exact earliest_settlement hhead hle fun event he => hle.trans (hwaits rfl event he)
    | some event =>
      obtain ⟨hfirst, hbefore⟩ := hhandles event rfl
      dsimp only at h
      split at h
      · next hfirstly =>
        obtain rfl := Option.some.inj h
        refine earliest_settlement hhead hle fun other hother => ?_
        obtain rfl := Option.some.inj (hfirst.symm.trans hother)
        exact hfirstly
      · next hlater =>
        obtain rfl := Option.some.inj h
        refine earliest_event hfirst hbefore fun other hother => ?_
        obtain rfl := Option.some.inj (hhead.symm.trans hother)
        exact (not_le.mp hlater).le

theorem remaining_sorted (self : Simulation study) :
    self.remaining.Pairwise fun settlement next => settlement.time ≤ next.time :=
  study.chronological.sublist (List.drop_sublist _ _)

/-- What is the earliest comes before every settlement that is left. -/
theorem Earliest.le_remaining (h : self.Earliest time due) :
    ∀ settlement ∈ self.remaining, due.time ≤ settlement.time := by
  intro settlement hmem
  have hsorted := self.remaining_sorted
  cases hremaining : self.remaining with
  | nil =>
    rw [hremaining] at hmem
    cases hmem
  | cons first rest =>
    have hfirst := h.le_settlement first (by rw [hremaining]; rfl)
    rw [hremaining] at hmem hsorted
    rcases List.mem_cons.mp hmem with rfl | hmem
    · exact hfirst
    · exact hfirst.trans ((List.pairwise_cons.mp hsorted).1 settlement hmem)

/-- What is the earliest comes before every event. -/
theorem Earliest.le_events (h : self.Earliest time due) (hsorted : Sorted self.events) :
    ∀ event ∈ self.events, due.time ≤ event.time := by
  intro event hmem
  cases hevents : self.events with
  | nil =>
    rw [hevents] at hmem
    cases hmem
  | cons first rest =>
    have hhead : self.events.head? = some first := by rw [hevents]; rfl
    exact (h.le_event first hhead).trans (hsorted.head_le hhead hmem)

/-! ### What a step adds -/

/-- **What a step adds**: the times of what it handles to the past, and nothing before itself to
the future. -/
structure Schedules (current : Simulation study) (now : ℕ) (times : List ℕ)
    (next : Simulation study) : Prop where
  sorted : Sorted current.events → Sorted next.events
  events : ∀ event ∈ next.events, event ∈ current.events ∨ now ≤ event.time
  remaining : ∀ settlement ∈ next.remaining, settlement ∈ current.remaining
  processed : next.processedTimes = current.processedTimes ++ times

namespace Schedules

theorem trans (h : self.Schedules now times middle) (h' : middle.Schedules now more next) :
    self.Schedules now (times ++ more) next where
  sorted := h'.sorted ∘ h.sorted
  events := by
    intro event hevent
    rcases h'.events event hevent with hmem | hle
    · exact h.events event hmem
    · exact .inr hle
  remaining := fun settlement hmem => h.remaining settlement (h'.remaining settlement hmem)
  processed := by rw [h'.processed, h.processed, List.append_assoc]

/-- A step that schedules nothing. -/
theorem keeps (hevents : next.events = self.events)
    (hindex : next.settlementIndex = self.settlementIndex) {rows : List Row}
    (hrows : next.rows = self.rows ++ rows) (htimes : rows.filterMap Row.processedAt = times) :
    self.Schedules now times next where
  sorted := hevents ▸ id
  events := fun _ hevent => .inl (hevents ▸ hevent)
  remaining := by
    unfold Simulation.remaining
    rw [hindex]
    exact fun _ => id
  processed := by rw [processedTimes, hrows, List.filterMap_append, htimes, processedTimes]

theorem refl (self : Simulation study) : self.Schedules now [] self :=
  keeps rfl rfl (List.append_nil _).symm rfl

/-- A step that schedules an event. -/
theorem pushes (hevents : next.events = push event self.events) (htime : now ≤ event.time)
    (hindex : next.settlementIndex = self.settlementIndex) {rows : List Row}
    (hrows : next.rows = self.rows ++ rows) (htimes : rows.filterMap Row.processedAt = times) :
    self.Schedules now times next where
  sorted := hevents ▸ fun hsorted => hsorted.push event
  events := by
    rw [hevents]
    intro other hother
    rcases mem_push.mp hother with rfl | hmem
    · exact .inr htime
    · exact .inl hmem
  remaining := by
    unfold Simulation.remaining
    rw [hindex]
    exact fun _ => id
  processed := by rw [processedTimes, hrows, List.filterMap_append, htimes, processedTimes]

/-- The event that is handled is gone. -/
theorem pop (self : Simulation study) : self.Schedules now [] self.pop where
  sorted := Sorted.tail
  events := fun _ hevent => .inl (List.mem_of_mem_tail hevent)
  remaining := fun _ => id
  processed := (List.append_nil _).symm

/-- The settlement that is handled is gone. -/
theorem advance (self : Simulation study) : self.Schedules now [] self.advanceSettlement where
  sorted := id
  events := fun _ hevent => .inl hevent
  remaining := fun _ hmem => (List.drop_subset_drop_left _ (Nat.le_succ _)) hmem
  processed := (List.append_nil _).symm

end Schedules

theorem filterMap_fills (fills : List FillRow) :
    (fills.map Row.fill).filterMap Row.processedAt = [] := by
  induction fills with
  | nil => rfl
  | cons fill fills ih => exact ih

theorem ExitOutcome.schedules {index : ℕ} (h : self.ExitOutcome index time next) :
    self.Schedules time [] next := by
  cases h with
  | held _ => exact Schedules.refl self
  | declined reason _ => exact Schedules.keeps rfl rfl rfl rfl
  | sent config leg quote _ _ =>
    exact Schedules.pushes rfl (Nat.le_add_right _ _) rfl rfl rfl

theorem schedules_stopAcquisition (index : ℕ) (reason : String) :
    self.Schedules now [] (self.stopAcquisition index reason) := by
  unfold stopAcquisition
  dsimp only
  split
  · exact Schedules.keeps rfl rfl rfl rfl
  · exact Schedules.keeps rfl rfl rfl rfl

theorem BuyOutcome.schedules {index : ℕ} (h : self.BuyOutcome index time next) :
    self.Schedules time [] next := by
  cases h with
  | waits _ _ => exact Schedules.refl self
  | leaves _ _ hexit => exact hexit.schedules
  | stops reason _ hexit => exact (schedules_stopAcquisition index reason).trans hexit.schedules
  | completes quote needed _ _ =>
    exact Schedules.pushes rfl (Nat.le_add_right _ _) rfl rfl rfl

theorem schedules_markArrived (event : Event) :
    self.Schedules now [event.time] (self.markArrived event) :=
  Schedules.keeps rfl rfl rfl rfl

theorem schedules_recordSale (id : ℕ) (order : Order) (walked : Walk) (basis : ℕ)
    (positions : StudyPositions) (time : ℕ) :
    self.Schedules now [] (self.recordSale id order walked basis positions time) := by
  refine Schedules.keeps rfl rfl (List.append_assoc _ _ _) ?_
  rw [List.filterMap_append, filterMap_fills]
  rfl

theorem schedules_recordBuy (id : ℕ) (order : Order) (walked : Walk) (positions : StudyPositions) :
    self.Schedules now [] { self.recordBuy id order walked with positions } := by
  exact Schedules.keeps rfl rfl rfl (filterMap_fills _)

theorem schedules_respondAt (event : Event) (h : now ≤ time) :
    self.Schedules now [] (self.respondAt event time) :=
  Schedules.pushes rfl h rfl (List.append_nil _).symm rfl

/-- **No event schedules anything before itself.** -/
theorem EventOutcome.schedules (h : self.EventOutcome state due next) :
    self.Schedules due.time [due.time] next := by
  cases h with
  | settles settlement closed positions _ =>
    exact (Schedules.advance self).trans (Schedules.keeps rfl rfl rfl rfl)
  | sells event config order walked basis positions _ _ _ _ _ _ =>
    exact (((Schedules.pop self).trans (schedules_markArrived event)).trans
      (schedules_recordSale _ order walked basis positions _)).trans
      (schedules_respondAt event (Nat.le_add_right _ _))
  | buys event order walked positions _ _ _ _ _ _ =>
    exact (((Schedules.pop self).trans (schedules_markArrived event)).trans
      (schedules_recordBuy _ order walked positions)).trans
      (schedules_respondAt event (Nat.le_add_right _ _))
  | confirmsSale event _ _ =>
    exact (Schedules.pop self).trans (Schedules.keeps rfl rfl rfl rfl)
  | confirmsBuy event _ _ hnext =>
    have hconfirmed : self.pop.Schedules event.time [event.time]
        ((self.pop.markResponded event).confirmBuy event (self.order event.order)) :=
      Schedules.keeps rfl rfl rfl rfl
    exact ((Schedules.pop self).trans hconfirmed).trans hnext.schedules

theorem schedules_reserveLeg (attempt : Lifecycle.Attempt) (leg : Fin 2) (arrival : ℕ)
    (h : now ≤ arrival) : self.Schedules now [] (reserveLeg attempt self leg arrival) := by
  unfold reserveLeg
  dsimp only
  split
  · exact Schedules.keeps rfl rfl (List.append_nil _).symm rfl
  · exact Schedules.pushes rfl h rfl rfl rfl

/-- **No decision schedules anything before itself.** -/
theorem DecideOutcome.schedules {id : ConstraintId} (h : self.DecideOutcome id time state next) :
    self.Schedules time [] next := by
  cases h with
  | declined _ _ => exact Schedules.keeps rfl rfl (List.append_nil _).symm rfl
  | enters legs quote counters _ _ _ =>
    have hannounced : self.Schedules time [] (({ self with
        evaluated := self.evaluated + 1, counters } : Simulation study).announce
          (attemptOf id legs quote time state) quote) :=
      Schedules.keeps rfl rfl rfl rfl
    have hfirst := hannounced.trans (schedules_reserveLeg (attemptOf id legs quote time state) 0
      (time + study.policy.latency 0) (Nat.le_add_right _ _))
    have hsecond := hfirst.trans (schedules_reserveLeg (attemptOf id legs quote time state) 1
      (time + study.policy.latency 1) (Nat.le_add_right _ _))
    exact hsecond.trans (Schedules.keeps rfl rfl (List.append_nil _).symm rfl)

/-! ### The past and the future -/

/-- **What was handled came before what is still to come.** -/
structure Timed (clock : ℕ) (current : Simulation study) : Prop where
  sorted : Sorted current.events
  ordered : current.processedTimes.Pairwise (· ≤ ·)
  past : ∀ time ∈ current.processedTimes, time ≤ clock
  before_events : ∀ time ∈ current.processedTimes, ∀ event ∈ current.events, time ≤ event.time
  before_settlements : ∀ time ∈ current.processedTimes, ∀ settlement ∈ current.remaining,
    time ≤ settlement.time

theorem Timed.initial : (initial study).Timed 0 where
  sorted := List.Pairwise.nil
  ordered := List.Pairwise.nil
  past := by rintro _ ⟨⟩
  before_events := by rintro _ ⟨⟩
  before_settlements := by rintro _ ⟨⟩

theorem Timed.wait (h : self.Timed clock) (hle : clock ≤ later) : self.Timed later :=
  { h with past := fun time hmem => (h.past time hmem).trans hle }

/-- What is due next comes after the past. -/
theorem Timed.le_due (h : self.Timed clock) (hearliest : self.Earliest time due) :
    ∀ earlier ∈ self.processedTimes, earlier ≤ due.time := by
  intro earlier hearlier
  cases due with
  | settlement settlement =>
    exact h.before_settlements earlier hearlier settlement
      (List.mem_of_mem_head? (hearliest.settlement settlement rfl))
  | event event =>
    exact h.before_events earlier hearlier event
      (List.mem_of_mem_head? (hearliest.event event rfl))

/-- **Every event** comes after the past. -/
theorem Timed.handle (h : self.Timed clock) (hearliest : self.Earliest clock due)
    (houtcome : self.EventOutcome state due next) : next.Timed clock := by
  have hschedules := houtcome.schedules
  have hprocessed (time : ℕ) : time ∈ next.processedTimes ↔
      time ∈ self.processedTimes ∨ time = due.time := by
    rw [hschedules.processed, List.mem_append, List.mem_singleton]
  have hpast := h.le_due hearliest
  refine ⟨hschedules.sorted h.sorted, ?_, ?_, ?_, ?_⟩
  · rw [hschedules.processed]
    refine List.pairwise_append.mpr ⟨h.ordered, List.pairwise_singleton _ _, ?_⟩
    intro time htime _ hlast
    exact List.mem_singleton.mp hlast ▸ hpast time htime
  · intro time htime
    rcases (hprocessed time).mp htime with hmem | rfl
    · exact h.past time hmem
    · exact hearliest.le_time
  · intro time htime event hevent
    have hle : time ≤ due.time := by
      rcases (hprocessed time).mp htime with hmem | rfl
      · exact hpast time hmem
      · exact le_rfl
    rcases hschedules.events event hevent with hmem | hlater
    · exact hle.trans (hearliest.le_events h.sorted event hmem)
    · exact hle.trans hlater
  · intro time htime settlement hsettlement
    have hmem := hschedules.remaining settlement hsettlement
    rcases (hprocessed time).mp htime with hbefore | rfl
    · exact h.before_settlements time hbefore settlement hmem
    · exact hearliest.le_remaining settlement hmem

/-- **Every decision** is made after the past. -/
theorem Timed.decide {id : ConstraintId} (h : self.Timed time)
    (houtcome : self.DecideOutcome id time state next) : next.Timed time := by
  have hschedules := houtcome.schedules
  have hprocessed : next.processedTimes = self.processedTimes :=
    hschedules.processed.trans (List.append_nil _)
  refine ⟨hschedules.sorted h.sorted, hprocessed ▸ h.ordered, hprocessed ▸ h.past, ?_, ?_⟩
  · rw [hprocessed]
    intro before hbefore event hevent
    rcases hschedules.events event hevent with hmem | hlater
    · exact h.before_events before hbefore event hmem
    · exact (h.past before hbefore).trans hlater
  · rw [hprocessed]
    exact fun before hbefore settlement hmem =>
      h.before_settlements before hbefore settlement (hschedules.remaining settlement hmem)

end Simulation

end EventMarket.Session
