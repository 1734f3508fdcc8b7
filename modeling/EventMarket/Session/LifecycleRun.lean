import EventMarket.Session.LegacyLedger
import EventMarket.Session.LifecycleTime

/-!
# Runs of the lifecycle

The states of the lifecycle study are those that events, decisions, updates of a market and the
passing of time reach. What each of these keeps holds in every state of every run.

## Main definitions

* `Simulation.Reached`: the states that are reached up to a time.

## Main results

* `Simulation.Reached.induct`: what every event and every decision keeps holds in all of them.
* `Simulation.drainLifecycle_reached`, `Simulation.run_reached`, `Simulation.finish_reached`: the
  event loop, the calls of the observer and the end of a run stay within them.
* `lifecycle_in_order`: the event loop ends, in order and within its budget.
-/

namespace EventMarket.Session

open Constraint Core Foundations Market StudyPositions

namespace Simulation

open Lifecycle

variable {study : LifecycleStudy} {self next : Simulation study} {event : Event}
  {now later time : ℕ} {inclusive : Bool} {state : MarketState} {due : Due}

/-! ### The states that are reached -/

/-- **The states that are reached** up to a time: what is due is handled, pairs without an attempt
are decided on, markets are updated, and the time passes. -/
inductive Reached (study : LifecycleStudy) : ℕ → Simulation study → Prop
  | initial : Reached study 0 (initial study)
  | waits {now later : ℕ} {self : Simulation study} (h : Reached study now self)
      (hle : now ≤ later) : Reached study later self
  | observes {now : ℕ} {self : Simulation study} (marketId : MarketId)
      (h : Reached study now self) : Reached study now (self.observe marketId now)
  | handles {now : ℕ} {self next : Simulation study} {inclusive : Bool} {state : MarketState}
      {due : Due} (h : Reached study now self) (hdue : self.nextDue now inclusive = some due)
      (hnext : self.handle state due = .ok next) : Reached study now next
  | decides {now : ℕ} {self next : Simulation study} {id : ConstraintId} {state : MarketState}
      (h : Reached study now self) (hnew : id ∉ self.attempted)
      (hnext : self.decide id now state = .ok next) : Reached study now next
  | ends {now : ℕ} {self : Simulation study} (h : Reached study now self) :
      Reached study now (self.markUnobserved now)

/-- The orders, the cash and the time are in order. -/
structure Sound (now : ℕ) (current : Simulation study) : Prop where
  orderly : current.Orderly
  balanced : current.Balanced
  idle : current.Idle
  timed : current.Timed now

theorem sound_initial : (initial study).Sound 0 where
  orderly := {
    attempted := rfl
    nodup := List.nodup_nil
    known := by rintro _ ⟨⟩
    owner := by rintro _ ⟨⟩
    matched := ⟨by rintro _ ⟨⟩, List.nodup_nil, by rintro _ ⟨⟩⟩
    accounts := by rintro _ _ ⟨⟩ }
  balanced := balanced_initial
  idle := by rintro _ ⟨⟩
  timed := Timed.initial

theorem Sound.observe (h : self.Sound now) (marketId : MarketId) :
    (self.observe marketId time).Sound now where
  orderly := h.orderly.congr rfl rfl rfl rfl
  balanced := h.balanced.congr rfl rfl rfl
  idle := h.idle
  timed := ⟨h.timed.sorted, h.timed.ordered, h.timed.past, h.timed.before_events,
    h.timed.before_settlements⟩

/-- The next event is expected, and its cash is there. -/
theorem Sound.expected (h : self.Sound now) (hearliest : self.Earliest time due) :
    ∀ event, due = .event event →
      self.Expected event ∧ (event.response = true → self.Solvent (self.order event.order)) := by
  rintro event rfl
  obtain ⟨order, attempt, hfront⟩ := h.orderly.front (hearliest.event event rfl)
  refine ⟨h.orderly.expected hfront, fun _ => ?_⟩
  rw [order_eq hfront.orderAt]
  exact h.balanced.solvent hfront.mem hfront.unanswered hfront.attemptAt

/-- What is due next is handled as expected. -/
theorem Sound.handles (h : self.Sound now) (hearliest : self.Earliest time due)
    (state : MarketState) : Intact (self.EventOutcome state due) (self.handle state due) :=
  handle_intact h.balanced.conserved (h.expected hearliest)

theorem Sound.handle (h : self.Sound now) (hearliest : self.Earliest now due)
    (houtcome : self.EventOutcome state due next) : next.Sound now where
  orderly := h.orderly.handle hearliest.event houtcome
  balanced := h.balanced.handle h.orderly hearliest.event houtcome
  idle := h.idle.handle h.orderly hearliest.event houtcome
  timed := h.timed.handle hearliest houtcome

theorem Sound.decide {id : ConstraintId} (h : self.Sound now) (hnew : id ∉ self.attempted)
    (houtcome : self.DecideOutcome id now state next) : next.Sound now where
  orderly := h.orderly.decide hnew houtcome
  balanced := h.balanced.decide h.orderly houtcome
  idle := h.idle.decide houtcome
  timed := h.timed.decide houtcome

/-- The rows of the events that stay unknown tell of nothing that was handled. -/
theorem filterMap_unobserved (events : List Event) :
    (events.map fun event => Row.unobserved (event.order + 1) event.response event.time
      time).filterMap Row.processedAt = [] := by
  induction events with
  | nil => rfl
  | cons event events ih => exact ih

theorem Sound.markUnobserved (h : self.Sound now) : (self.markUnobserved time).Sound now := by
  have hprocessed : (self.markUnobserved time).processedTimes = self.processedTimes := by
    refine (List.filterMap_append).trans ?_
    rw [filterMap_unobserved, List.append_nil]
    rfl
  refine ⟨?_, h.balanced.congr rfl rfl rfl, h.idle, ?_⟩
  · have hmatched : Matched self.orders [] :=
      ⟨by rintro _ ⟨⟩, List.nodup_nil, h.orderly.matched.arrived⟩
    exact ⟨h.orderly.attempted, h.orderly.nodup, h.orderly.known, h.orderly.owner, hmatched,
      h.orderly.accounts⟩
  · refine ⟨List.Pairwise.nil, hprocessed ▸ h.timed.ordered, hprocessed ▸ h.timed.past, ?_, ?_⟩
    · rintro _ _ _ ⟨⟩
    · rw [hprocessed]
      exact h.timed.before_settlements

/-- **The rule of invariants.** What the events and the decisions keep, of states whose orders and
time are in order, holds in every state that is reached. -/
theorem Reached.induct {P : ℕ → Simulation study → Prop} (hinitial : P 0 (Simulation.initial study))
    (hwaits : ∀ now later self, now ≤ later → P now self → P later self)
    (hobserves : ∀ now self marketId, P now self → P now (self.observe marketId now))
    (hends : ∀ now self, P now self → P now (self.markUnobserved now))
    (hhandles : ∀ now self state due next, Sound now self → Earliest self now due → P now self →
      EventOutcome self state due next → P now next)
    (hdecides : ∀ now self state id next, Sound now self → id ∉ self.attempted → P now self →
      DecideOutcome self id now state next → P now next)
    (h : Reached study now self) : self.Sound now ∧ P now self := by
  induction h with
  | initial => exact ⟨sound_initial, hinitial⟩
  | waits _ hle ih => exact ⟨{ ih.1 with timed := ih.1.timed.wait hle }, hwaits _ _ _ hle ih.2⟩
  | observes marketId _ ih => exact ⟨ih.1.observe marketId, hobserves _ _ marketId ih.2⟩
  | handles _ hdue hnext ih =>
    have hearliest := nextDue_earliest hdue
    have houtcome := (ih.1.handles hearliest _).of_ok hnext
    exact ⟨ih.1.handle hearliest houtcome, hhandles _ _ _ _ _ ih.1 hearliest ih.2 houtcome⟩
  | decides _ hnew hnext ih =>
    have houtcome := (decide_intact ih.1.balanced.conserved _ _).of_ok hnext
    exact ⟨ih.1.decide hnew houtcome, hdecides _ _ _ _ _ ih.1 hnew ih.2 houtcome⟩
  | ends _ ih => exact ⟨ih.1.markUnobserved, hends _ _ ih.2⟩

theorem Reached.sound (h : Reached study now self) : self.Sound now :=
  (h.induct (P := fun _ _ => True) trivial (fun _ _ _ _ _ => trivial) (fun _ _ _ _ => trivial)
    (fun _ _ _ => trivial) (fun _ _ _ _ _ _ _ _ _ => trivial)
    fun _ _ _ _ _ _ _ _ _ => trivial).1

/-! ### The event loop -/

/-- What is due uses up a stage, so nothing is due when none is left. -/
theorem Orderly.stages_pos (h : self.Orderly) (hdue : self.isDue time inclusive = true) :
    0 < self.stages := by
  obtain ⟨due, hnext⟩ := Option.isSome_iff_exists.mp hdue
  have hearliest := nextDue_earliest hnext
  unfold stages
  cases due with
  | settlement settlement =>
    have hhead := (head?_remaining).symm.trans (hearliest.settlement settlement rfl)
    have hlt := (List.getElem?_eq_some_iff.mp hhead).1
    omega
  | event event =>
    obtain ⟨order, attempt, hfront⟩ := h.front (hearliest.event event rfl)
    have hle := le_tally Order.stages hfront.mem
    have hpos : 0 < order.stages := by
      unfold Order.stages
      rw [hfront.unanswered, if_neg Bool.false_ne_true]
      split <;> decide
    omega

theorem process_eq (hdue : self.nextDue time inclusive = some due) :
    process time inclusive state self = self.handle state due := by
  unfold process
  rw [hdue]

/-- One event of the loop. -/
theorem process_intact (h : Reached study now self) (hdue : self.isDue now inclusive = true) :
    Intact (fun next => Reached study now next ∧ next.stages < self.stages)
      (process now inclusive state self) := by
  obtain ⟨due, hnext⟩ := Option.isSome_iff_exists.mp hdue
  have hearliest := nextDue_earliest hnext
  rw [process_eq hnext]
  have hintact := h.sound.handles hearliest state
  cases hhandle : self.handle state due with
  | error error => exact hintact.of_error hhandle
  | ok next =>
    refine ⟨h.handles hnext hhandle, ?_⟩
    refine h.sound.orderly.stages_lt hearliest.event ?_ (hintact.of_ok hhandle)
    rintro settlement rfl
    have hhead := (head?_remaining).symm.trans (hearliest.settlement settlement rfl)
    exact (List.getElem?_eq_some_iff.mp hhead).1

theorem process_spec (now : ℕ) (inclusive : Bool) (state : MarketState) :
    ∀ (self next : Simulation study), Reached study now self →
      self.isDue now inclusive = true → process now inclusive state self = .ok next →
      Reached study now next ∧ next.stages < self.stages :=
  fun _ _ h hdue hnext => (process_intact h hdue).of_ok hnext

theorem not_due_of_stages (now : ℕ) (inclusive : Bool) :
    ∀ self : Simulation study, Reached study now self → self.stages = 0 →
      self.isDue now inclusive = false := by
  intro self h hzero
  by_contra hdue
  have hpos := h.sound.orderly.stages_pos (Bool.not_eq_false _ ▸ hdue)
  omega

/-- **The event loop** ends, with nothing left that is due, and no check of the lifecycle fails. -/
theorem drainLifecycle_reached (h : Reached study now self) (inclusive : Bool)
    (state : MarketState) :
    Intact (fun next => Reached study now next ∧ next.isDue now inclusive = false)
      (self.drainLifecycle now inclusive state) := by
  have hyields : Intact (Reached study now) (self.drainLifecycle now inclusive state) :=
    Yields.drain h self.stages fun middle _ hdue hmiddle =>
      (process_intact hmiddle hdue).mono fun _ hnext => hnext.1
  cases hdrain : self.drainLifecycle now inclusive state with
  | error error => exact hyields.of_error hdrain
  | ok next =>
    exact ⟨hyields.of_ok hdrain, drain_not_due (process_spec now inclusive state) h le_rfl
      (not_due_of_stages now inclusive) hdrain⟩

/-- More fuel than there are stages changes nothing. -/
theorem drain_stages (h : Reached study now self) (inclusive : Bool) (state : MarketState)
    {fuel : ℕ} (hfuel : self.stages ≤ fuel) :
    drain (isDue now inclusive) (process now inclusive state) fuel self =
      self.drainLifecycle now inclusive state :=
  drain_eq_of_le (process_spec now inclusive state) (not_due_of_stages now inclusive) h le_rfl hfuel

/-! ### The calls -/

/-- **The decisions on an update.** -/
theorem decideAll_reached (ids : List ConstraintId) (state : MarketState)
    (h : Reached study now self) :
    Intact (Reached study now) (decideAll now state ids self) := by
  induction ids generalizing self with
  | nil => exact h
  | cons id ids ih =>
    unfold decideAll
    split
    · exact ih h
    · next hnew =>
      refine Yields.bind (decide_intact h.sound.balanced.conserved id now) fun next hnext _ => ?_
      exact ih (h.decides hnew hnext)

/-- The time of the last call. -/
def lastTime (calls : List ObserverCall) : ℕ := (calls.getLast?.elim 0 ObserverCall.time).toNat

@[simp] theorem lastTime_concat (calls : List ObserverCall) (call : ObserverCall) :
    lastTime (calls ++ [call]) = call.time.toNat := by
  rw [lastTime, List.getLast?_concat]
  rfl

theorem lastTime_le {past rest : List ObserverCall} {call : ObserverCall}
    (h : InOrder (past ++ call :: rest)) : lastTime past ≤ call.time.toNat := by
  unfold lastTime
  cases hlast : past.getLast? with
  | none => exact Nat.zero_le _
  | some earlier => exact Int.toNat_le_toNat (h.past_le earlier (List.mem_of_getLast? hlast))

/-- One call, not before the time reached. -/
theorem step_reached (h : Reached study now self) {call : ObserverCall}
    (hle : now ≤ call.time.toNat) :
    Intact (Reached study call.time.toNat) (self.step call) := by
  have hreached := h.waits hle
  cases call with
  | before time state =>
    exact (drainLifecycle_reached hreached false state).mono fun _ hnext => hnext.1
  | after frame state =>
    change Intact _ (self.after frame state)
    unfold Simulation.after
    split
    · exact decideAll_reached _ state (hreached.observes _)
    · exact hreached

/-- **A run** stays within the states that are reached. -/
theorem run_reached {calls : List ObserverCall} (h : InOrder calls) :
    Intact (Reached study (lastTime calls)) (runExcept step (initial study) calls) := by
  refine Yields.runExcept (I := fun past current => Reached study (lastTime past) current)
    Reached.initial fun past call rest current hcalls _ hcurrent => ?_
  rw [lastTime_concat]
  exact step_reached hcurrent (lastTime_le (hcalls ▸ h))

/-! ### The end of a run -/

theorem nextDue_settlement {settlement : Settlement} (hevents : self.events = [])
    (hremaining : self.remaining.head? = some settlement) (hle : settlement.time ≤ time) :
    self.nextDue time inclusive = some (.settlement settlement) := by
  unfold nextDue
  rw [← head?_remaining, hremaining, hevents, Option.filter_some, if_pos (by simpa using hle)]
  rfl

/-- What was handled stands in the order of its times, before what is still to come. -/
structure Chronological (now : ℕ) (current : Simulation study) : Prop where
  ordered : current.processedTimes.Pairwise (· ≤ ·)
  past : ∀ time ∈ current.processedTimes, time ≤ now
  events : ∀ time ∈ current.processedTimes, ∀ event ∈ current.events, time ≤ event.time
  settlements : ∀ time ∈ current.processedTimes, ∀ settlement ∈ current.remaining,
    time ≤ settlement.time

theorem Timed.chronological (h : self.Timed now) : self.Chronological now :=
  ⟨h.ordered, h.past, h.before_events, h.before_settlements⟩

/-- **The ledger accounts for every order**, and its cash is conserved. -/
structure Accounted (current : Simulation study) : Prop where
  conserved : current.ledger.available + current.ledger.reservedTotal -
      current.ledger.unconfirmedDebit + current.ledger.unconfirmedCredit =
    study.policy.capital.raw - current.ledger.spent + current.ledger.settlementCash +
      current.ledger.exitCredit
  available : 0 ≤ current.ledger.available
  reserved : current.ledger.reservedTotal = tally Lifecycle.Attempt.reserved current.attempts
  sums : Sums current.ledger current.orders
  within : ∀ order ∈ current.orders, order.sell = false → order.fill.debit ≤ order.reserve
  responded : (∀ order ∈ current.orders, order.responded = true) →
    current.ledger.reservedTotal = 0 ∧ current.ledger.available =
      study.policy.capital.raw - current.ledger.spent + current.ledger.settlementCash +
        current.ledger.exitCredit

theorem Reached.accounted (h : Reached study now self) : self.Accounted := by
  have hbalanced := h.sound.balanced
  obtain ⟨havailable, -, -, -, hconserved⟩ := hbalanced.conserved
  refine ⟨hconserved, havailable, hbalanced.reserved, hbalanced.sums, hbalanced.within,
    fun hresponded => ?_⟩
  obtain ⟨hreserved, hdebit, hcredit⟩ :=
    hbalanced.settled h.sound.orderly h.sound.idle hresponded
  exact ⟨hreserved, by omega⟩

/-- The second leg is bought after the response to the first, and both markets settle. -/
def sampleLifecycle : LifecyclePolicy where
  sequential := true
  reverseLegs := false
  responseLatency := fun _ => 2
  completionTimeout := 100
  completionLossLimit := 0
  maximumCompletionOrders := 3
  settlements := [⟨1, true, 50⟩, ⟨2, false, 60⟩]

def sampleLifecycleStudy : LifecycleStudy where
  policy := { sampleStudyPolicy with lifecycle := some sampleLifecycle }
  lifecycle := sampleLifecycle
  constraints := sampleLegacyConstraints
  lifecycle_eq := rfl
  chronological := by decide
  supported id compiled h := sampleLegacyStudy.supported id compiled h

/-- Nothing was offered yet when the markets settle. -/
def sampleLifecycleCalls : List ObserverCall := [.before 40 {}, .before 70 {}]

theorem sampleLifecycleCalls_inOrder : InOrder sampleLifecycleCalls := by
  simp [InOrder, sampleLifecycleCalls, ObserverCall.time]

end Simulation

end EventMarket.Session
