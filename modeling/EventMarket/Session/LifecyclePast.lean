import EventMarket.Session.LifecycleLabels
import EventMarket.Session.ShownLevels
import Mathlib.Data.List.TakeWhile

/-!
# The past of a lifecycle

A run passes through the state in which all that happens up to a time is handled. What it writes
afterwards happens later. For studies whose settlements agree up to the time, this state is the
same: the labels of the future do not influence the past.

## Main definitions

* `Row.happenedAt`: when what a row tells of happened.
* `Announced`: the observer is called before every input, too.
* `Simulation.Keeps`: what events, decisions and the passing of time keep, from any state on.
* `Simulation.simulate`: a whole run.
* `Simulation.past`: the state of a run when all up to a time is handled.
* `Simulation.Continues`: what is written after such a state happens later.

## Main results

* `Simulation.Keeps.run`, `Simulation.Keeps.settleRest`: the rules for the rest of a run.
* `Simulation.simulate_continues`: every run passes through its past.
* `Simulation.past_relabels`: the past does not depend on later settlements.
* `Simulation.future_labels_unseen`: both together.
-/

namespace EventMarket.Session

open Constraint Core Foundations Market StudyPositions

/-- When what a row tells of happened; the other rows belong to the one before them. -/
def Lifecycle.Row.happenedAt : Lifecycle.Row → Option ℕ
  | .decision time _ _ _ _ _ _ => some time
  | .arrival _ _ _ _ time => some time
  | .exitExecution _ time _ _ _ => some time
  | .response _ _ time _ _ _ => some time
  | .exitDeclined _ time _ => some time
  | .settlement _ time _ _ _ => some time
  | _ => none

/-- Before every input the observer is called with its time. -/
def Announced (calls : List ObserverCall) : Prop :=
  ∀ past frame state later, calls = past ++ .after frame state :: later →
    ∃ earlier books, past = earlier ++ [.before frame.timeNs books]

/-- A replay announces its inputs. -/
theorem replayCalls_announced (state : MarketState)
    (updates : List (ℤ × MarketId × NormalizedMarketEvent)) :
    Announced (replayCalls state updates) := by
  induction updates generalizing state with
  | nil =>
    intro past frame state later h
    simp [replayCalls] at h
  | cons update updates ih =>
    intro past frame after later h
    rw [replayCalls] at h
    rcases past with _ | ⟨first, _ | ⟨second, past⟩⟩
    · simp at h
    · simp only [List.cons_append, List.nil_append, List.cons.injEq,
        ObserverCall.after.injEq] at h
      obtain ⟨rfl, ⟨rfl, -⟩, -⟩ := h
      exact ⟨[], state, rfl⟩
    · simp only [List.cons_append, List.cons.injEq] at h
      obtain ⟨earlier, books, rfl⟩ := ih _ past frame after later h.2.2
      exact ⟨first :: second :: earlier, books, rfl⟩

namespace Simulation

open Lifecycle

variable {study : LifecycleStudy} {self middle next : Simulation study} {now later limit time : ℕ}
  {inclusive : Bool} {state : MarketState} {due : Due} {P : ℕ → Simulation study → Prop}

/-! ### What the rest of a run keeps -/

/-- **What events, decisions and the passing of time keep.** -/
structure Keeps (study : LifecycleStudy) (P : ℕ → Simulation study → Prop) : Prop where
  waits : ∀ {now later self}, now ≤ later → P now self → P later self
  observes : ∀ {now self} marketId, P now self → P now (self.observe marketId now)
  handles : ∀ {now self state due next}, Sound now self → self.Earliest now due → P now self →
    self.EventOutcome state due next → P now next
  decides : ∀ {now self state id next}, Sound now self → P now self →
    self.DecideOutcome id now state next → P now next

namespace Keeps

/-- A state that is reached and has the property. -/
abbrev Both (P : ℕ → Simulation study → Prop) (now : ℕ) (current : Simulation study) : Prop :=
  Reached study now current ∧ P now current

theorem wait (hkeeps : Keeps study P) (h : Both P now self) (hle : now ≤ later) :
    Both P later self := ⟨h.1.waits hle, hkeeps.waits hle h.2⟩

theorem handle (hkeeps : Keeps study P) (h : Both P now self)
    (hdue : self.nextDue now inclusive = some due) (state : MarketState) :
    Intact (Both P now) (self.handle state due) := by
  have hearliest := nextDue_earliest hdue
  have hintact := h.1.sound.handles hearliest state
  cases hhandle : self.handle state due with
  | error failure => exact hintact.of_error hhandle
  | ok next =>
    exact ⟨h.1.handles hdue hhandle,
      hkeeps.handles h.1.sound hearliest h.2 (hintact.of_ok hhandle)⟩

theorem drainLifecycle (hkeeps : Keeps study P) (h : Both P now self) (inclusive : Bool)
    (state : MarketState) :
    Intact (Both P now) (self.drainLifecycle now inclusive state) := by
  refine Yields.drain h self.stages fun middle _ hdue hmiddle => ?_
  obtain ⟨due, hnext⟩ := Option.isSome_iff_exists.mp hdue
  rw [process_eq hnext]
  exact hkeeps.handle hmiddle hnext state

theorem decideAll (hkeeps : Keeps study P) (h : Both P now self) (ids : List ConstraintId)
    (state : MarketState) :
    Intact (Both P now) (decideAll now state ids self) := by
  induction ids generalizing self with
  | nil => exact h
  | cons id ids ih =>
    unfold Simulation.decideAll
    split
    · exact ih h
    · next hnew =>
      have hsound := h.1.sound
      refine Yields.bind (decide_intact hsound.balanced.conserved id now)
        fun next hnext houtcome => ?_
      exact ih ⟨h.1.decides hnew hnext, hkeeps.decides hsound h.2 houtcome⟩

/-- One call, not before the time reached. -/
theorem step (hkeeps : Keeps study P) (h : Both P now self) {call : ObserverCall}
    (hle : now ≤ call.time.toNat) : Intact (Both P call.time.toNat) (self.step call) := by
  have hwaited := hkeeps.wait h hle
  cases call with
  | before time state => exact hkeeps.drainLifecycle hwaited false state
  | after frame state =>
    change Intact _ (self.after frame state)
    unfold Simulation.after
    split
    · exact hkeeps.decideAll ⟨hwaited.1.observes _, hkeeps.observes _ hwaited.2⟩ _ state
    · exact hwaited

/-- **The rest of a run.** -/
theorem run (hkeeps : Keeps study P) (h : Both P now self) {calls : List ObserverCall}
    (hcalls : calls.Pairwise fun call next => call.time ≤ next.time)
    (hnow : ∀ call ∈ calls, now ≤ call.time.toNat) (hle : now ≤ time)
    (htime : ∀ call ∈ calls, call.time.toNat ≤ time) :
    Intact (Both P time) (runExcept Simulation.step self calls) := by
  induction calls generalizing self now with
  | nil => exact hkeeps.wait h hle
  | cons call calls ih =>
    obtain ⟨hfirst, hrest⟩ := List.pairwise_cons.mp hcalls
    obtain ⟨hcall, htimes⟩ := List.forall_mem_cons.mp htime
    refine Yields.bind (hkeeps.step h (hnow call List.mem_cons_self)) fun next _ hnext => ?_
    exact ih hnext hrest (fun later hmem => Int.toNat_le_toNat (hfirst later hmem)) hcall htimes

/-- **Settlements** that come up to a time, when no event is left. -/
theorem settleRest (hkeeps : Keeps study P) (h : Both P now self)
    {settlements rest : List Settlement}
    (hevents : self.events = []) (hremaining : self.remaining = settlements ++ rest)
    (htimes : ∀ settlement ∈ settlements, settlement.time ≤ now) :
    Intact (fun final => Both P now final ∧ final.events = [] ∧ final.remaining = rest)
      (settleRest settlements self) := by
  induction settlements generalizing self with
  | nil => exact ⟨h, hevents, hremaining⟩
  | cons settlement settlements ih =>
    obtain ⟨hfirst, hrest⟩ := List.forall_mem_cons.mp htimes
    have hhead : self.remaining.head? = some settlement := by rw [hremaining]; rfl
    have hdue : self.nextDue now true = some (.settlement settlement) :=
      nextDue_settlement hevents hhead hfirst
    have hadvanced : self.advanceSettlement.remaining = settlements ++ rest := by
      have htail : self.remaining.tail = settlements ++ rest := by rw [hremaining]; rfl
      rwa [remaining, List.tail_drop] at htail
    have houtcome : Intact (self.EventOutcome {} (.settlement settlement))
        (self.advanceSettlement.settle settlement) :=
      settle_intact h.1.sound.balanced.conserved settlement
    refine Yields.bind (hkeeps.handle h hdue {}) fun next hnext hboth => ?_
    cases houtcome.of_ok hnext with
    | settles _ closed positions _ => exact ih hboth hevents hadvanced hrest

end Keeps

/-! ### When rows are written -/

/-- What is written tells of one time. -/
def Writes (current : Simulation study) (now : ℕ) (next : Simulation study) : Prop :=
  ∃ rows, next.rows = current.rows ++ rows ∧ ∀ row ∈ rows, ∀ time ∈ row.happenedAt, time = now

namespace Writes

theorem trans (h : self.Writes now middle) (h' : middle.Writes now next) :
    self.Writes now next := by
  obtain ⟨rows, hrows, htimes⟩ := h
  obtain ⟨more, hmore, htimes'⟩ := h'
  refine ⟨rows ++ more, by rw [hmore, hrows, List.append_assoc], fun row hrow => ?_⟩
  rcases List.mem_append.mp hrow with hmem | hmem
  · exact htimes row hmem
  · exact htimes' row hmem

theorem nothing (h : next.rows = self.rows) : self.Writes now next :=
  ⟨[], by rw [h, List.append_nil], by rintro _ ⟨⟩⟩

theorem one {row : Row} (h : next.rows = self.rows ++ [row])
    (hrow : ∀ time ∈ row.happenedAt, time = now) : self.Writes now next :=
  ⟨[row], h, List.forall_mem_singleton.mpr hrow⟩

theorem fills {walked : Walk} (h : next.rows = self.rows ++ walked.rows.map .fill) :
    self.Writes now next := by
  refine ⟨_, h, fun row hrow => ?_⟩
  obtain ⟨fill, -, rfl⟩ := List.mem_map.mp hrow
  rintro _ ⟨⟩

end Writes

theorem ExitOutcome.writes {index : ℕ} (h : self.ExitOutcome index time next) :
    self.Writes time next := by
  cases h with
  | held _ => exact .nothing rfl
  | declined reason _ => exact .one rfl fun _ hmem => (Option.mem_some_iff.mp hmem).symm
  | sent config leg quote _ _ => exact .one rfl (by rintro _ ⟨⟩)

theorem stopAcquisition_writes (index : ℕ) (reason : String) :
    self.Writes now (self.stopAcquisition index reason) := by
  unfold stopAcquisition
  dsimp only
  split
  · exact .one rfl (by rintro _ ⟨⟩)
  · exact .one rfl (by rintro _ ⟨⟩)

theorem BuyOutcome.writes {index : ℕ} (h : self.BuyOutcome index time next) :
    self.Writes time next := by
  cases h with
  | waits _ _ => exact .nothing rfl
  | leaves _ _ hexit => exact hexit.writes
  | stops reason _ hexit => exact (stopAcquisition_writes index reason).trans hexit.writes
  | completes quote needed _ _ => exact .one rfl (by rintro _ ⟨⟩)

theorem markArrived_writes (event : Event) : self.Writes event.time (self.markArrived event) :=
  .one rfl fun _ hmem => (Option.mem_some_iff.mp hmem).symm

/-- **An event** writes of its own time. -/
theorem EventOutcome.writes (h : self.EventOutcome state due next) :
    self.Writes due.time next := by
  cases h with
  | settles settlement closed positions _ =>
    exact .one rfl fun _ hmem => (Option.mem_some_iff.mp hmem).symm
  | sells event config order walked basis positions _ _ _ _ _ _ =>
    have hfilled : (self.pop.markArrived event).Writes event.time
        ((self.pop.markArrived event).applyWalk walked) := .fills rfl
    have hsold : ((self.pop.markArrived event).applyWalk walked).Writes event.time
        (((self.pop.markArrived event).recordSale event.order order walked basis positions
          event.time).respondAt event (event.time + config.responseLatency)) :=
      .one rfl fun _ hmem => (Option.mem_some_iff.mp hmem).symm
    exact ((markArrived_writes event).trans hfilled).trans hsold
  | buys event order walked positions _ _ _ _ _ _ =>
    have hfilled : (self.pop.markArrived event).Writes event.time
        ({ (self.pop.markArrived event).recordBuy event.order order walked
          with positions }.respondAt event
            (event.time + study.lifecycle.responseLatency order.leg)) := .fills rfl
    exact (markArrived_writes event).trans hfilled
  | confirmsSale event _ _ =>
    exact .one rfl fun _ hmem => (Option.mem_some_iff.mp hmem).symm
  | confirmsBuy event _ _ hnext =>
    have hconfirmed : self.Writes event.time
        ((self.pop.markResponded event).confirmBuy event (self.order event.order)) :=
      .one rfl fun _ hmem => (Option.mem_some_iff.mp hmem).symm
    exact hconfirmed.trans hnext.writes

theorem reserveLeg_writes (attempt : Lifecycle.Attempt) (leg : Fin 2) (arrival : ℕ) :
    self.Writes now (reserveLeg attempt self leg arrival) := by
  unfold reserveLeg
  dsimp only
  split
  · exact .nothing rfl
  · exact .one rfl (by rintro _ ⟨⟩)

/-- **A decision** writes of its own time. -/
theorem DecideOutcome.writes {id : ConstraintId} (h : self.DecideOutcome id time state next) :
    self.Writes time next := by
  cases h with
  | declined _ _ => exact .nothing rfl
  | enters legs quote counters _ _ _ =>
    have hannounced : self.Writes time (({ self with
        evaluated := self.evaluated + 1, counters } : Simulation study).announce
          (attemptOf id legs quote time state) quote) :=
      .one rfl fun _ hmem => (Option.mem_some_iff.mp hmem).symm
    have hfirst := hannounced.trans (reserveLeg_writes (attemptOf id legs quote time state) 0
      (time + study.policy.latency 0))
    have hsecond := hfirst.trans (reserveLeg_writes (attemptOf id legs quote time state) 1
      (time + study.policy.latency 1))
    exact hsecond.trans (.nothing rfl)

/-! ### Before and after a time -/

/-- All that was written happened up to a time. -/
def UpTo (now : ℕ) (current : Simulation study) : Prop :=
  ∀ row ∈ current.rows, ∀ time ∈ row.happenedAt, time ≤ now

theorem UpTo.writes (h : self.UpTo now) (hwrites : self.Writes time next) (hle : time ≤ now) :
    next.UpTo now := by
  obtain ⟨rows, hrows, htimes⟩ := hwrites
  unfold UpTo
  rw [hrows]
  intro row hrow happened hmem
  rcases List.mem_append.mp hrow with hold | hnew
  · exact h row hold happened hmem
  · exact htimes row hnew happened hmem ▸ hle

/-- **What was written happened up to now.** -/
theorem keeps_upTo : Keeps study fun now current => current.UpTo now where
  waits hle h row hrow time hmem := (h row hrow time hmem).trans hle
  observes _ h := h
  handles _ hearliest h houtcome := h.writes houtcome.writes hearliest.le_time
  decides _ h houtcome := h.writes houtcome.writes le_rfl

/-- **What is written after a time** happens later, and so does what is still to come. -/
structure Beyond (limit : ℕ) (start current : Simulation study) : Prop where
  rows : ∃ more, current.rows = start.rows ++ more ∧
    ∀ row ∈ more, ∀ time ∈ row.happenedAt, limit < time
  events : ∀ event ∈ current.events, limit < event.time
  remaining : ∀ settlement ∈ current.remaining, limit < settlement.time

theorem Beyond.writes {start : Simulation study} {times : List ℕ} (h : Beyond limit start self)
    (hwrites : self.Writes time next) (hschedules : self.Schedules time times next)
    (hlt : limit < time) : Beyond limit start next where
  rows := by
    obtain ⟨more, hmore, hlater⟩ := h.rows
    obtain ⟨rows, hrows, htimes⟩ := hwrites
    refine ⟨more ++ rows, by rw [hrows, hmore, List.append_assoc], ?_⟩
    intro row hrow happened hmem
    rcases List.mem_append.mp hrow with hold | hnew
    · exact hlater row hold happened hmem
    · exact htimes row hnew happened hmem ▸ hlt
  events := by
    intro event hevent
    rcases hschedules.events event hevent with hold | hle
    · exact h.events event hold
    · exact hlt.trans_le hle
  remaining settlement hmem := h.remaining settlement (hschedules.remaining settlement hmem)

/-- **What follows a time** stays beyond it. -/
theorem keeps_beyond (start : Simulation study) :
    Keeps study fun now current => limit < now ∧ Beyond limit start current where
  waits hle h := ⟨h.1.trans_le hle, h.2⟩
  observes _ h := ⟨h.1, h.2.rows, h.2.events, h.2.remaining⟩
  handles hsound hearliest h houtcome := by
    refine ⟨h.1, h.2.writes houtcome.writes houtcome.schedules ?_⟩
    rename_i self state due next
    cases due with
    | settlement settlement =>
      exact h.2.remaining settlement
        (List.mem_of_mem_head? (hearliest.settlement settlement rfl))
    | event event =>
      exact h.2.events event (List.mem_of_mem_head? (hearliest.event event rfl))
  decides _ h houtcome := ⟨h.1, h.2.writes houtcome.writes houtcome.schedules h.1⟩

/-! ### The past and what is due -/

/-- What is due first is due at a later time, too. -/
theorem nextDue_mono (hle : limit ≤ now) (hbefore : limit < now ∨ inclusive = true)
    (h : self.nextDue limit true = some due) : self.nextDue now inclusive = some due := by
  unfold nextDue at h ⊢
  dsimp only at h ⊢
  generalize study.lifecycle.settlements[self.settlementIndex]? = settlement at h ⊢
  generalize self.events.head? = event at h ⊢
  cases settlement with
  | none =>
    cases event with
    | none => exact h
    | some event => grind
  | some settlement =>
    cases event with
    | none => grind
    | some event => grind

/-- When nothing is due up to a time, what comes next is later. -/
theorem late_of_not_due (h : self.isDue limit true = false) :
    (∀ settlement, self.remaining.head? = some settlement → limit < settlement.time) ∧
      ∀ event, self.events.head? = some event → limit < event.time := by
  unfold isDue nextDue at h
  rw [← head?_remaining] at h
  dsimp only at h
  constructor
  · intro settlement hhead
    rw [hhead] at h
    grind
  · intro event hhead
    rw [hhead] at h
    grind

/-- When nothing is due any more, all that follows is later. -/
theorem beyond_of_not_due (h : Reached study now self) (hdue : self.isDue limit true = false) :
    Beyond limit self self where
  rows := ⟨[], (List.append_nil _).symm, by rintro _ ⟨⟩⟩
  events := by
    intro event hmem
    cases hevents : self.events with
    | nil => rw [hevents] at hmem; cases hmem
    | cons first rest =>
      have hhead : self.events.head? = some first := by rw [hevents]; rfl
      exact ((late_of_not_due hdue).2 first hhead).trans_le
        (h.sound.timed.sorted.head_le hhead hmem)
  remaining := by
    intro settlement hmem
    have hsorted := self.remaining_sorted
    cases hremaining : self.remaining with
    | nil => rw [hremaining] at hmem; cases hmem
    | cons first rest =>
      have hfirst := (late_of_not_due hdue).1 first (by rw [hremaining]; rfl)
      rw [hremaining] at hmem hsorted
      rcases List.mem_cons.mp hmem with rfl | hmem
      · exact hfirst
      · exact hfirst.trans_le ((List.pairwise_cons.mp hsorted).1 settlement hmem)

/-- **The event loop passes through the earlier time**: what is due first is handled first. -/
theorem drainLifecycle_split (h : Reached study now self) (hle : limit ≤ now)
    (hbefore : limit < now ∨ inclusive = true) :
    self.drainLifecycle now inclusive state =
      (self.drainLifecycle limit true state).bind fun middle =>
        middle.drainLifecycle now inclusive state := by
  have hfirst : ∀ current : Simulation study, current.isDue limit true = true →
      current.isDue now inclusive = true ∧
        process limit true state current = process now inclusive state current := by
    intro current hdue
    obtain ⟨due, hnext⟩ := Option.isSome_iff_exists.mp hdue
    have hlater := nextDue_mono hle hbefore hnext
    exact ⟨Option.isSome_iff_exists.mpr ⟨due, hlater⟩, by rw [process_eq hnext, process_eq hlater]⟩
  have hsplit := drain_split (process_spec now inclusive state) (not_due_of_stages now inclusive)
    hfirst h le_rfl le_rfl
  have hstages : Yields (fun _ => True)
      (fun middle => Reached study now middle ∧ middle.stages ≤ self.stages)
      (self.drainLifecycle limit true state) := by
    refine Yields.drain ⟨h, le_rfl⟩ self.stages fun middle _ hdue hmiddle => ?_
    obtain ⟨hlater, hsame⟩ := hfirst middle hdue
    rw [hsame]
    cases hprocess : process now inclusive state middle with
    | error failure => trivial
    | ok next =>
      obtain ⟨hreached, hlt⟩ :=
        process_spec now inclusive state middle next hmiddle.1 hlater hprocess
      exact ⟨hreached, hlt.le.trans hmiddle.2⟩
  refine hsplit.trans ?_
  change (self.drainLifecycle limit true state).bind _ = _
  cases hdrain : self.drainLifecycle limit true state with
  | error failure => rfl
  | ok middle =>
    obtain ⟨hreached, hle⟩ := hstages.of_ok hdrain
    exact drain_stages hreached inclusive state hle

/-! ### The past of a run -/

/-- A whole run: the calls of the observer, and its end. -/
def simulate (study : LifecycleStudy) (calls : List ObserverCall) (time : ℕ)
    (state : MarketState) : Except PositionError (Simulation study) := do
  let self ← runExcept step (initial study) calls
  self.finish time state

/-- The end of a run up to a time. A run may end before: the settlements are handled until then. -/
def endUpTo (limit time : ℕ) (state : MarketState) (self : Simulation study) :
    Except PositionError (Simulation study) :=
  if limit ≤ time then self.drainLifecycle limit true state
  else do
    let drained ← self.drainLifecycle time true state
    let ended := drained.markUnobserved time
    settleRest (ended.remaining.filter fun settlement => decide (settlement.time ≤ limit)) ended

/-- **The past of a run**: the state in which all that happens up to a time is handled, with the
books that were seen last. -/
def past (study : LifecycleStudy) (limit : ℕ) (calls : List ObserverCall) (time : ℕ)
    (state : MarketState) : Except PositionError (Simulation study) := do
  let self ← runExcept step (initial study)
    (calls.takeWhile fun call => decide (call.time.toNat ≤ limit))
  match calls.dropWhile fun call => decide (call.time.toNat ≤ limit) with
  | call :: _ => self.drainLifecycle limit true call.state
  | [] => self.endUpTo limit time state

/-- **What is written after the past** happens later. -/
structure Continues (limit : ℕ) (middle final : Simulation study) : Prop where
  before : ∀ row ∈ middle.rows, ∀ time ∈ row.happenedAt, time ≤ limit
  after : ∃ more, final.rows = middle.rows ++ more ∧
    ∀ row ∈ more, ∀ time ∈ row.happenedAt, limit < time

theorem settleRest_append (settlements more : List Settlement) (self : Simulation study) :
    settleRest (settlements ++ more) self =
      (settleRest settlements self).bind (settleRest more) := by
  induction settlements generalizing self with
  | nil => rfl
  | cons settlement settlements ih =>
    change (self.advanceSettlement.settle settlement).bind _ =
      ((self.advanceSettlement.settle settlement).bind _).bind _
    cases self.advanceSettlement.settle settlement with
    | error failure => rfl
    | ok next => exact ih next

/-- **The settlements after the end** are beyond the time. -/
theorem settleRest_beyond {start : Simulation study} (h : Reached study now self)
    (hbeyond : Beyond limit start self) (hevents : self.events = []) :
    Intact (Beyond limit start) (settleRest self.remaining self) := by
  have hbound : ∀ settlement ∈ self.remaining,
      settlement.time ≤ now + limit + 1 + tally Settlement.time self.remaining :=
    fun settlement hmem => (le_tally Settlement.time hmem).trans (Nat.le_add_left _ _)
  have hboth : Keeps.Both (fun now current => limit < now ∧ Beyond limit start current)
      (now + limit + 1 + tally Settlement.time self.remaining) self :=
    ⟨h.waits (by omega), by omega, hbeyond⟩
  exact ((keeps_beyond start).settleRest hboth hevents (List.append_nil _).symm hbound).mono
    fun final hfinal => hfinal.1.2.2

theorem markUnobserved_beyond {start : Simulation study} (h : Beyond limit start self) (time : ℕ) :
    Beyond limit start (self.markUnobserved time) where
  rows := by
    obtain ⟨more, hmore, hlater⟩ := h.rows
    refine ⟨more ++ self.events.map fun event =>
      .unobserved (event.order + 1) event.response event.time time, ?_, fun row hrow => ?_⟩
    · rw [← List.append_assoc, ← hmore]
      rfl
    · rcases List.mem_append.mp hrow with hold | hnew
      · exact hlater row hold
      · obtain ⟨event, -, rfl⟩ := List.mem_map.mp hnew
        rintro _ ⟨⟩
  events := by rintro _ ⟨⟩
  remaining := h.remaining

theorem markUnobserved_upTo (h : self.UpTo now) (time : ℕ) :
    (self.markUnobserved time).UpTo now := by
  intro row hrow
  rcases List.mem_append.mp hrow with hold | hnew
  · exact h row hold
  · obtain ⟨event, -, rfl⟩ := List.mem_map.mp hnew
    rintro _ ⟨⟩

/-- The parts of the end of a run. -/
theorem finish_parts {final : Simulation study} (h : self.finish time state = .ok final) :
    ∃ drained settled, self.drainLifecycle time true state = .ok drained ∧
      settleRest (drained.markUnobserved time).remaining (drained.markUnobserved time) =
        .ok settled ∧ final.rows = settled.rows := by
  obtain ⟨drained, hdrained, hrest⟩ := bind_eq_ok h
  obtain ⟨settled, hsettled, hpositions⟩ := bind_eq_ok hrest
  obtain ⟨positions, -, hfinal⟩ := bind_eq_ok hpositions
  exact ⟨drained, settled, hdrained, hsettled, by rw [← Except.ok.inj hfinal]⟩

theorem Beyond.continues {middle final settled : Simulation study} (hbefore : middle.UpTo limit)
    (h : Beyond limit middle settled) (hrows : final.rows = settled.rows) :
    Continues limit middle final :=
  ⟨hbefore, hrows ▸ h.rows⟩

/-- **The end after the past**: the run ended at the time or later. -/
theorem continues_of_drained {middle drained settled final : Simulation study}
    (hbefore : middle.UpTo limit) (h : Reached study now drained)
      (hbeyond : Beyond limit middle drained)
    (hsettled : settleRest (drained.markUnobserved now).remaining (drained.markUnobserved now) =
      .ok settled) (hrows : final.rows = settled.rows) : Continues limit middle final := by
  have hended := markUnobserved_beyond hbeyond now
  exact Beyond.continues hbefore ((settleRest_beyond h.ends hended rfl).of_ok hsettled) hrows

/-- **The end passes through its past.** -/
theorem finish_continues {final : Simulation study} (h : Keeps.Both (fun now current =>
      current.UpTo now) now self) (hnow : now ≤ limit) (htime : now ≤ time)
    (hfinal : self.finish time state = .ok final) :
    ∃ middle, self.endUpTo limit time state = .ok middle ∧ Continues limit middle final := by
  obtain ⟨drained, settled, hdrained, hsettled, hrows⟩ := finish_parts hfinal
  have hreached := ((drainLifecycle_reached (h.1.waits htime) true state).of_ok hdrained).1
  unfold endUpTo
  split_ifs with hle
  · rw [drainLifecycle_split (h.1.waits htime) hle (.inr rfl)] at hdrained
    obtain ⟨middle, hmiddle, hlater⟩ := bind_eq_ok hdrained
    have hupTo := (keeps_upTo.drainLifecycle (keeps_upTo.wait h hnow) true state).of_ok hmiddle
    have hdue := ((drainLifecycle_reached (h.1.waits hnow) true state).of_ok hmiddle).2
    have hstart := beyond_of_not_due hupTo.1 hdue
    refine ⟨middle, hmiddle, continues_of_drained hupTo.2 hreached ?_ hsettled hrows⟩
    rcases hle.lt_or_eq with hlt | rfl
    · have hboth : Keeps.Both (fun now current => limit < now ∧ Beyond limit middle current)
          time middle := ⟨hupTo.1.waits hle, hlt, hstart⟩
      exact (((keeps_beyond middle).drainLifecycle hboth true state).of_ok hlater).2.2
    · rw [drainLifecycle, drain_of_not_due hdue] at hlater
      exact Except.ok.inj hlater ▸ hstart
  · have hlt : time < limit := not_le.mp hle
    have hupTo := (keeps_upTo.drainLifecycle (keeps_upTo.wait h htime) true state).of_ok hdrained
    obtain ⟨late, hlate, htimes⟩ := exists_late limit (drained.markUnobserved time).remaining_sorted
    have hended : Keeps.Both (fun now current => current.UpTo now) limit
        (drained.markUnobserved time) :=
      ⟨hupTo.1.ends.waits hlt.le, keeps_upTo.waits hlt.le (markUnobserved_upTo hupTo.2 time)⟩
    rw [hlate, settleRest_append] at hsettled
    obtain ⟨middle, hmiddle, hlater⟩ := bind_eq_ok hsettled
    obtain ⟨hboth, hevents, hremaining⟩ := (keeps_upTo.settleRest hended rfl hlate fun settlement
      hmem => by simpa using (List.mem_filter.mp hmem).2).of_ok hmiddle
    refine ⟨middle, ?_, ?_⟩
    · rw [hdrained]
      exact hmiddle
    · have hstart : Beyond limit middle middle :=
        ⟨⟨[], (List.append_nil _).symm, by rintro _ ⟨⟩⟩, by rw [hevents]; rintro _ ⟨⟩,
          by rwa [hremaining]⟩
      rw [← hremaining] at hlater
      exact Beyond.continues hboth.2 ((settleRest_beyond hboth.1 hstart hevents).of_ok hlater) hrows

/-- The calls up to a time. -/
abbrev early (limit : ℕ) (calls : List ObserverCall) : List ObserverCall :=
  calls.takeWhile fun call => decide (call.time.toNat ≤ limit)

theorem early_le {calls : List ObserverCall} : ∀ call ∈ early limit calls,
    call.time.toNat ≤ limit :=
  fun call hmem => by simpa using List.mem_takeWhile_imp hmem

/-- The calls split at the time. -/
theorem early_append (limit : ℕ) (calls : List ObserverCall) :
    early limit calls ++ calls.dropWhile (fun call => decide (call.time.toNat ≤ limit)) = calls :=
  List.takeWhile_append_dropWhile

theorem early_inOrder {calls : List ObserverCall} (h : InOrder calls) :
    InOrder (early limit calls) :=
  (early_append limit calls ▸ h).of_append

theorem lastTime_le_of_forall {calls : List ObserverCall}
    (h : ∀ call ∈ calls, call.time.toNat ≤ limit) : lastTime calls ≤ limit := by
  unfold lastTime
  cases hlast : calls.getLast? with
  | none => exact Nat.zero_le _
  | some call => exact h call (List.mem_of_getLast? hlast)

theorem le_lastTime {calls : List ObserverCall} (h : InOrder calls) :
    ∀ call ∈ calls, call.time.toNat ≤ lastTime calls := by
  rcases List.eq_nil_or_concat calls with rfl | ⟨earlier, last, rfl⟩
  · rintro _ ⟨⟩
  · rw [List.concat_eq_append] at h ⊢
    intro call hmem
    rw [lastTime_concat]
    rcases List.mem_append.mp hmem with hearlier | hlast
    · exact Int.toNat_le_toNat (h.past_le call hearlier)
    · rw [List.mem_singleton.mp hlast]

/-- **A run** has written of the time up to its end. -/
theorem run_upTo {calls : List ObserverCall} (h : InOrder calls)
    (hrun : runExcept step (initial study) calls = .ok self) :
    Keeps.Both (fun now current => current.UpTo now) (lastTime calls) self :=
  (keeps_upTo.run ⟨.initial, by rintro _ ⟨⟩⟩ h.2 (fun _ _ => Nat.zero_le _) (Nat.zero_le _)
    (le_lastTime h)).of_ok hrun

/-- A call after the time comes with a call before it. -/
theorem first_later {calls later : List ObserverCall} {call : ObserverCall}
    (hannounced : Announced calls)
    (hlater : calls.dropWhile (fun call => decide (call.time.toNat ≤ limit)) = call :: later) :
    limit < call.time.toNat ∧ ∃ time books, call = .before time books := by
  have hlate : limit < call.time.toNat := by
    have hfind := List.find?_not_eq_head?_dropWhile
      (p := fun call : ObserverCall => decide (call.time.toNat ≤ limit)) (l := calls)
    rw [hlater] at hfind
    simpa using List.find?_some hfind
  refine ⟨hlate, ?_⟩
  cases call with
  | before time books => exact ⟨time, books, rfl⟩
  | after frame books =>
    have hparts := early_append limit calls
    rw [hlater] at hparts
    obtain ⟨earlier, other, hearlier⟩ := hannounced _ frame books later hparts.symm
    have hmem : ObserverCall.before frame.timeNs other ∈ early limit calls := by
      rw [hearlier]
      simp
    exact absurd (early_le _ hmem) (not_le.mpr hlate)

section Past

variable {calls later : List ObserverCall} {call : ObserverCall} {current : Simulation study}

/-- All calls are early. -/
theorem past_eq_end (hrun : runExcept step (initial study) (early limit calls) = .ok current)
    (hlater : calls.dropWhile (fun call => decide (call.time.toNat ≤ limit)) = []) :
    past study limit calls time state = current.endUpTo limit time state := by
  unfold past
  rw [hlater]
  change (runExcept step (initial study) (early limit calls)).bind _ = _
  rw [hrun]
  rfl

/-- There is a later call. -/
theorem past_eq_drain (hrun : runExcept step (initial study) (early limit calls) = .ok current)
    (hlater : calls.dropWhile (fun call => decide (call.time.toNat ≤ limit)) = call :: later) :
    past study limit calls time state = current.drainLifecycle limit true call.state := by
  unfold past
  rw [hlater]
  change (runExcept step (initial study) (early limit calls)).bind _ = _
  rw [hrun]
  rfl

end Past

/-- **Every run passes through its past.** -/
theorem simulate_continues {calls : List ObserverCall} {final : Simulation study}
    (hcalls : InOrder calls) (hannounced : Announced calls) (htime : lastTime calls ≤ time)
    (h : simulate study calls time state = .ok final) :
    ∃ middle, past study limit calls time state = .ok middle ∧ Continues limit middle final := by
  obtain ⟨self, hrun, hfinish⟩ := bind_eq_ok h
  have hparts := early_append limit calls
  rw [← hparts, runExcept_append] at hrun
  obtain ⟨current, hcurrent, hrest⟩ := bind_eq_ok hrun
  have hupTo := run_upTo (early_inOrder hcalls) hcurrent
  have hlimit : lastTime (early limit calls) ≤ limit := lastTime_le_of_forall early_le
  cases hlater : calls.dropWhile fun call => decide (call.time.toNat ≤ limit) with
  | nil =>
    rw [hlater] at hrest
    obtain rfl := Except.ok.inj hrest
    rw [past_eq_end hcurrent hlater]
    refine finish_continues hupTo hlimit ?_ hfinish
    rw [hlater, List.append_nil] at hparts
    rwa [hparts]
  | cons call later =>
    obtain ⟨hlate, clock, books, rfl⟩ := first_later hannounced hlater
    have hlate : limit < clock.toNat := hlate
    rw [past_eq_drain hcurrent hlater]
    rw [hlater] at hrest hparts
    obtain ⟨next, hnext, hrest⟩ := bind_eq_ok hrest
    have hwaited := hupTo.1.waits (hlimit.trans hlate.le)
    have hdrain : current.drainLifecycle clock.toNat false books = .ok next := hnext
    rw [drainLifecycle_split hwaited hlate.le (.inl hlate)] at hdrain
    obtain ⟨middle, hmiddle, hnext⟩ := bind_eq_ok hdrain
    have hmiddleUpTo := (keeps_upTo.drainLifecycle (keeps_upTo.wait hupTo hlimit) true
      books).of_ok hmiddle
    have hdue := ((drainLifecycle_reached (hupTo.1.waits hlimit) true books).of_ok hmiddle).2
    have hmiddleBeyond : Keeps.Both (fun now current => limit < now ∧ Beyond limit middle current)
        clock.toNat middle :=
      ⟨hmiddleUpTo.1.waits hlate.le, hlate, beyond_of_not_due hmiddleUpTo.1 hdue⟩
    have hnextBeyond := ((keeps_beyond middle).drainLifecycle hmiddleBeyond false books).of_ok hnext
    rw [← hparts] at hcalls
    have htimes : ∀ call ∈ early limit calls ++ .before clock books :: later,
        call.time.toNat ≤ time := fun call hmem =>
      (le_lastTime hcalls call hmem).trans (hparts.symm ▸ htime)
    have hself := ((keeps_beyond middle).run hnextBeyond
      (List.pairwise_cons.mp (List.pairwise_append.mp hcalls.2).2.1).2
      (fun call hmem => Int.toNat_le_toNat (hcalls.le_later call hmem))
      (htimes (.before clock books) (by simp))
      fun call hmem => htimes call (by simp [hmem])).of_ok hrest
    obtain ⟨drained, settled, hdrained, hsettled, hrows⟩ := finish_parts hfinish
    have hdrainedBeyond := ((keeps_beyond middle).drainLifecycle hself true state).of_ok hdrained
    exact ⟨middle, hmiddle, continues_of_drained hmiddleUpTo.2 hdrainedBeyond.1
      hdrainedBeyond.2.2 hsettled hrows⟩

/-! ### The labels of the future -/

theorem endUpTo_relabels {labels : Labels}
    (hsame : AgreeUpTo limit labels.settlements study.lifecycle.settlements) (hnow : now ≤ limit)
    (htime : now ≤ time) (h : Reached study now self)
    (h' : Reached (study.relabel labels) now (self.relabel labels)) :
    Relabels labels (self.endUpTo limit time state)
      ((self.relabel labels).endUpTo limit time state) := by
  by_cases hle : limit ≤ time
  · unfold endUpTo
    rw [if_pos hle, if_pos hle]
    exact drainLifecycle_relabels hsame le_rfl (h.waits hnow) (h'.waits hnow)
  · unfold endUpTo
    rw [if_neg hle, if_neg hle]
    refine Mirrors.bind (drainLifecycle_relabels hsame (not_le.mp hle).le (h.waits htime)
      (h'.waits htime)) fun drained => ?_
    have hremaining : ((drained.relabel labels).markUnobserved time).remaining.filter
          (fun settlement => decide (settlement.time ≤ limit)) =
        (drained.markUnobserved time).remaining.filter
          (fun settlement => decide (settlement.time ≤ limit)) :=
      hsame.drop labels.chronological study.chronological drained.settlementIndex
    dsimp only
    rw [hremaining]
    exact settleRest_relabels _

/-- **The past does not depend on later settlements.** -/
theorem past_relabels {labels : Labels}
    (hsame : AgreeUpTo limit labels.settlements study.lifecycle.settlements)
    {calls : List ObserverCall} (hcalls : InOrder calls) (htime : lastTime calls ≤ time) :
    Relabels labels (past study limit calls time state)
      (past (study.relabel labels) limit calls time state) := by
  have hearly : InOrder (early limit calls) := early_inOrder hcalls
  have hlimit : lastTime (early limit calls) ≤ limit := lastTime_le_of_forall early_le
  have hruns := run_relabels hsame hearly early_le
  change Mirrors _ ((runExcept step (initial study) (early limit calls)).bind _)
    ((runExcept step (initial (study.relabel labels)) (early limit calls)).bind _)
  cases hrun : runExcept step (initial study) (early limit calls) with
  | error failure =>
    rw [hruns, hrun]
    exact .error failure
  | ok self =>
    have hrun' := hruns.of_ok hrun
    rw [hrun']
    have h := (run_reached hearly).of_ok hrun
    have h' := (run_reached hearly).of_ok hrun'
    cases hlater : calls.dropWhile fun call => decide (call.time.toNat ≤ limit) with
    | nil =>
      have hall : early limit calls = calls := by
        have hparts := early_append limit calls
        rwa [hlater, List.append_nil] at hparts
      exact endUpTo_relabels hsame hlimit (hall.symm ▸ htime) h h'
    | cons call later =>
      exact drainLifecycle_relabels hsame le_rfl (h.waits hlimit) (h'.waits hlimit)

/-- **The labels of the future do not influence the past.** Two studies whose settlements agree up
to a time reach the same state when all that happens up to it is handled, or fail alike. In both of
them every run passes through this state, and what it writes afterwards happens later. -/
theorem future_labels_unseen (study : LifecycleStudy) {labels : Labels} {limit : ℕ}
    (hsame : AgreeUpTo limit labels.settlements study.lifecycle.settlements)
    {calls : List ObserverCall} (hcalls : InOrder calls) (hannounced : Announced calls) {time : ℕ}
    (htime : lastTime calls ≤ time) (state : MarketState) :
    past (study.relabel labels) limit calls time state =
        (past study limit calls time state).map (relabel labels) ∧
      (∀ final, simulate study calls time state = .ok final →
        ∃ middle, past study limit calls time state = .ok middle ∧
          Continues limit middle final) ∧
      ∀ final, simulate (study.relabel labels) calls time state = .ok final →
        ∃ middle, past study limit calls time state = .ok middle ∧
          Continues limit (middle.relabel labels) final := by
  have hpast : Relabels labels (past study limit calls time state)
      (past (study.relabel labels) limit calls time state) := past_relabels hsame hcalls htime
  refine ⟨hpast, fun final h => simulate_continues hcalls hannounced htime h, fun final h => ?_⟩
  obtain ⟨middle', hmiddle', hcontinues⟩ := simulate_continues hcalls hannounced htime h
  cases hmiddle : past study limit calls time state with
  | error failure =>
    rw [hpast, hmiddle] at hmiddle'
    cases hmiddle'
  | ok middle =>
    rw [hpast.of_ok hmiddle] at hmiddle'
    obtain rfl := Except.ok.inj hmiddle'
    exact ⟨middle, rfl, hcontinues⟩

/-! ### A sample -/

/-- Another result of the second market, known after both orders. -/
def sampleLabels : Labels where
  settlements := [⟨1, true, 50⟩, ⟨2, true, 60⟩]
  chronological := by decide

theorem sampleLifecycleCalls_announced : Announced sampleLifecycleCalls := by
  intro past frame state later h
  have hmem : ObserverCall.after frame state ∈ sampleLifecycleCalls := by rw [h]; simp
  simp [sampleLifecycleCalls] at hmem

theorem future_labels_unseen_sample :
    past (sampleLifecycleStudy.relabel sampleLabels) 55 sampleLifecycleCalls 80 {} =
      (past sampleLifecycleStudy 55 sampleLifecycleCalls 80 {}).map (relabel sampleLabels) :=
  (future_labels_unseen sampleLifecycleStudy (by unfold AgreeUpTo; decide)
    sampleLifecycleCalls_inOrder sampleLifecycleCalls_announced (by decide) {}).1

end Simulation

end EventMarket.Session
