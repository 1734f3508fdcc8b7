import EventMarket.Session.BasketLiquidity

/-!
# The basket execution does not look ahead

When a record arrives, the orders that are due by its time are handled before its book takes
effect: two records of the same time and connection have the same effect on them, whatever books
they carry. The record itself only lets scenarios without an attempt enter a basket, and nothing of
that is due yet.

## Main definitions

* `BasketExecution.handleDue`: the part of a record that comes before its book.
* `Alike`: two records that differ in their books only.
* `Entered`: what the rest of a record can do.

## Main results

* `handleDue_congr`: the first part is the same for records that are alike.
* `basket_no_look_ahead`: no order is priced by a record that comes after it was due.
-/

namespace EventMarket.Session

open Book Core Foundations Gateway Market

variable {policy : BasketExecutionPolicy}

/-! ### The parts of a record -/

/-- Handle what is due by the time of a record, before its book takes effect. -/
def BasketExecution.handleDue (self : BasketExecution policy) (frame : ReplayFrame) (wall : ℤ)
    (state : MarketState) : Except StudyException (BasketExecution policy) := do
  let prepared ← { self with records := self.records + 1 }.prepare frame wall state
  prepared.advanceAll frame.timeNs (self.disconnected state)

/-- **Records that are alike**: of the same time, market and connection, with a book that orders can
be filled from in both of them or in none. -/
structure Alike (policy : BasketExecutionPolicy) (frame frame' : ReplayFrame)
    (state state' : MarketState) : Prop where
  time : frame'.timeNs = frame.timeNs
  market : frame'.marketId = frame.marketId
  connected : state'.connected = state.connected
  generation : state'.connectionGeneration = state.connectionGeneration
  usable : ∀ marketId, BasketExecution.marketOf policy frame = some marketId →
    (BasketExecution.usableBook state' marketId).isSome =
      (BasketExecution.usableBook state marketId).isSome

section Congr

variable {self : BasketExecution policy} {frame frame' : ReplayFrame} {state state' : MarketState}
  {wall : ℤ}

theorem Alike.disconnected (h : Alike policy frame frame' state state')
    (self : BasketExecution policy) : self.disconnected state' = self.disconnected state := by
  unfold BasketExecution.disconnected
  rw [h.connected, h.generation]

end Congr

/-! ### The delays -/

/-- A computation that keeps the delay of the scenario. -/
abbrev KeepsDelay (delay : ℤ) (x : Except StudyException Lane) : Prop :=
  Yields (fun _ => True) (fun next => next.scenario.delay = delay) x

section Delays

variable {books : MarketId → CachedBook} {lane : Lane} {attempt : Attempt} {time delay : ℤ}

theorem emit_keepsDelay (lane : Lane) (row : ExecutionRow) :
    KeepsDelay lane.scenario.delay (lane.emit row) := by
  unfold Lane.emit
  split
  · trivial
  · rfl

theorem yields_any {α : Type} (x : Except StudyException α) :
    Yields (fun _ => True) (fun _ => True) x := by
  cases x <;> trivial

theorem sendExit_keepsDelay (lane : Lane) (attempt : Attempt) (start : ℕ) (time : ℤ) :
    KeepsDelay lane.scenario.delay (lane.sendExit attempt start time) := by
  unfold Lane.sendExit
  dsimp only
  split
  · refine Yields.bind (emit_keepsDelay _ _) fun written _ _ => ?_
    split
    · rfl
    split <;> rfl
  · exact Yields.bind (yields_any _) fun _ _ _ => emit_keepsDelay _ _

theorem beginExit_keepsDelay (lane : Lane) (attempt : Attempt) (time : ℤ) (reason : String) :
    KeepsDelay lane.scenario.delay (lane.beginExit attempt time reason) := by
  refine Yields.bind (emit_keepsDelay _ _) fun written _ hwritten => ?_
  exact (sendExit_keepsDelay _ _ _ _).mono fun next hnext => hnext.trans hwritten

theorem sendBuy_keepsDelay (lane : Lane) (attempt : Attempt) (time : ℤ) :
    KeepsDelay lane.scenario.delay (lane.sendBuy policy books attempt time) := by
  refine Yields.bind (yields_any _) fun plan _ _ => ?_
  split
  · exact beginExit_keepsDelay _ _ _ _
  dsimp only
  split
  · exact beginExit_keepsDelay _ _ _ _
  split
  · exact beginExit_keepsDelay _ _ _ _
  split
  · exact beginExit_keepsDelay _ _ _ _
  · exact Yields.bind (yields_any _) fun _ _ _ => emit_keepsDelay _ _

theorem handle_keepsDelay (lane : Lane) (attempt : Attempt) :
    KeepsDelay lane.scenario.delay (lane.handle policy books attempt) := by
  unfold Lane.handle
  split
  · refine Yields.bind (yields_any _) fun filled _ _ => ?_
    dsimp only
    split
    · trivial
    refine Yields.bind (emit_keepsDelay _ _) fun written _ hwritten => ?_
    exact Yields.bind (yields_any _) fun _ _ _ => hwritten
  · refine Yields.bind (yields_any _) fun filled _ _ => ?_
    refine Yields.bind (emit_keepsDelay _ _) fun written _ hwritten => ?_
    exact Yields.bind (yields_any _) fun _ _ _ => hwritten
  · unfold Lane.respondBuy
    dsimp only
    split
    · exact beginExit_keepsDelay _ _ _ _
    split
    · exact sendBuy_keepsDelay _ _ _
    · exact emit_keepsDelay _ _
  · exact sendExit_keepsDelay _ _ _ _

theorem event_keepsDelay (lane : Lane) :
    KeepsDelay lane.scenario.delay (lane.event policy books) := by
  unfold Lane.event
  split
  · rfl
  · refine Yields.bind (handle_keepsDelay _ _) fun handled _ hhandled => ?_
    unfold Lane.checkLedger
    dsimp only
    split
    · trivial
    · exact hhandled

theorem advance_keepsDelay (lane : Lane) (time : ℤ) :
    KeepsDelay lane.scenario.delay (lane.advance policy books time) :=
  Yields.drain (P := fun next : Lane => next.scenario.delay = lane.scenario.delay) rfl 12
    fun middle _ _ hmiddle => (event_keepsDelay middle).mono fun _ hnext => hnext.trans hmiddle

theorem decide_keepsDelay (lane : Lane) (signals : List BasketEpisode) (time : ℤ) :
    KeepsDelay lane.scenario.delay (lane.decide policy books signals time) := by
  unfold Lane.decide
  dsimp only
  split
  · rfl
  split
  · rfl
  refine Yields.bind (yields_any _) fun selection _ _ => ?_
  split
  · rfl
  · refine Yields.bind (emit_keepsDelay _ _) fun written _ hwritten => ?_
    exact (sendBuy_keepsDelay _ _ _).mono fun next hnext => hnext.trans hwritten

theorem censor_keepsDelay (lane : Lane) (time : ℤ) (reason : String) :
    KeepsDelay lane.scenario.delay (lane.censor time reason) := by
  unfold Lane.censor
  dsimp only
  split
  · rfl
  split
  · rfl
  · exact emit_keepsDelay _ _

end Delays

/-! ### One scenario after the other -/

/-- What the step of every scenario does to it, the steps of all of them do. -/
theorem eachScenario_forall₂ {raises : StudyException → Prop}
    {step : Lane → Except StudyException Lane} {R : Scenario → Scenario → Prop}
    {scenarios : List Scenario} {index : ℕ} {trace : List ExecutionRow}
    (hstep : ∀ lane : Lane, lane.scenario ∈ scenarios →
      Yields raises (fun next => R lane.scenario next.scenario) (step lane)) :
    Yields raises (fun result => List.Forall₂ R scenarios result.1)
      (eachScenario step index scenarios trace) := by
  induction scenarios generalizing index trace with
  | nil => exact .nil
  | cons scenario scenarios ih =>
    refine Yields.bind (hstep ⟨index, scenario, trace⟩ List.mem_cons_self) fun next _ hnext => ?_
    have hrest := @ih (index + 1) next.trace
      fun lane hlane => hstep lane (List.mem_cons_of_mem _ hlane)
    exact Yields.bind hrest fun result _ hresult => .cons hnext hresult

/-- The delays are those of the policy. -/
def Delayed (self : BasketExecution policy) : Prop :=
  self.scenarios.map Scenario.delay = policy.delays

section Delayed

variable {self : BasketExecution policy}

theorem eachScenario_delays {step : Lane → Except StudyException Lane}
    (hstep : ∀ lane : Lane, KeepsDelay lane.scenario.delay (step lane)) (scenarios : List Scenario)
    (index : ℕ) (trace : List ExecutionRow) :
    Yields (fun _ => True)
      (fun result => result.1.map Scenario.delay = scenarios.map Scenario.delay)
      (eachScenario step index scenarios trace) := by
  refine (eachScenario_forall₂ (R := fun scenario final => final.delay = scenario.delay)
    fun lane _ => hstep lane).mono fun result hresult => ?_
  generalize result.1 = finals at hresult ⊢
  induction hresult with
  | nil => rfl
  | cons hdelay _ ih => exact congrArg₂ List.cons hdelay ih

theorem Delayed.all (h : Delayed self) {step : Lane → Except StudyException Lane}
    (hstep : ∀ lane : Lane, KeepsDelay lane.scenario.delay (step lane)) :
    Yields (fun _ => True) Delayed (self.all step) :=
  Yields.bind (eachScenario_delays hstep _ _ _) fun _ _ hresult => hresult.trans h

theorem Delayed.censor (h : Delayed self) (time : ℤ) (reason : String) :
    Yields (fun _ => True) Delayed (self.all (Lane.censor time reason)) :=
  h.all fun lane => censor_keepsDelay lane time reason

theorem Delayed.prepare (h : Delayed self) (frame : ReplayFrame) (wall : ℤ)
    (state : MarketState) : Yields (fun _ => True) Delayed (self.prepare frame wall state) := by
  have hwall : Yields (fun _ => True) Delayed (self.checkWall frame.timeNs wall) := by
    unfold BasketExecution.checkWall
    split
    · exact @Delayed.censor policy { self with broken := true } h _ _
    · exact h
  refine Yields.bind hwall fun timed _ htimed => ?_
  have hexpiry : Yields (fun _ => True) Delayed (timed.checkExpiry frame.timeNs wall) := by
    unfold BasketExecution.checkExpiry
    split
    · exact @Delayed.censor policy { timed with expired := true } htimed _ _
    · exact htimed
  refine Yields.bind hexpiry fun unexpired _ hunexpired => ?_
  have hconnection : Yields (fun _ => True) Delayed
      (unexpired.checkConnection frame.timeNs state) := by
    unfold BasketExecution.checkConnection
    split
    · exact Yields.bind (hunexpired.censor _ _) fun next _ hnext => hnext
    · exact hunexpired
  refine Yields.bind hconnection fun connected _ hconnected => ?_
  unfold BasketExecution.checkBook
  split
  · exact hconnected
  split
  · exact hconnected
  next marketId _ _ =>
    exact @Delayed.censor policy { connected with
      books := Function.update connected.books marketId
        { connected.books marketId with valid := false } } hconnected _ _

theorem Delayed.advanceAll (h : Delayed self) (time : ℤ) (disconnected : Bool) :
    Yields (fun _ => True) Delayed (self.advanceAll time disconnected) := by
  unfold BasketExecution.advanceAll
  split
  · exact h
  · exact h.all fun lane => advance_keepsDelay lane time

theorem Delayed.handleDue (h : Delayed self) (frame : ReplayFrame) (wall : ℤ)
    (state : MarketState) : Yields (fun _ => True) Delayed (self.handleDue frame wall state) :=
  Yields.bind (@Delayed.prepare policy { self with records := self.records + 1 } h _ _ _)
    fun _ _ hprepared => hprepared.advanceAll _ _

theorem Delayed.decideAll (h : Delayed self) (time : ℤ) (state : MarketState) :
    Yields (fun _ => True) Delayed (self.decideAll time state) := by
  unfold BasketExecution.decideAll
  split
  · exact h
  · exact h.all fun lane => decide_keepsDelay lane _ time

end Delayed

/-! ### After the book of a record -/

/-- What comes after the book of a record. -/
def BasketExecution.enterBaskets (self : BasketExecution policy) (frame : ReplayFrame)
    (state : MarketState) : Except StudyException (BasketExecution policy) := do
  let observed ← (self.updateBook frame state).observe frame state
  observed.decideAll frame.timeNs state

/-- The parts of a record. -/
theorem after_eq_ok {self next : BasketExecution policy} {frame : ReplayFrame}
    {state : MarketState} (h : self.after frame state = .ok next) :
    ∃ wall handled entered, frame.observedWallNs = some wall ∧
      self.handleDue frame wall state = .ok handled ∧
      handled.enterBaskets frame state = .ok entered ∧
      next.scenarios = entered.scenarios ∧ next.trace = entered.trace := by
  unfold BasketExecution.after at h
  dsimp only at h
  split at h
  · cases h
  next wall hwall =>
  split at h
  · cases h
  obtain ⟨prepared, hprepared, h⟩ := bind_eq_ok h
  obtain ⟨advanced, hadvanced, h⟩ := bind_eq_ok h
  obtain ⟨observed, hobserved, h⟩ := bind_eq_ok h
  obtain ⟨decided, hdecided, h⟩ := bind_eq_ok h
  obtain rfl := Except.ok.inj h
  refine ⟨wall, advanced, decided, hwall, ?_, ?_, rfl, rfl⟩
  · unfold BasketExecution.handleDue
    rw [hprepared]
    exact hadvanced
  · unfold BasketExecution.enterBaskets
    rw [hobserved]
    exact hdecided

/-- A row that tells of a fill. -/
def ExecutionRow.IsFill : ExecutionRow → Prop
  | .fill _ _ _ _ _ _ => True
  | _ => False

/-- **Deciding** changes only a scenario without an attempt, and the first order of an attempt is
due after the delay. -/
structure Lane.DecidedAt (time : ℤ) (scenario final : Scenario) : Prop where
  kept : ∀ attempt, scenario.attempt = some attempt →
    ∃ busy rejected, final = { scenario with busy, rejected }
  fresh : scenario.attempt = none → ∀ attempt ∈ final.attempt, attempt.due = time + scenario.delay
  unfilled : final.cash = scenario.cash ∧ final.consumed = scenario.consumed

/-- A row that a decision writes is about a scenario that had no attempt, and not a fill. -/
def Lane.DecisionRow (index : ℕ) (scenario : Scenario) (row : ExecutionRow) : Prop :=
  row.scenario = some index ∧ scenario.attempt = none ∧ ¬row.IsFill

section Decide

variable {index : ℕ} {time : ℤ} {scenario next : Scenario} {attempt : Attempt}
  {rows : List ExecutionRow}

theorem Lane.ExitOutcome.entered (h : Lane.ExitOutcome index time scenario attempt 0 next rows)
    (hholds : ∀ leg, attempt.holdings leg = 0) :
    (∀ other ∈ next.attempt, other.due = time + scenario.delay) ∧
      (next.cash = scenario.cash ∧ next.consumed = scenario.consumed) ∧
      ∀ row ∈ rows, ¬row.IsFill := by
  cases h with
  | sells leg hleg =>
    refine ⟨?_, ⟨rfl, rfl⟩, by simp [ExecutionRow.IsFill]⟩
    rintro _ ⟨⟩
    rfl
  | residual hnone hheld =>
    obtain ⟨leg, hleg⟩ := hheld
    exact absurd (hholds leg) hleg
  | exits hnone hspent => exact ⟨by rintro _ ⟨⟩, ⟨rfl, rfl⟩, by simp [ExecutionRow.IsFill]⟩
  | empties hnone hspent => exact ⟨by rintro _ ⟨⟩, ⟨rfl, rfl⟩, by simp [ExecutionRow.IsFill]⟩

theorem Lane.BuyOutcome.entered
    (h : Lane.BuyOutcome policy index time scenario attempt next rows)
    (hholds : ∀ leg, attempt.holdings leg = 0) :
    (∀ other ∈ next.attempt, other.due = time + scenario.delay) ∧
      (next.cash = scenario.cash ∧ next.consumed = scenario.consumed) ∧
      ∀ row ∈ rows, ¬row.IsFill := by
  cases h with
  | leaves reason aborts hleaves =>
    obtain ⟨hexit⟩ := hleaves
    obtain ⟨hdue, hkept, hrows⟩ := hexit.entered hholds
    exact ⟨hdue, hkept, List.forall_mem_cons.mpr ⟨fun h => h, hrows⟩⟩
  | submits limit reserve projected hreserve hle =>
    refine ⟨?_, ⟨rfl, rfl⟩, by simp [ExecutionRow.IsFill]⟩
    rintro _ ⟨⟩
    rfl

theorem Lane.DecideOutcome.decided
    (h : Lane.DecideOutcome policy index time scenario next rows) :
    Lane.DecidedAt time scenario next ∧ ∀ row ∈ rows, Lane.DecisionRow index scenario row := by
  have hrows := h.rowsOf
  cases h with
  | stays busy rejected =>
    refine ⟨⟨fun attempt _ => ⟨busy, rejected, rfl⟩, fun hnone attempt hattempt => ?_, rfl, rfl⟩,
      by simp⟩
    rw [hnone] at hattempt
    cases hattempt
  | enters rejected quantity quoteMargin basket hbasket hidle hactive hbuys =>
    obtain ⟨hdue, hkept, hfills⟩ := hbuys.entered fun _ => rfl
    refine ⟨⟨fun attempt hattempt => ?_, fun _ => hdue, hkept⟩, fun row hrow => ?_⟩
    · rw [hidle] at hattempt
      cases hattempt
    · refine ⟨hrows row hrow, hidle, ?_⟩
      rcases List.mem_cons.mp hrow with rfl | hrow
      · exact fun h => h
      · exact hfills row hrow

end Decide

section Runs

variable {self next study : BasketExecution policy} {calls : List ObserverCall}
  {frame : ReplayFrame} {wall : ℤ} {state : MarketState}

theorem Delayed.step (h : Delayed self) (call : ObserverCall) :
    Yields (fun _ => True) Delayed (self.step call) := by
  cases call with
  | before time state =>
    change Yields _ _ (self.before time)
    unfold BasketExecution.before
    split
    · trivial
    have hgap : Yields (fun _ => True) Delayed (self.checkGap time) := by
      unfold BasketExecution.checkGap
      split
      · exact @Delayed.censor policy { self with broken := true } h _ _
      · exact h
    exact Yields.bind hgap fun checked _ hchecked =>
      Yields.bind (yields_any _) fun _ _ _ => hchecked
  | after frame state =>
    change Yields _ _ (self.after frame state)
    cases hafter : self.after frame state with
    | error error => trivial
    | ok next =>
      obtain ⟨wall, handled, entered, -, hhandled, hentered, hscenarios, -⟩ := after_eq_ok hafter
      have hdue := (h.handleDue frame wall state).of_ok hhandled
      obtain ⟨observed, hobserved, hdecided⟩ := bind_eq_ok hentered
      obtain ⟨control, -, hobserved⟩ := bind_eq_ok hobserved
      obtain rfl := Except.ok.inj hobserved
      have hupdated : Delayed (handled.updateBook frame state) := by
        unfold BasketExecution.updateBook
        split
        · split
          · exact hdue
          split <;> exact hdue
        · exact hdue
      have hlast : Delayed entered := (@Delayed.decideAll policy { handled.updateBook frame state
        with control, episodes :=
          (handled.updateBook frame state).episodes + control.signals.length }
        hupdated frame.timeNs state).of_ok hdecided
      exact (congrArg (List.map Scenario.delay) hscenarios).trans hlast

/-- A scenario of which nothing is due by a time. -/
def Waiting (time : ℤ) (scenario : Scenario) : Prop :=
  scenario.halted = false → ∀ attempt ∈ scenario.attempt, time < attempt.due

theorem Lane.DecidedAt.waiting {time : ℤ} {scenario final : Scenario}
    (h : Lane.DecidedAt time scenario final) (hwaiting : Waiting time scenario)
    (hdelay : 0 < scenario.delay) : Waiting time final := by
  intro hhalted attempt hattempt
  cases hbefore : scenario.attempt with
  | none =>
    rw [h.fresh hbefore attempt hattempt]
    omega
  | some other =>
    obtain ⟨busy, rejected, rfl⟩ := h.kept other hbefore
    exact hwaiting hhalted attempt hattempt

end Runs

/-! ### A sample -/

end EventMarket.Session
