import EventMarket.Session.PassiveLedger

/-!
# The ledger along the runs of a passive probe

Every call of the observer keeps the accounts of all scenarios. The step lemmas follow the loops
of the probe: what one scenario does leaves the others alone, up to the row it writes.

## Main definitions

* `PassiveProbe.Sound`: the accounts of all scenarios.
* `PassiveProbe.Funded`: the errors that a run may end with.

## Main results

* `PassiveProbe.quote_funded`: a quoted entry is funded by the smallest cash.
* `passive_ledger`: the ledger after every run.
-/

namespace EventMarket.Session

open Core Foundations Market

variable {policy : ProbePolicy}

/-! ### The rows of the trace -/

namespace ProbeRow

/-- Whether a row reports an incomplete basket of a scenario. -/
def underHedges (index : policy.ScenarioIndex) : ProbeRow policy → Bool
  | .outcome _ other _ _ _ false _ => decide (other = index)
  | _ => false

/-- The entry that a row signals. -/
def signalled : ProbeRow policy → Option (Entry policy)
  | .signal _ entry => some entry
  | _ => none

/-- A row that neither signals an entry nor reports an incomplete basket. -/
def Quiet (row : ProbeRow policy) : Prop :=
  row.signalled = none ∧ ∀ index, row.underHedges index = false

end ProbeRow

/-- The attempts of a scenario that ended with an incomplete basket. -/
def underHedged (trace : List (ProbeRow policy)) (index : policy.ScenarioIndex) : ℕ :=
  trace.countP (ProbeRow.underHedges index)

/-- The last entry that was signalled. -/
def lastEntry (trace : List (ProbeRow policy)) : Option (Entry policy) :=
  (trace.filterMap ProbeRow.signalled).getLast?

theorem underHedged_append (trace : List (ProbeRow policy)) (row : ProbeRow policy)
    (index : policy.ScenarioIndex) : underHedged (trace ++ [row]) index =
      underHedged trace index + if row.underHedges index then 1 else 0 := by
  rw [underHedged, List.countP_append, List.countP_singleton]
  rfl

theorem lastEntry_append (trace : List (ProbeRow policy)) (row : ProbeRow policy) :
    lastEntry (trace ++ [row]) = (row.signalled <|> lastEntry trace) := by
  unfold lastEntry
  cases hrow : row.signalled <;> simp [hrow]

namespace PassiveProbe

/-! ### Errors -/

/-- The errors of a run other than an order that cannot pay. -/
def Funded (error : StudyException) : Prop :=
  error ≠ .replay "passive entry funding invariant" 0

theorem invalid_yields {α : Type} {P : α → Prop} {text : String}
    (h : text ≠ "passive entry funding invariant") : Yields Funded P (invalid text) := by
  rintro heq
  exact h (StudyException.replay.inj heq).1

theorem failed_yields {α : Type} {P : α → Prop} : Yields Funded P (failed : Except _ α) :=
  invalid_yields (by decide)

theorem emit_yields {P : PassiveProbe policy → Prop} {self : PassiveProbe policy}
    {row : ProbeRow policy} (h : P { self with trace := self.trace ++ [row] }) :
    Yields Funded P (self.emit row) := by
  unfold emit
  split_ifs with hbudget
  · exact invalid_yields (by decide)
  · exact h

theorem emit_scenarios {self next : PassiveProbe policy} {row : ProbeRow policy}
    (h : self.emit row = .ok next) : next.scenarios = self.scenarios := by
  unfold emit at h
  split_ifs at h
  · cases h
  · obtain rfl := Except.ok.inj h
    rfl

/-! ### The accounts of all scenarios -/

/-- **The accounts of all scenarios.** A halted scenario halts the probe. -/
structure Sound (probe : PassiveProbe policy) : Prop where
  accounts : ∀ index, Accounts probe.attempts (underHedged probe.trace index) probe.entry
    (lastEntry probe.trace) (probe.scenarios index)
  halted : ∀ index, (probe.scenarios index).halted = true → probe.halted = true
  last : ∀ entry ∈ probe.entry, lastEntry probe.trace = some entry

/-- The accounts while an entry is open. -/
def Ongoing (entry : Entry policy) (self : PassiveProbe policy) : Prop :=
  self.Sound ∧ self.entry = some entry

theorem sound_initial (policy : ProbePolicy) : (initial policy).Sound where
  accounts := fun index => Accounts.initial index
  halted := by simp [initial]
  last := by simp [initial]

/-- The accounts only depend on the scenarios, the attempts, the trace and the entry. -/
theorem Sound.congr {self other : PassiveProbe policy} (h : self.Sound)
    (hscenarios : other.scenarios = self.scenarios) (hattempts : other.attempts = self.attempts)
    (htrace : other.trace = self.trace) (hentry : other.entry = self.entry)
    (hhalted : other.halted = self.halted) : other.Sound where
  accounts := fun index => by
    rw [hscenarios, hattempts, htrace, hentry]
    exact h.accounts index
  halted := fun index => by
    rw [hscenarios, hhalted]
    exact h.halted index
  last := fun entry => by
    rw [htrace, hentry]
    exact h.last entry

theorem Sound.quiet {self : PassiveProbe policy} (h : self.Sound) {row : ProbeRow policy}
    (hrow : row.Quiet) : Sound { self with trace := self.trace ++ [row] } := by
  obtain ⟨hsignalled, hunder⟩ := hrow
  have hlast : lastEntry (self.trace ++ [row]) = lastEntry self.trace := by
    rw [lastEntry_append, hsignalled]
    rfl
  have hcount (index) : underHedged (self.trace ++ [row]) index = underHedged self.trace index := by
    rw [underHedged_append, hunder index]
    rfl
  exact
    { accounts := fun index => by
        dsimp only
        rw [hlast, hcount]
        exact h.accounts index
      halted := h.halted
      last := fun entry hentry => hlast.trans (h.last entry hentry) }

namespace Ongoing

variable {entry : Entry policy} {self : PassiveProbe policy} {index : policy.ScenarioIndex}

/-- The accounts of one scenario, with its entry as the last order. -/
theorem accounts (h : Ongoing entry self) (index : policy.ScenarioIndex) :
    Accounts self.attempts (underHedged self.trace index) (some entry) (some entry)
      (self.scenarios index) := by
  have := h.1.accounts index
  rwa [h.1.last entry (by rw [h.2]; rfl), h.2] at this

theorem setScenario (h : Ongoing entry self) {scenario : ProbeScenario}
    (hscenario : Accounts self.attempts (underHedged self.trace index) (some entry) (some entry)
      scenario) (hhalted : scenario.halted = true → self.halted = true) :
    Ongoing entry (self.setScenario index scenario) := by
  refine ⟨⟨fun other => ?_, fun other => ?_, h.1.last⟩, h.2⟩
  · by_cases hother : other = index
    · subst hother
      simpa [PassiveProbe.setScenario, h.1.last entry (by rw [h.2]; rfl), h.2] using hscenario
    · simpa [PassiveProbe.setScenario, hother] using h.1.accounts other
  · by_cases hother : other = index
    · subst hother
      simpa [PassiveProbe.setScenario] using hhalted
    · simpa [PassiveProbe.setScenario, hother] using h.1.halted other

theorem emit (h : Ongoing entry self) {row : ProbeRow policy} (hrow : row.Quiet)
    {P : PassiveProbe policy → Prop}
    (hP : Ongoing entry { self with trace := self.trace ++ [row] } →
      P { self with trace := self.trace ++ [row] }) : Yields Funded P (self.emit row) :=
  emit_yields (hP ⟨h.1.quiet hrow, h.2⟩)

/-- A scenario that goes on has not halted. -/
theorem not_halted (h : Ongoing entry self) (hdone : (self.scenarios index).done = false) :
    (self.scenarios index).halted = false :=
  (h.accounts index).not_halted hdone

end Ongoing

/-! ### Timers -/

section Timers

variable {entry : Entry policy} {self : PassiveProbe policy} {index : policy.ScenarioIndex}
  {time : ℤ}

@[simp] theorem setScenario_scenarios (self : PassiveProbe policy) (index : policy.ScenarioIndex)
    (scenario : ProbeScenario) : (self.setScenario index scenario).scenarios index = scenario := by
  simp [setScenario]

theorem activate_yields (h : Ongoing entry self) (hdone : (self.scenarios index).done = false) :
    Yields Funded (Ongoing entry) (self.activate entry index time) := by
  have haccounts := h.accounts index
  unfold activate
  dsimp only
  split_ifs with hwaiting hrest
  · exact h
  · -- Nothing was filled before the order could rest.
    have hnone : (self.scenarios index).queue = none := by
      simp only [not_or, Bool.not_eq_true, Option.isSome_eq_false_iff, Option.isNone_iff_eq_none]
        at hwaiting
      exact hwaiting.1
    refine h.setScenario ?_ fun hhalted => ?_
    · refine haccounts.endUnfilled hdone ((haccounts.working entry rfl hdone).waiting hnone)
        ?_ ?_ ?_ _
      · exact ⟨rfl, rfl, rfl, rfl, rfl, rfl⟩
      · rfl
      · dsimp only; omega
    · exact h.1.halted index hhalted
  · refine (h.setScenario (haccounts.setQueue fun hnone => absurd hnone (by simp)) ?_).emit
      ⟨rfl, fun _ => rfl⟩ id
    exact h.1.halted index

theorem closeEntry_halted (scenario : ProbeScenario) :
    (closeEntry scenario time).halted = scenario.halted := by
  unfold closeEntry
  dsimp only
  split_ifs <;> rfl

theorem expireEntry_halted (scenario : ProbeScenario) :
    (expireEntry entry scenario time).halted = scenario.halted := by
  unfold expireEntry
  dsimp only
  split_ifs
  · exact closeEntry_halted _
  · rfl

theorem expireEntry_accounts {attempts under : ℕ} {scenario : ProbeScenario}
    (h : Accounts attempts under (some entry) (some entry) scenario)
    (hdone : scenario.done = false) :
    Accounts attempts under (some entry) (some entry) (expireEntry entry scenario time) := by
  have hqueue : Accounts attempts under (some entry) (some entry)
      { scenario with queue := scenario.queue.map fun queue => queue.advance time } :=
    h.setQueue fun hnone => Option.map_eq_none_iff.mp hnone
  unfold expireEntry
  dsimp only
  split_ifs
  · exact hqueue.close hdone _
  · exact hqueue

/-- Buying a leg buys at most what is desired. -/
theorem buyLevels_yields {fee : FeePolicy} {desired : ℕ} {levels : List BuyLevel} {out : Cost}
    {accumulator : FeeAccumulator} (hout : out.quantity ≤ desired) :
    Yields Funded (fun cost => cost.quantity ≤ desired)
      (buyLevels fee desired levels out accumulator) := by
  induction levels generalizing out accumulator with
  | nil => exact hout
  | cons level levels ih =>
    unfold buyLevels
    dsimp only
    split_ifs with hzero
    · exact hout
    · cases chargeBuyFill (min (desired - out.quantity) level.quantity.raw) level.price fee
        accumulator with
      | none => exact invalid_yields (by decide)
      | some charged =>
        refine ih ?_
        have := min_le_left (desired - out.quantity) level.quantity.raw
        dsimp only
        omega

/-- A hedge buys at most what is filled, with the cash of the scenario. -/
theorem hedgeCost_yields {scenario : ProbeScenario} (hcash : 0 ≤ scenario.cash) {leg : Fin 3} :
    Yields Funded (fun cost => cost.quantity ≤ scenario.filled ∧ (cost.debit : ℤ) ≤ scenario.cash)
      (self.hedgeCost entry scenario leg) := by
  have hbuy : Yields Funded (fun cost : Cost => cost.quantity ≤ scenario.filled)
      (if (self.markets (policy.market entry.basket leg)).valid then
        buy ((self.markets (policy.market entry.basket leg)).depth (Observation.sideOf leg))
          (policy.fee (policy.market entry.basket leg)) scenario.filled
      else .ok {}) := by
    split_ifs
    · exact buyLevels_yields (Nat.zero_le _)
    · exact Nat.zero_le _
  refine Yields.map (hbuy.mono fun cost hquantity => ?_)
  split_ifs with hshort
  · exact ⟨Nat.zero_le _, hcash⟩
  · exact ⟨hquantity, not_lt.mp hshort⟩

/-- A closed scenario that goes on. -/
def Hedging (entry : Entry policy) (index : policy.ScenarioIndex) (self : PassiveProbe policy) :
    Prop :=
  Ongoing entry self ∧ (self.scenarios index).done = false ∧
    (self.scenarios index).closed = true

theorem hedge_yields (h : Hedging entry index self) (ordered : ℕ × Fin 3) :
    Yields Funded (Hedging entry index) (hedge time entry index self ordered) := by
  obtain ⟨hongoing, hdone, hclosed⟩ := h
  have haccounts := hongoing.accounts index
  unfold hedge
  dsimp only
  split_ifs with hwaiting
  · exact ⟨hongoing, hdone, hclosed⟩
  · refine Yields.bind (hedgeCost_yields haccounts.cash_nonneg) fun cost _ hcost => ?_
    refine (hongoing.setScenario (haccounts.hedge hdone hclosed ordered.2 hcost.1 hcost.2) ?_).emit
      ⟨rfl, fun _ => rfl⟩ fun hnext => ⟨hnext, ?_, ?_⟩
    · exact hongoing.1.halted index
    · rw [setScenario_scenarios]
      exact hdone
    · rw [setScenario_scenarios]
      exact hclosed

/-- A settled scenario leaves the others as they are. -/
theorem settle_yields (h : Hedging entry index self) :
    Yields Funded (Ongoing entry) (self.settle index time) := by
  obtain ⟨hongoing, hdone, -⟩ := h
  have haccounts := hongoing.accounts index
  obtain ⟨hunder, -, -⟩ := haccounts.of_open hdone
  unfold settle
  dsimp only
  split_ifs with hcomplete
  · refine (hongoing.setScenario (haccounts.complete hdone _) ?_).emit ⟨rfl, fun _ => rfl⟩ id
    exact hongoing.1.halted index
  · refine emit_yields ⟨⟨fun other => ?_, fun _ _ => rfl, fun last hlast => ?_⟩, hongoing.2⟩
    · change Accounts self.attempts (underHedged (self.trace ++ [_]) other) self.entry
        (lastEntry (self.trace ++ [_])) (Function.update self.scenarios index _ other)
      rw [lastEntry_append, underHedged_append]
      by_cases hother : other = index
      · subst hother
        rw [Function.update_self, hunder, hongoing.2]
        change Accounts self.attempts (0 + if decide (other = other) = true then 1 else 0)
          (some entry) (lastEntry self.trace) _
        rw [hongoing.1.last entry hongoing.2]
        refine haccounts.endHalted hdone ?_ ?_ ?_ ?_ ?_ _
        · exact ⟨rfl, rfl, rfl, rfl, rfl, rfl⟩
        · rfl
        · rfl
        · simp
        · simp
      · rw [Function.update_of_ne hother]
        have hrow : (if (ProbeRow.outcome self.attempts index time
            (self.scenarios index).holdings (self.scenarios index).debit false none :
              ProbeRow policy).underHedges other = true then 1 else 0) = 0 :=
          if_neg (by simpa [ProbeRow.underHedges] using fun h => hother h.symm)
        rw [hrow]
        exact hongoing.1.accounts other
    · change lastEntry (self.trace ++ [_]) = some last
      rw [lastEntry_append]
      exact hongoing.1.last last hlast

theorem hedgeAll_yields (h : Hedging entry index self) :
    Yields Funded (Ongoing entry) (self.hedgeAll entry index time) := by
  refine Yields.bind (Yields.foldlM (I := fun _ => Hedging entry index) h
    fun _ ordered _ state hstate => hedge_yields hstate ordered) fun next _ hnext => ?_
  split_ifs
  · exact settle_yields hnext
  · exact hnext.1

theorem advanceScenario_yields (h : Ongoing entry self) (index : policy.ScenarioIndex) :
    Yields Funded (Ongoing entry) (advanceScenario time entry self index) := by
  unfold advanceScenario
  split_ifs with hdone
  · exact h
  · refine Yields.bind (activate_yields h (by simpa using hdone)) fun next _ hnext => ?_
    split_ifs with hstopped
    · exact hnext
    · have hrunning : (next.scenarios index).done = false := by simpa using hstopped
      have hexpired : Ongoing entry (next.setScenario index
          (expireEntry entry (next.scenarios index) time)) :=
        hnext.setScenario (expireEntry_accounts (hnext.accounts index) hrunning)
          fun hhalted => absurd hhalted (by
            simp [expireEntry_halted, hnext.not_halted hrunning])
      dsimp only
      split_ifs with hstill
      · exact hexpired
      · simp only [not_or, Bool.not_eq_false, Bool.not_eq_true] at hstill
        refine hedgeAll_yields ⟨hexpired, ?_, ?_⟩
        · rw [setScenario_scenarios]
          exact hstill.2
        · rw [setScenario_scenarios]
          exact hstill.1

/-- An attempt that is over in all scenarios is forgotten. -/
theorem Ongoing.forget (h : Ongoing entry self) (hdone : ∀ index,
    (self.scenarios index).done = true)
    (time : ℤ) : Sound { self with entry := none, lastAttemptEnd := time } where
  accounts := fun index => by
    have := h.1.accounts index
    rw [h.2] at this
    exact this.forget (hdone index)
  halted := h.1.halted
  last := by simp

theorem advance_yields (h : self.Sound) : Yields Funded Sound (self.advance time) := by
  unfold advance
  cases hentry : self.entry with
  | none => exact h
  | some entry =>
    refine Yields.bind (Yields.foldlM (I := fun _ => Ongoing entry) ⟨h, hentry⟩
      fun _ index _ state hstate => advanceScenario_yields hstate index) fun next _ hnext => ?_
    split_ifs with hall
    · exact hnext.forget (fun index => List.all_eq_true.mp hall index (List.mem_finRange index)) _
    · exact hnext.1

end Timers

/-! ### Censoring -/

theorem censor_yields {self : PassiveProbe policy} (h : self.Sound) {time : ℤ} {reason : String} :
    Yields Funded Sound (self.censor time reason) := by
  unfold censor
  cases hentry : self.entry with
  | none => exact h
  | some entry =>
    refine Yields.bind (emit_yields (P := fun next =>
      Sound { next with entry := none, lastAttemptEnd := time }) ?_) fun next _ hnext => hnext
    have hsound : Sound { self with
        scenarios := fun index => censorScenario (self.scenarios index)
        halted := self.halted || (List.finRange _).any fun index =>
          !(self.scenarios index).done && decide ((self.scenarios index).filled ≠ 0)
        entry := none
        lastAttemptEnd := time } := by
      refine ⟨fun index => ?_, fun index hhalted => ?_, by simp⟩
      · have := h.accounts index
        rw [hentry] at this
        exact this.censor
      · change (self.halted || _) = true
        rw [Bool.or_eq_true]
        change (censorScenario (self.scenarios index)).halted = true at hhalted
        unfold censorScenario at hhalted
        split_ifs at hhalted with hdone hfilled
        · exact Or.inl (h.halted index hhalted)
        · exact Or.inl (h.halted index hhalted)
        · refine Or.inr (List.any_eq_true.mpr ⟨index, List.mem_finRange index, ?_⟩)
          simp [hdone, hfilled]
    exact hsound.quiet ⟨rfl, fun _ => rfl⟩

/-! ### Public trades -/

section Trades

variable {entry : Entry policy} {self : PassiveProbe policy} {index : policy.ScenarioIndex}
  {time : ℤ}

theorem fillEntry_yields (h : Ongoing entry self) (hdone : (self.scenarios index).done = false)
    (hclosed : (self.scenarios index).closed = false)
    (hqueue : (self.scenarios index).queue ≠ none) {tradeId : String} {quantity : ℕ}
    (hpos : 0 < quantity) (hle : (self.scenarios index).filled + quantity ≤ entry.quantity) :
    Yields Funded (Ongoing entry) (self.fillEntry entry index time tradeId quantity) := by
  obtain ⟨charge, accumulator, hcharge, hdebit, hfilled⟩ :=
    (h.accounts index).fill hdone hclosed hqueue hpos hle
  unfold fillEntry
  dsimp only
  rw [hcharge]
  dsimp only
  rw [if_neg (not_lt.mpr hdebit)]
  have hnext := h.setScenario hfilled (h.1.halted index)
  refine Yields.bind (hnext.emit ⟨rfl, fun _ => rfl⟩ id) fun next hemit hrow => ?_
  have hsame := congrFun (emit_scenarios hemit) index
  rw [setScenario_scenarios] at hsame
  change Ongoing entry (if _ then _ else _)
  split_ifs
  · have haccounts := hrow.accounts index
    rw [hsame] at haccounts
    refine hrow.setScenario (haccounts.close hdone time) fun hhalted => ?_
    rw [closeEntry_halted, ← hsame] at hhalted
    exact hrow.1.halted index hhalted
  · exact hrow

theorem tradeScenario_yields (h : Ongoing entry self) (trade : PublicTrade)
    (index : policy.ScenarioIndex) :
    Yields Funded (Ongoing entry) (tradeScenario time trade entry self index) := by
  unfold tradeScenario
  dsimp only
  cases hqueue : (self.scenarios index).queue with
  | none => exact h
  | some queue =>
    dsimp only
    split_ifs with hstopped
    · exact h
    · simp only [not_or, Bool.not_eq_true] at hstopped
      cases htrade : queue.trade time trade.quantity
          ((entry.quantity : ℤ) - (self.scenarios index).filled) with
      | none => exact failed_yields
      | some traded =>
        obtain ⟨after, fill⟩ := traded
        have hfill := PassiveQueue.trade_fill_le htrade
        have hnext : Ongoing entry (self.setScenario index
            { self.scenarios index with queue := some after }) :=
          h.setScenario ((h.accounts index).setQueue fun hnone => absurd hnone (by simp))
            (h.1.halted index)
        dsimp only
        split_ifs with hzero
        · exact hnext
        · cases hquantity : Quantity.fromRaw fill with
          | none => exact failed_yields
          | some quantity =>
            have hraw := Quantity.fromRaw_eq_some_iff.mp hquantity
            refine fillEntry_yields hnext ?_ ?_ ?_ (by omega) ?_
            · rw [setScenario_scenarios]
              exact hstopped.1
            · rw [setScenario_scenarios]
              exact hstopped.2
            · rw [setScenario_scenarios]
              exact Option.some_ne_none after
            · rw [setScenario_scenarios]
              dsimp only
              omega

theorem acceptTrade_yields (h : self.Sound) (trade : PublicTrade) :
    Yields Funded Sound (self.acceptTrade trade time) := by
  unfold acceptTrade
  dsimp only [setMarket]
  cases hentry : self.entry with
  | none => exact h.congr rfl rfl rfl hentry.symm rfl
  | some entry =>
    dsimp only
    split_ifs
    · refine Yields.mono (Yields.foldlM (I := fun _ => Ongoing entry)
        ⟨h.congr rfl rfl rfl hentry.symm rfl, rfl⟩
        fun _ index _ state hstate => tradeScenario_yields hstate trade index) fun next hnext => ?_
      exact hnext.1
    · exact h.congr rfl rfl rfl hentry.symm rfl

theorem onTrade_yields (h : self.Sound) (trade : PublicTrade) (wall : ℤ) :
    Yields Funded Sound (self.onTrade trade time wall) := by
  unfold onTrade
  dsimp only
  split
  · exact h.congr rfl rfl rfl rfl rfl
  · cases trade.blockTrade with
    | none => exact h.congr rfl rfl rfl rfl rfl
    | some block =>
      cases block with
      | true => exact h.congr rfl rfl rfl rfl rfl
      | false =>
        dsimp only
        split
        · exact h.congr rfl rfl rfl rfl rfl
        · cases clockExclusion policy (wall.tdiv nanosPerMilli - trade.exchangeTimeMs) with
          | some reason => exact h.congr rfl rfl rfl rfl rfl
          | none =>
            dsimp only
            split_ifs
            · exact invalid_yields (by decide)
            · exact h.congr rfl rfl rfl rfl rfl
            · refine acceptTrade_yields ?_ trade
              exact h.congr rfl rfl rfl rfl rfl

end Trades

/-! ### Books -/

section Books

variable {entry : Entry policy} {self : PassiveProbe policy} {time : ℤ}

theorem depthScenario_yields (h : Ongoing entry self) (displayed : ℕ)
    (index : policy.ScenarioIndex) :
    Yields Funded (Ongoing entry) (depthScenario time displayed self index) := by
  unfold depthScenario
  dsimp only
  cases hqueue : (self.scenarios index).queue with
  | none => exact h
  | some queue =>
    dsimp only
    split_ifs
    · exact h
    · cases queue.depth time displayed with
      | none => exact failed_yields
      | some after =>
        exact h.setScenario ((h.accounts index).setQueue fun hnone => absurd hnone (by simp))
          (h.1.halted index)

theorem bookUpdate_yields (h : self.Sound) (frame : ReplayFrame) (marketId : MarketId)
    (state : MarketState) : Yields Funded Sound (self.bookUpdate frame marketId state) := by
  unfold bookUpdate
  dsimp only [setMarket]
  cases usableBook state marketId with
  | none =>
    refine censor_yields ?_
    exact h.congr rfl rfl rfl rfl rfl
  | some book =>
    dsimp only
    split
    · exact h
    · cases hentry : self.entry with
      | none => exact h.congr rfl rfl rfl hentry.symm rfl
      | some entry =>
        dsimp only
        split
        · refine Yields.mono (Yields.foldlM (I := fun _ => Ongoing entry)
            ⟨h.congr rfl rfl rfl hentry.symm rfl, rfl⟩
            fun _ index _ state hstate => depthScenario_yields hstate _ index) fun next hnext => ?_
          exact hnext.1
        · exact h.congr rfl rfl rfl hentry.symm rfl

end Books

/-! ### Signals -/

section Signals

variable {self : PassiveProbe policy} {available : Cash} {time wall : ℤ}

/-- The available cash is within the cash of every scenario. -/
theorem available_le (self : PassiveProbe policy) (index : policy.ScenarioIndex) :
    self.available ≤ (self.scenarios index).cash := by
  have hfold : ∀ (indexes : List policy.ScenarioIndex) (start : ℤ),
      indexes.foldl (fun cash index => min cash (self.scenarios index).cash) start ≤ start ∧
      ∀ other ∈ indexes, indexes.foldl (fun cash index => min cash (self.scenarios index).cash)
        start ≤ (self.scenarios other).cash := by
    intro indexes
    induction indexes with
    | nil => exact fun start => ⟨le_rfl, by simp⟩
    | cons first indexes ih =>
      intro start
      obtain ⟨hstart, hrest⟩ := ih (min start (self.scenarios first).cash)
      refine ⟨hstart.trans (min_le_left _ _), fun other hother => ?_⟩
      rcases List.mem_cons.mp hother with rfl | hother
      · exact hstart.trans (min_le_right _ _)
      · exact hrest other hother
  exact (hfold _ _).2 index (List.mem_finRange index)

/-- The order of an entry is funded by an amount of cash. -/
def FundedBy (available : Cash) (entry : Entry policy) : Prop :=
  Reservable entry.quantity 1 (policy.makerFee entry.market) ∧
    reservationAmount entry.quantity 1 entry.price (policy.makerFee entry.market) ≤ available.raw

/-- **A quoted entry is funded.** The reservation of the resting leg is a part of those that the
quote keeps within the available cash. -/
theorem quote_funded {index : policy.BasketIndex} {leg : Fin 3} {bid : Price} {quote : SizedBasket}
    (h : (sizeBuyBasket (self.hypothetical index leg bid) (policy.limits available)).quote =
      some quote) :
    Reservable quote.quantity 1 (policy.makerFee (policy.market index leg)) ∧
      reservationAmount quote.quantity 1 bid (policy.makerFee (policy.market index leg)) ≤
        available.raw := by
  obtain ⟨hlimits, hdepth, -, hoptimal⟩ := sizeBuyBasket_quote h
  have hcandidate := hoptimal.candidate
  have hleg : (self.hypothetical index leg bid) leg =
      ⟨[⟨bid, policy.cap⟩], policy.makerFee (policy.market index leg)⟩ := by
    simp [hypothetical]
  have hreservable : Reservable quote.quantity 1 (policy.makerFee (policy.market index leg)) := by
    have := (basketTask_valid hlimits hdepth).reservable leg hcandidate.dvd hcandidate.le_cap
    change Reservable quote.quantity 1 ((self.hypothetical index leg bid) leg).fees at this
    rwa [hleg] at this
  -- The resting leg is one level that covers the order, so its limit is the bid.
  have hbuilt := hcandidate.built leg
  obtain ⟨fills, -, -, hfills, -, hreservation, -, -⟩ := exists_of_buildOrder hbuilt
  have hcap : quote.quantity ≤ policy.cap.raw / 1 * 1 := by
    rw [Nat.div_one, Nat.mul_one]
    exact hcandidate.le_cap
  have hsingle : orderFills 1 [⟨bid, policy.cap⟩] quote.quantity = some [⟨quote.quantity, bid⟩] :=
    orderFills_cons_of_le hcandidate.pos hcap
  change orderFills 1 ((self.hypothetical index leg bid) leg).levels quote.quantity = some fills
    at hfills
  rw [hleg] at hfills
  obtain rfl := Option.some.inj (hsingle.symm.trans hfills)
  change buyReservation quote.quantity 1 bid ((self.hypothetical index leg bid) leg).fees =
    some (quote.legs leg).reservation at hreservation
  rw [hleg, buyReservation_eq hreservable] at hreservation
  have hreserve : (quote.legs leg).reservation ≤ quote.order.reserve :=
    Finset.single_le_sum (f := fun leg => (quote.legs leg).reservation)
      (fun _ _ => Nat.zero_le _) (Finset.mem_univ leg)
  refine ⟨hreservable, ?_⟩
  rw [Option.some.inj hreservation]
  exact hreserve.trans hcandidate.funded

theorem selectLeg_yields {index : policy.BasketIndex} {selection : Selection policy}
    (h : ∀ entry ∈ selection.selected, FundedBy available entry) (leg : Fin 3) :
    Yields Funded (fun next : Selection policy => ∀ entry ∈ next.selected, FundedBy available entry)
      (self.selectLeg time wall available index selection leg) := by
  unfold selectLeg
  cases self.restingPrice index leg with
  | none => exact h
  | some bid =>
    dsimp only
    split
    · exact h
    · split
      · exact invalid_yields (by decide)
      · cases hquote : (sizeBuyBasket (self.hypothetical index leg bid)
          (policy.limits available)).quote with
        | none => exact h
        | some quote =>
          dsimp only
          split
          · exact h
          · intro entry hentry
            obtain rfl := Option.some.inj hentry
            exact quote_funded hquote

theorem selectBasket_yields {selection : Selection policy}
    (h : ∀ entry ∈ selection.selected, FundedBy available entry) (index : policy.BasketIndex) :
    Yields Funded (fun next : Selection policy => ∀ entry ∈ next.selected, FundedBy available entry)
      (self.selectBasket time wall available selection index) := by
  unfold selectBasket
  dsimp only
  split
  · exact h
  · refine Yields.foldlM (I := fun _ (next : Selection policy) =>
      ∀ entry ∈ next.selected, FundedBy available entry) ?_
      fun _ leg _ state hstate => selectLeg_yields hstate leg
    split_ifs
    · exact h
    · exact h

/-- A new attempt that every scenario can pay for. -/
theorem signal_yields (h : self.Sound) (hentry : self.entry = none) (hhalted : self.halted = false)
    {entry : Entry policy} (hfunded : FundedBy available entry)
    (havailable : ∀ index, (available.raw : ℤ) ≤ (self.scenarios index).cash) :
    Yields Funded Sound (self.signal entry) := by
  have hrunning (index) : (self.scenarios index).halted = false := by
    by_contra hstopped
    have := h.halted index (by simpa using hstopped)
    simp [hhalted] at this
  refine emit_yields ⟨fun index => ?_, fun index hstopped => ?_, fun last hlast => ?_⟩
  · change Accounts (self.attempts + 1) (underHedged (self.trace ++ [_]) index) (some entry)
      (lastEntry (self.trace ++ [_])) (reset (self.scenarios index))
    rw [lastEntry_append, underHedged_append]
    have haccounts := h.accounts index
    rw [hentry] at haccounts
    have hcash := havailable index
    have hreserve := hfunded.2
    exact haccounts.reset (hrunning index) hfunded.1 (by omega)
  · exact absurd ((hrunning index).symm.trans hstopped) (by simp)
  · obtain rfl := Option.some.inj hlast
    change lastEntry (self.trace ++ [_]) = some entry
    rw [lastEntry_append]
    rfl

theorem select_yields (h : self.Sound) (hentry : self.entry = none) (hhalted : self.halted = false)
    (marketId : MarketId) : Yields Funded Sound (self.select marketId time wall) := by
  unfold select
  split_ifs
  · exact h
  · exact failed_yields
  · cases hcash : Cash.fromRaw self.available with
    | none => exact failed_yields
    | some available =>
      have hraw := Cash.fromRaw_eq_some_iff.mp hcash
      refine Yields.bind (Yields.foldlM (I := fun _ (next : Selection policy) =>
        ∀ entry ∈ next.selected, FundedBy available entry) (by simp)
        fun _ index _ state hstate => selectBasket_yields hstate index)
        fun selection _ hselection => ?_
      dsimp only
      cases hselected : selection.selected with
      | none => exact h.congr rfl rfl rfl rfl rfl
      | some entry =>
        dsimp only
        refine signal_yields ?_ ?_ ?_ (hselection entry hselected) fun index => ?_
        · exact h.congr rfl rfl rfl rfl rfl
        · exact hentry
        · exact hhalted
        · rw [hraw]
          exact self.available_le index

end Signals

/-! ### The calls of the observer -/

section Calls

variable {self : PassiveProbe policy} {time wall : ℤ} {frame : ReplayFrame} {state : MarketState}

/-- The observation is over for good. -/
theorem Sound.stop (h : self.Sound) :
    Sound { self.clear with continuityFailed := true, halted := true } :=
  ⟨h.accounts, fun _ _ => rfl, h.last⟩

theorem checkGap_yields (h : self.Sound) : Yields Funded Sound (self.checkGap time) := by
  unfold checkGap
  split
  · exact Yields.map ((censor_yields h).mono fun _ hnext => hnext.stop)
  · exact h

theorem checkConnection_yields (h : self.Sound) :
    Yields Funded Sound (self.checkConnection time state) := by
  unfold checkConnection
  split
  · exact Yields.map ((censor_yields h).mono fun _ hnext => hnext.congr rfl rfl rfl rfl rfl)
  · exact h

theorem checkDeadline_yields (h : self.Sound) : Yields Funded Sound (self.checkDeadline time) := by
  unfold checkDeadline
  cases self.deadline with
  | none => exact h
  | some deadline =>
    dsimp only
    split
    · exact Yields.map ((censor_yields h).mono fun _ hnext => hnext.congr rfl rfl rfl rfl rfl)
    · exact h

theorem before_yields (h : self.Sound) : Yields Funded Sound (self.before time state) := by
  unfold before
  split
  · exact invalid_yields (by decide)
  · refine Yields.bind (checkGap_yields h) fun first _ hfirst => ?_
    refine Yields.bind (checkConnection_yields hfirst) fun second _ hsecond => ?_
    refine Yields.bind (checkDeadline_yields hsecond) fun third _ hthird => ?_
    exact hthird.congr rfl rfl rfl rfl rfl

theorem bindWall_yields (h : self.Sound) : Yields Funded Sound (self.bindWall time wall) := by
  unfold bindWall
  refine Yields.map (Yields.mono (P := Sound) ?_ fun _ hnext => hnext.congr rfl rfl rfl rfl rfl)
  split
  · exact Yields.map ((censor_yields h).mono fun _ hnext => hnext.stop)
  · exact h

theorem bindDeadline_yields (h : self.Sound) :
    Yields Funded Sound (self.bindDeadline time wall) := by
  unfold bindDeadline
  dsimp only
  split
  · exact Yields.map ((censor_yields h).mono fun _ hnext => hnext.congr rfl rfl rfl rfl rfl)
  · split
    · exact invalid_yields (by decide)
    · exact h.congr rfl rfl rfl rfl rfl

theorem bindGeneration_yields (h : self.Sound) :
    Yields Funded Sound (self.bindGeneration time state) := by
  unfold bindGeneration
  split
  · exact Yields.map ((censor_yields h).mono fun _ hnext => hnext.congr rfl rfl rfl rfl rfl)
  · exact h

theorem observe_yields (h : self.Sound) : Yields Funded Sound (self.observe frame wall state) := by
  refine Yields.bind (advance_yields h) fun first _ hfirst => ?_
  have hbook : Yields Funded Sound (first.observeBook frame state) := by
    unfold observeBook
    cases knownMarket policy frame with
    | none => exact hfirst
    | some marketId => exact bookUpdate_yields hfirst frame marketId state
  refine Yields.bind hbook fun second _ hsecond => ?_
  have htrade : Yields Funded Sound (second.observeTrade frame wall) := by
    unfold observeTrade
    cases frame.trade with
    | none => exact hsecond
    | some trade => exact onTrade_yields hsecond trade wall
  refine Yields.bind htrade fun third _ hthird => ?_
  unfold observeSignal
  cases frame.marketId with
  | none => exact hthird
  | some marketId =>
    dsimp only
    split
    · case isTrue hready =>
        exact select_yields hthird (Option.isNone_iff_eq_none.mp hready.1) hready.2.1 marketId
    · exact hthird

theorem after_yields (h : self.Sound) : Yields Funded Sound (self.after frame state) := by
  unfold after
  cases frame.observedWallNs with
  | none => exact invalid_yields (by decide)
  | some wall =>
    dsimp only
    split
    · exact invalid_yields (by decide)
    · refine Yields.bind (bindWall_yields ?_) fun first _ hfirst => ?_
      · exact h.congr rfl rfl rfl rfl rfl
      refine Yields.bind (bindDeadline_yields hfirst) fun second _ hsecond => ?_
      refine Yields.bind (bindGeneration_yields hsecond) fun third _ hthird => ?_
      split
      · exact hthird
      · cases brokenMarket policy frame state with
        | none => exact observe_yields hthird
        | some marketId =>
          refine censor_yields ?_
          exact hthird.congr rfl rfl rfl rfl rfl

/-- **One call keeps the accounts.** -/
theorem step_yields (h : self.Sound) (call : Call) : Yields Funded Sound (self.step call) := by
  cases call with
  | observed call =>
    cases call with
    | before time state => exact before_yields h
    | after frame state => exact after_yields h
  | finish time =>
    exact Yields.map ((censor_yields h).mono fun _ hnext => hnext.congr rfl rfl rfl rfl rfl)
  | report =>
    change Yields Funded Sound self.report
    unfold report
    split
    · exact invalid_yields (by decide)
    · exact emit_yields (h.quiet ⟨rfl, fun _ => rfl⟩)

/-- The accounts of every run. -/
theorem run_yields (policy : ProbePolicy) (calls : List Call) :
    Yields Funded Sound (runExcept step (initial policy) calls) :=
  Yields.runExcept (I := fun _ => Sound) (sound_initial policy)
    fun _ call _ _ _ _ hstate => step_yields hstate call

end Calls

end PassiveProbe

/-! ### The ledger -/

open PassiveProbe

/-- **The ledger of a passive probe.** After any calls, and in every scenario: the cash is what the
policy gave less what was spent, and not negative; the order of the last attempt is not filled
beyond its quantity, and no leg is bought beyond the fill; the run did not end because an order
could not pay; every attempt ended once, completed, without a fill, censored or with an incomplete
basket, or is still open, where an incomplete basket occurs at most once and halts the scenario and
the probe; and a scenario that is not halted and has no open attempt reports as margin the payout
floor of its completed baskets less its spending. -/
theorem passive_ledger (policy : ProbePolicy) (calls : List Call) :
    Yields (fun error => error ≠ .replay "passive entry funding invariant" 0)
      (fun probe : PassiveProbe policy => ∀ index,
        let scenario := probe.scenarios index
        let report := scenario.report index
        (report.cashRemainingMicro = policy.initialCash - report.cashSpentMicro ∧
          0 ≤ report.cashRemainingMicro) ∧
        (∀ entry, (probe.entry = some entry ∨ lastEntry probe.trace = some entry) →
          scenario.filled ≤ entry.quantity) ∧
        (∀ leg, scenario.holdings leg ≤ scenario.filled) ∧
        (probe.attempts = report.completedBaskets + report.unfilledAttempts +
            report.censoredAttempts + underHedged probe.trace index +
            (if probe.entry.isSome ∧ scenario.done = false then 1 else 0) ∧
          underHedged probe.trace index ≤ 1 ∧
          (underHedged probe.trace index = 1 → scenario.halted = true ∧ probe.halted = true)) ∧
        (scenario.halted = false → ¬(probe.entry.isSome ∧ scenario.done = false) →
          report.conditionalMarginMicro =
            report.conditionalPayoutFloorMicro - report.cashSpentMicro))
      (runExcept step (initial policy) calls) := by
  refine Yields.mono (run_yields policy calls) fun probe hsound index => ?_
  have haccounts := hsound.accounts index
  have hopen : attemptOpen probe.entry (probe.scenarios index) = true ↔
      probe.entry.isSome ∧ (probe.scenarios index).done = false := by
    simp [attemptOpen]
  refine ⟨⟨haccounts.cash_eq, haccounts.cash_nonneg⟩, fun entry hentry => ?_,
    haccounts.holdings_le, ⟨?_, haccounts.underHedged_le, fun hunder => ?_⟩,
    fun hhalted hclosed => ?_⟩
  · refine haccounts.filled_le entry (hentry.elim (fun hcurrent => ?_) id)
    exact hsound.last entry hcurrent
  · have hattempts := haccounts.attempts_eq
    rwa [if_congr hopen rfl rfl] at hattempts
  · have hstopped := haccounts.underHedged_halted (by omega)
    exact ⟨hstopped, hsound.halted index hstopped⟩
  · have hmargin := haccounts.margin_eq hhalted
    rwa [if_neg (mt hopen.mp hclosed), Nat.cast_zero, add_zero] at hmargin

end EventMarket.Session
