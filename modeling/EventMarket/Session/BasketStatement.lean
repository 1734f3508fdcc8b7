import EventMarket.Session.BasketExecutionRun

/-!
# The statement of a scenario

The rows of a scenario tell, without its counters, what it holds and what it paid: a reader of the
trace adds up the fills of every attempt and sees how the attempt ends.

## Main definitions

* `Position`, `Statement`: what the rows tell.
* `statementOf`: reading the rows of a scenario.
* `Told`: the statement agrees with the scenario.

## Main results

* `toldInvariant`: the statement agrees with the scenario in every run.
-/

namespace EventMarket.Session

open Core Foundations Market

/-! ### Reading the rows -/

/-- An attempt as its fills tell it. -/
structure Position where
  basketId : ℕ := 0
  holdings : Fin 3 → ℤ := fun _ => 0
  paid : ℤ := 0
  got : ℤ := 0

/-- A position after a fill. -/
def Position.fill (position : Position) (leg : Fin 3) (sell : Bool) (filled : Fill) : Position :=
  if sell then
    { position with
      holdings := Function.update position.holdings leg (position.holdings leg - filled.quantity)
      got := position.got + filled.cash }
  else
    { position with
      holdings := Function.update position.holdings leg (position.holdings leg + filled.quantity)
      paid := position.paid + filled.cash }

/-- A position that holds nothing and has moved no cash. -/
def Position.Empty (position : Position) : Prop :=
  (∀ leg, position.holdings leg = 0) ∧ position.paid = 0 ∧ position.got = 0

instance (position : Position) : Decidable position.Empty := by
  unfold Position.Empty
  infer_instance

/-- The current attempt, the completed baskets, and the attempts that ended without one. -/
structure Statement where
  current : Position := {}
  held : List Position := []
  unwound : ℕ := 0
  empties : ℕ := 0

/-- Read one row. -/
def Statement.read (statement : Statement) : ExecutionRow → Statement
  | .entry _ _ _ basketId _ _ => { statement with current := { basketId } }
  | .fill _ _ _ leg sell filled =>
    { statement with current := statement.current.fill leg sell filled }
  | .held _ _ _ _ _ _ _ => { statement with held := statement.held ++ [statement.current] }
  | .exitComplete _ _ _ _ _ residual =>
    if residual then statement
    else if statement.current.Empty then { statement with empties := statement.empties + 1 }
    else { statement with unwound := statement.unwound + 1 }
  | _ => statement

/-- Read the rows of a scenario. -/
def statementOf (index : ℕ) (trace : List ExecutionRow) : Statement :=
  (trace.filter fun row => decide (row.scenario = some index)).foldl Statement.read {}

theorem statementOf_append {index : ℕ} {trace rows : List ExecutionRow}
    (hrows : RowsOf index rows) :
    statementOf index (trace ++ rows) = rows.foldl Statement.read (statementOf index trace) := by
  have hall : rows.filter (fun row => decide (row.scenario = some index)) = rows :=
    List.filter_eq_self.mpr fun row hrow => by simpa using hrows row hrow
  rw [statementOf, List.filter_append, List.foldl_append, hall]
  rfl

theorem statementOf_append_others {index : ℕ} {trace rows : List ExecutionRow}
    (hrows : ∀ row ∈ rows, row.scenario ≠ some index) :
    statementOf index (trace ++ rows) = statementOf index trace := by
  have hnone : rows.filter (fun row => decide (row.scenario = some index)) = [] :=
    List.filter_eq_nil_iff.mpr fun row hrow => by simpa using hrows row hrow
  rw [statementOf, List.filter_append, hnone, List.append_nil]
  rfl

/-! ### The statement and the scenario -/

/-- The worth of a completed basket at the floor. -/
def Position.floor (position : Position) : ℤ := position.holdings 0 * 20000

/-- A basket of the screen with all legs in the same quantity. -/
def Position.Complete (policy : BasketExecutionPolicy) (position : Position) : Prop :=
  (∃ basket ∈ policy.basket.screen.baskets, basket.id = position.basketId) ∧
    0 ≤ position.holdings 0 ∧ ∀ leg, position.holdings leg = position.holdings 0

/-- An open attempt as a position. -/
def Attempt.position (attempt : Attempt) : Position :=
  { basketId := attempt.basket.id, holdings := attempt.holdings, paid := attempt.spent,
    got := attempt.received }

/-- The completed baskets of a statement are those of the scenario. -/
structure Booked (policy : BasketExecutionPolicy) (scenario : Scenario) (statement : Statement) :
    Prop where
  complete : ∀ position ∈ statement.held, position.Complete policy
  completed_eq : scenario.completed = statement.held.length
  floor_eq : scenario.floor = (statement.held.map Position.floor).sum
  cost_eq : scenario.completeCost = (statement.held.map Position.paid).sum

/-- **The statement agrees with the scenario**: also about the open attempt. -/
structure Told (policy : BasketExecutionPolicy) (scenario : Scenario) (statement : Statement) : Prop
    extends Booked policy scenario statement where
  current : ∀ attempt ∈ scenario.attempt, statement.current = attempt.position

section Outcomes

variable {policy : BasketExecutionPolicy} {books : MarketId → CachedBook} {index : ℕ} {time : ℤ}
  {scenario next : Scenario} {attempt : Attempt} {rows : List ExecutionRow} {statement : Statement}

theorem Lane.ExitOutcome.told {start : ℕ}
    (h : Lane.ExitOutcome index time scenario attempt start next rows)
    (hbooked : Booked policy scenario statement) (hcurrent : statement.current = attempt.position) :
    Told policy next (rows.foldl Statement.read statement) := by
  obtain ⟨hcomplete, hcompleted, hfloor, hcost⟩ := hbooked
  cases h with
  | sells leg hleg =>
    refine ⟨⟨hcomplete, hcompleted, hfloor, hcost⟩, ?_⟩
    rintro _ ⟨⟩
    exact hcurrent
  | residual hnone hheld =>
    refine ⟨⟨hcomplete, hcompleted, hfloor, hcost⟩, ?_⟩
    rintro _ ⟨⟩
    exact hcurrent
  | exits hnone hspent =>
    rw [List.foldl_cons, List.foldl_nil, Statement.read, if_neg Bool.false_ne_true]
    split_ifs
    · exact ⟨⟨hcomplete, hcompleted, hfloor, hcost⟩, fun _ h => nomatch h⟩
    · exact ⟨⟨hcomplete, hcompleted, hfloor, hcost⟩, fun _ h => nomatch h⟩
  | empties hnone hspent =>
    rw [List.foldl_cons, List.foldl_nil, Statement.read, if_neg Bool.false_ne_true]
    split_ifs
    · exact ⟨⟨hcomplete, hcompleted, hfloor, hcost⟩, fun _ h => nomatch h⟩
    · exact ⟨⟨hcomplete, hcompleted, hfloor, hcost⟩, fun _ h => nomatch h⟩

theorem Lane.Leaves.told {reason : String}
    (h : Lane.Leaves index time scenario attempt reason next rows)
    (hbooked : Booked policy scenario statement) (hcurrent : statement.current = attempt.position) :
    Told policy next (rows.foldl Statement.read statement) := by
  obtain ⟨hexit⟩ := h
  obtain ⟨hcomplete, hcompleted, hfloor, hcost⟩ := hbooked
  exact hexit.told ⟨hcomplete, hcompleted, hfloor, hcost⟩ hcurrent

theorem Lane.BuyOutcome.told (h : Lane.BuyOutcome policy index time scenario attempt next rows)
    (hbooked : Booked policy scenario statement) (hcurrent : statement.current = attempt.position) :
    Told policy next (rows.foldl Statement.read statement) := by
  obtain ⟨hcomplete, hcompleted, hfloor, hcost⟩ := hbooked
  cases h with
  | leaves reason aborts hleaves =>
    exact hleaves.told ⟨hcomplete, hcompleted, hfloor, hcost⟩ hcurrent
  | submits limit reserve projected hreserve hle =>
    refine ⟨⟨hcomplete, hcompleted, hfloor, hcost⟩, ?_⟩
    rintro _ ⟨⟩
    exact hcurrent

/-- All legs are held when the last one is. -/
theorem Attempt.Sound.holds_all {reserved : ℤ} (h : attempt.Sound policy reserved)
    (hstage : attempt.stage = .buyResponse)
    (hfull : attempt.holdings attempt.leg = attempt.quantity) (hlast : attempt.leg = 2)
    (leg : Fin 3) : attempt.holdings leg = attempt.quantity := by
  rcases eq_or_ne leg attempt.leg with rfl | hne
  · exact hfull
  · refine (h.buying (.inr hstage)).earlier leg ?_
    rw [hlast] at hne ⊢
    omega

theorem Lane.EventOutcome.told
    (h : Lane.EventOutcome policy books index scenario attempt next rows)
    (hsound : scenario.Sound policy) (hattempt : scenario.attempt = some attempt)
    (htold : Told policy scenario statement) :
    Told policy next (rows.foldl Statement.read statement) := by
  have hcurrent := htold.current attempt hattempt
  obtain ⟨⟨hcomplete, hcompleted, hfloor, hcost⟩, -⟩ := htold
  cases h with
  | buys filled hstage hfill =>
    refine ⟨⟨hcomplete, hcompleted, hfloor, hcost⟩, ?_⟩
    rintro _ ⟨⟩
    simp [Statement.read, hcurrent, Position.fill, Attempt.position, Lane.boughtAttempt]
  | sells filled hstage hfill =>
    refine ⟨⟨hcomplete, hcompleted, hfloor, hcost⟩, ?_⟩
    rintro _ ⟨⟩
    simp [Statement.read, hcurrent, Position.fill, Attempt.position, Lane.soldAttempt]
  | leaves hstage hshort hleaves =>
    exact hleaves.told ⟨hcomplete, hcompleted, hfloor, hcost⟩ hcurrent
  | goesOn leg hstage hfull hleg hbuys =>
    exact hbuys.told ⟨hcomplete, hcompleted, hfloor, hcost⟩ hcurrent
  | completes breaches hstage hfull hlast =>
    have hattemptSound := hsound.attempt attempt hattempt
    have hall := hattemptSound.holds_all hstage hfull hlast
    have hposition : attempt.position.Complete policy := by
      refine ⟨⟨attempt.basket, hattemptSound.basket_mem, rfl⟩, ?_, fun leg => ?_⟩
      · exact (Int.natCast_nonneg _).trans_eq (hall 0).symm
      · exact (hall leg).trans (hall 0).symm
    have hread : [ExecutionRow.held index scenario.attempts attempt.due attempt.quantity
        attempt.spent (attempt.quantity * 20000) (attempt.quantity * 20000 - attempt.spent)].foldl
        Statement.read statement =
          { statement with held := statement.held ++ [attempt.position] } := by
      rw [← hcurrent]
      rfl
    rw [hread]
    refine ⟨⟨?_, ?_, ?_, ?_⟩, fun _ h => by cases h⟩
    · exact List.forall_mem_append.mpr ⟨hcomplete, by simpa using hposition⟩
    · simp [hcompleted]
    · have hfloorOne : attempt.position.floor = attempt.quantity * 20000 := by
        rw [← hall 0]
        rfl
      simp [hfloor, hfloorOne]
    · simp [hcost, Attempt.position]
  | exits hstage hexit =>
    exact hexit.told ⟨hcomplete, hcompleted, hfloor, hcost⟩ hcurrent

theorem Lane.DecideOutcome.told
    (h : Lane.DecideOutcome policy index time scenario next rows)
    (htold : Told policy scenario statement) :
    Told policy next (rows.foldl Statement.read statement) := by
  cases h with
  | stays busy rejected => exact ⟨⟨htold.complete, htold.completed_eq, htold.floor_eq,
    htold.cost_eq⟩,
      htold.current⟩
  | enters rejected quantity quoteMargin basket hbasket hidle hactive hbuys =>
    exact hbuys.told ⟨htold.complete, htold.completed_eq, htold.floor_eq, htold.cost_eq⟩ rfl

theorem Lane.CensorOutcome.told {reason : String}
    (h : Lane.CensorOutcome index time reason scenario next rows)
    (htold : Told policy scenario statement) :
    Told policy next (rows.foldl Statement.read statement) := by
  cases h with
  | stays => exact htold
  | censors attempt hattempt hactive =>
    exact ⟨⟨htold.complete, htold.completed_eq, htold.floor_eq, htold.cost_eq⟩, htold.current⟩

end Outcomes

/-- **The statement agrees with the scenario** in every run. -/
theorem toldInvariant (policy : BasketExecutionPolicy) (calls : List ObserverCall) :
    RunInvariant policy calls fun _ index scenario trace =>
      Told policy scenario (statementOf index trace) where
  start index delay := ⟨⟨by simp [statementOf, ExecutionRow.scenario], by
    simp [statementOf, ExecutionRow.scenario], by simp [statementOf, ExecutionRow.scenario], by
    simp [statementOf, ExecutionRow.scenario]⟩, fun _ h => nomatch h⟩
  stable past index scenario trace rows hrows h := by
    dsimp only
    rwa [statementOf_append_others hrows]
  grow _ _ _ _ _ _ h := h
  event past books lane attempt next rows _ hsound hattempt hevent h := by
    rw [statementOf_append hevent.rowsOf]
    exact hevent.told hsound hattempt h
  decision past index time scenario next trace rows _ hdecide h := by
    rw [statementOf_append hdecide.rowsOf]
    exact hdecide.told h
  censor past index time reason scenario next trace rows _ hcensor h := by
    rw [statementOf_append hcensor.rowsOf]
    exact hcensor.told h

end EventMarket.Session
