import EventMarket.Session.BasketStatement

/-!
# The outcomes of the attempts

An attempt ends as completed, exited or empty. What was spent and not received again is the cost
of the completed baskets less the result of the exited attempts, unless an attempt that had paid
nothing for its legs sold them for cash: such an attempt is counted as empty, and its credit is not
part of any result.

## Main definitions

* `Scenario.FreeSale`: the sale that is not accounted for.
* `Reconciled`: the outcomes account for the cash and for the attempts.

## Main results

* `execution_reconciles`: without a free sale, the outcomes are reconciled in every run.
* `free_sale_unreconciled`: a run with a free sale where they are not.
-/

namespace EventMarket.Session

open Core Foundations Market Book

/-- **A free sale**: an attempt that paid nothing has sold all its legs, and received cash. -/
def Scenario.FreeSale (scenario : Scenario) : Prop :=
  ∃ attempt ∈ scenario.attempt, attempt.stage = .sellResponse ∧
    (∀ leg, attempt.holdings leg = 0) ∧ attempt.spent = 0 ∧ attempt.received ≠ 0

/-- The outcomes of a scenario, with what an open attempt has spent and received so far. -/
structure BalancedWith (scenario : Scenario) (openAttempts : ℕ) (spent received : ℤ) : Prop where
  net_eq : scenario.spent - scenario.received =
    scenario.completeCost - scenario.unwindNet + (spent - received)
  attempts_eq : scenario.attempts =
    scenario.completed + scenario.exited + scenario.empty + openAttempts

/-- The outcomes of a scenario in any state. -/
def Scenario.Balanced (scenario : Scenario) : Prop :=
  match scenario.attempt with
  | none => BalancedWith scenario 0 0 0
  | some attempt => BalancedWith scenario 1 attempt.spent attempt.received

/-- The endings that the rows tell are those that the scenario counts. -/
structure Scenario.Counted (scenario : Scenario) (statement : Statement) : Prop where
  exited_eq : scenario.exited = statement.unwound
  empty_eq : scenario.empty = statement.empties

/-- The books of a scenario and its rows. -/
structure Settles (scenario : Scenario) (statement : Statement) : Prop where
  balanced : scenario.Balanced
  counted : scenario.Counted statement

section Outcomes

variable {policy : BasketExecutionPolicy} {books : MarketId → CachedBook} {index : ℕ} {time : ℤ}
  {scenario next : Scenario} {attempt : Attempt} {rows : List ExecutionRow} {statement : Statement}

/-- Leaving settles, unless it ends a free sale. -/
theorem Lane.ExitOutcome.settles {start : ℕ}
    (h : Lane.ExitOutcome index time scenario attempt start next rows)
    (hbalanced : BalancedWith scenario 1 attempt.spent attempt.received)
    (hcounted : scenario.Counted statement) (hcurrent : statement.current = attempt.position)
    (hfree : (∀ leg, attempt.holdings leg = 0) → attempt.spent = 0 → attempt.received = 0) :
    Settles next (rows.foldl Statement.read statement) := by
  obtain ⟨hnet, hattempts⟩ := hbalanced
  obtain ⟨hexited, hempty⟩ := hcounted
  cases h with
  | sells leg hleg => exact ⟨⟨hnet, hattempts⟩, hexited, hempty⟩
  | residual hnone hheld => exact ⟨⟨hnet, hattempts⟩, hexited, hempty⟩
  | exits hnone hspent =>
    have hmoved : ¬statement.current.Empty := by
      rw [hcurrent]
      exact fun hposition => hspent hposition.2.1
    rw [List.foldl_cons, List.foldl_nil, Statement.read, if_neg Bool.false_ne_true, if_neg hmoved]
    refine ⟨⟨?_, ?_⟩, ?_, hempty⟩
    · dsimp only
      omega
    · dsimp only
      omega
    · exact congrArg (· + 1) hexited
  | empties hnone hspent =>
    have hreceived := hfree hnone hspent
    have hnothing : statement.current.Empty := by
      rw [hcurrent]
      exact ⟨hnone, hspent, hreceived⟩
    rw [List.foldl_cons, List.foldl_nil, Statement.read, if_neg Bool.false_ne_true, if_pos hnothing]
    refine ⟨⟨?_, ?_⟩, hexited, ?_⟩
    · dsimp only
      omega
    · dsimp only
      omega
    · exact congrArg (· + 1) hempty

theorem Lane.Leaves.settles {reason : String}
    (h : Lane.Leaves index time scenario attempt reason next rows)
    (hbalanced : BalancedWith scenario 1 attempt.spent attempt.received)
    (hcounted : scenario.Counted statement) (hcurrent : statement.current = attempt.position)
    (hreceived : attempt.received = 0) : Settles next (rows.foldl Statement.read statement) := by
  obtain ⟨hexit⟩ := h
  exact hexit.settles ⟨hbalanced.net_eq, hbalanced.attempts_eq⟩
    ⟨hcounted.exited_eq, hcounted.empty_eq⟩ hcurrent fun _ _ => hreceived

theorem Lane.BuyOutcome.settles
    (h : Lane.BuyOutcome policy index time scenario attempt next rows)
    (hbalanced : BalancedWith scenario 1 attempt.spent attempt.received)
    (hcounted : scenario.Counted statement) (hcurrent : statement.current = attempt.position)
    (hreceived : attempt.received = 0) : Settles next (rows.foldl Statement.read statement) := by
  cases h with
  | leaves reason aborts hleaves =>
    exact hleaves.settles ⟨hbalanced.net_eq, hbalanced.attempts_eq⟩
      ⟨hcounted.exited_eq, hcounted.empty_eq⟩ hcurrent hreceived
  | submits limit reserve projected hreserve hle =>
    exact ⟨⟨hbalanced.net_eq, hbalanced.attempts_eq⟩, hcounted.exited_eq, hcounted.empty_eq⟩

theorem Lane.EventOutcome.settles
    (h : Lane.EventOutcome policy books index scenario attempt next rows)
    (hsound : scenario.Sound policy) (hattempt : scenario.attempt = some attempt)
    (hcurrent : statement.current = attempt.position) (hfree : ¬scenario.FreeSale)
    (hsettles : Settles scenario statement) :
    Settles next (rows.foldl Statement.read statement) := by
  obtain ⟨hbalanced, hcounted⟩ := hsettles
  rw [Scenario.Balanced, hattempt] at hbalanced
  have hbuying : attempt.stage = .buyResponse → attempt.received = 0 := fun hstage =>
    ((hsound.attempt attempt hattempt).buying (.inr hstage)).received_eq
  cases h with
  | buys filled hstage hfill =>
    refine ⟨⟨?_, hbalanced.attempts_eq⟩, hcounted.exited_eq, hcounted.empty_eq⟩
    have hnet := hbalanced.net_eq
    dsimp only [Lane.boughtAttempt]
    omega
  | sells filled hstage hfill =>
    refine ⟨⟨?_, hbalanced.attempts_eq⟩, hcounted.exited_eq, hcounted.empty_eq⟩
    have hnet := hbalanced.net_eq
    dsimp only [Lane.soldAttempt]
    omega
  | leaves hstage hshort hleaves =>
    exact hleaves.settles ⟨hbalanced.net_eq, hbalanced.attempts_eq⟩
      ⟨hcounted.exited_eq, hcounted.empty_eq⟩ hcurrent (hbuying hstage)
  | goesOn leg hstage hfull hleg hbuys =>
    exact hbuys.settles ⟨hbalanced.net_eq, hbalanced.attempts_eq⟩
      ⟨hcounted.exited_eq, hcounted.empty_eq⟩ hcurrent (hbuying hstage)
  | completes breaches hstage hfull hlast =>
    have hreceived := hbuying hstage
    have hnet := hbalanced.net_eq
    have hattempts := hbalanced.attempts_eq
    refine ⟨⟨?_, ?_⟩, hcounted.exited_eq, hcounted.empty_eq⟩
    · dsimp only
      omega
    · dsimp only
      omega
  | exits hstage hexit =>
    refine hexit.settles hbalanced hcounted hcurrent fun hnone hspent => ?_
    by_contra hreceived
    exact hfree ⟨attempt, hattempt, hstage, hnone, hspent, hreceived⟩

theorem Lane.DecideOutcome.settles
    (h : Lane.DecideOutcome policy index time scenario next rows)
    (hsettles : Settles scenario statement) :
    Settles next (rows.foldl Statement.read statement) := by
  obtain ⟨hbalanced, hcounted⟩ := hsettles
  cases h with
  | stays busy rejected =>
    refine ⟨?_, hcounted.exited_eq, hcounted.empty_eq⟩
    unfold Scenario.Balanced at hbalanced ⊢
    split at hbalanced
    · rename_i hidle
      simp only [hidle]
      exact ⟨hbalanced.net_eq, hbalanced.attempts_eq⟩
    · rename_i attempt hattempt
      simp only [hattempt]
      exact ⟨hbalanced.net_eq, hbalanced.attempts_eq⟩
  | enters rejected quantity quoteMargin basket hbasket hidle hactive hbuys =>
    rw [Scenario.Balanced, hidle] at hbalanced
    refine hbuys.settles ⟨hbalanced.net_eq, ?_⟩ ⟨hcounted.exited_eq, hcounted.empty_eq⟩ rfl rfl
    exact congrArg (· + 1) hbalanced.attempts_eq

theorem Lane.CensorOutcome.settles {reason : String}
    (h : Lane.CensorOutcome index time reason scenario next rows)
    (hsettles : Settles scenario statement) :
    Settles next (rows.foldl Statement.read statement) := by
  obtain ⟨hbalanced, hcounted⟩ := hsettles
  cases h with
  | stays => exact ⟨hbalanced, hcounted⟩
  | censors attempt hattempt hactive =>
    rw [Scenario.Balanced, hattempt] at hbalanced
    refine ⟨?_, hcounted.exited_eq, hcounted.empty_eq⟩
    simp only [Scenario.Balanced, hattempt]
    exact ⟨hbalanced.net_eq, hbalanced.attempts_eq⟩

end Outcomes

/-! ### Whole runs -/

/-- **Reconciled outcomes.** When nothing is open, the cash spent and not received again is the cost
of the completed baskets less the result of the exited attempts, and the net in the report is the
sum of the margins of the completed baskets and that result. Every attempt is counted once, and as
empty exactly when it ended with nothing held and no cash moved. -/
structure Reconciled (policy : BasketExecutionPolicy) (scenario : Scenario)
    (statement : Statement) : Prop where
  net_eq : scenario.attempt = none →
    scenario.spent - scenario.received = scenario.completeCost - scenario.unwindNet
  conditional_eq : ∀ net ∈ scenario.conditionalNet policy, net =
    (statement.held.map fun position => position.floor - position.paid).sum + scenario.unwindNet
  attempts_eq : scenario.attempts = scenario.completed + scenario.exited + scenario.empty +
    if scenario.attempt.isSome then 1 else 0
  empty_eq : scenario.empty = statement.empties

theorem sum_margins (positions : List Position) :
    (positions.map fun position => position.floor - position.paid).sum =
      (positions.map Position.floor).sum - (positions.map Position.paid).sum := by
  induction positions with
  | nil => rfl
  | cons position positions ih =>
    simp only [List.map_cons, List.sum_cons, ih]
    omega

theorem Settles.reconciled {policy : BasketExecutionPolicy} {scenario : Scenario}
    {statement : Statement} (hfunded : scenario.Funded policy)
      (htold : Told policy scenario statement)
    (hsettles : Settles scenario statement) : Reconciled policy scenario statement := by
  have hbalanced := hsettles.balanced
  unfold Scenario.Balanced at hbalanced
  have hcash := hfunded.cash_eq
  refine ⟨fun hidle => ?_, fun net hnet => ?_, ?_, hsettles.counted.empty_eq⟩
  · rw [hidle] at hbalanced
    have hnet := hbalanced.net_eq
    omega
  · cases hattempt : scenario.attempt with
    | some attempt => simp [Scenario.conditionalNet, hattempt] at hnet
    | none =>
      rw [hattempt] at hbalanced
      have hspent := hbalanced.net_eq
      simp only [Scenario.conditionalNet, hattempt, Option.any_none, Option.isNone_none,
        Bool.not_false, Bool.and_self, if_true, Option.mem_some_iff] at hnet
      rw [sum_margins, ← htold.floor_eq, ← htold.cost_eq]
      omega
  · cases hattempt : scenario.attempt with
    | none =>
      rw [hattempt] at hbalanced
      exact hbalanced.attempts_eq
    | some attempt =>
      rw [hattempt] at hbalanced
      exact hbalanced.attempts_eq

end EventMarket.Session
