import EventMarket.Core.BasketSizingOptimal
import EventMarket.Foundations.Yields
import EventMarket.Session.PassiveProbe

/-!
# The ledger of a passive probe

Every scenario of a probe has its own cash. Whatever the trades fill and whatever the hedges cost,
the cash is what the policy gave less what was spent, an order never receives more than its
quantity and can always pay for its fills, every attempt ends once in every scenario, and a
scenario that is not halted accounts for all of its spending.

## Main definitions

* `Resting`: the fills of an order that is still in the queue.
* `Accounts`: the accounts of one scenario.

## Main results

* `Resting.charge`: an order in the queue can pay for its next fill.
* `Accounts.fill`, `Accounts.hedge`, `Accounts.complete`, `Accounts.censor`: what the accounts
  survive.
-/

namespace EventMarket.Session

open Core Foundations Market PassiveProbe

/-! ### The order in the queue -/

section Resting

variable {fee : FeePolicy} {price : Price} {quantity filled debit : ℕ} {cash : ℤ}
  {accumulator : FeeAccumulator}

/-- An order was filled piece by piece at its price. Its reservation is covered by what it has
paid and the cash that is left. -/
structure Resting (fee : FeePolicy) (price : Price) (quantity filled debit : ℕ) (cash : ℤ)
    (accumulator : FeeAccumulator) : Prop where
  reservable : Reservable quantity 1 fee
  reserved : (reservationAmount quantity 1 price fee : ℤ) ≤ cash + debit
  charged : ∃ fills charges, chargeBuyFills fee fills {} = some (charges, accumulator) ∧
    (∀ fill ∈ fills, fill.price = price ∧ 0 < fill.quantity) ∧
    totalQuantity fills = filled ∧ totalDebit charges = debit

theorem Resting.start (hfee : Reservable quantity 1 fee)
    (hcash : (reservationAmount quantity 1 price fee : ℤ) ≤ cash) :
    Resting fee price quantity 0 0 cash {} where
  reservable := hfee
  reserved := by simpa using hcash
  charged := ⟨[], [], rfl, by simp, rfl, rfl⟩

/-- Without a fill nothing is paid. -/
theorem Resting.debit_eq_zero (h : Resting fee price quantity 0 debit cash accumulator) :
    debit = 0 := by
  obtain ⟨fills, charges, hcharges, hfills, htotal, rfl⟩ := h.charged
  cases fills with
  | nil =>
    obtain ⟨rfl, -⟩ := Prod.mk.inj (Option.some.inj hcharges)
    rfl
  | cons fill fills =>
    have := (hfills fill List.mem_cons_self).2
    rw [totalQuantity_cons] at htotal
    omega

/-- **The next fill is funded.** An order that is not filled beyond its quantity can be charged for
its next fill, and the cash covers the charge. -/
theorem Resting.charge (h : Resting fee price quantity filled debit cash accumulator) {more : ℕ}
    (hpos : 0 < more) (hle : filled + more ≤ quantity) :
    ∃ charge left, chargeBuyFill more price fee accumulator = some (charge, left) ∧
      (charge.debit : ℤ) ≤ cash ∧
      Resting fee price quantity (filled + more) (debit + charge.debit) (cash - charge.debit)
        left := by
  obtain ⟨fills, charges, hcharges, hfills, hfilled, hdebit⟩ := h.charged
  have hall : ∀ fill ∈ fills ++ [⟨more, price⟩], fill.price = price ∧ 0 < fill.quantity := by
    intro fill hfill
    rcases List.mem_append.mp hfill with hfill | hfill
    · exact hfills fill hfill
    · obtain rfl := List.mem_singleton.mp hfill
      exact ⟨rfl, hpos⟩
  have hadmissible : Admissible quantity 1 price (fills ++ [⟨more, price⟩]) :=
    { grid := fun fill hfill => ⟨(hall fill hfill).2, one_dvd _⟩
      price_le := fun fill hfill => by rw [(hall fill hfill).1]
      total_le := by simpa [hfilled] using hle }
  obtain ⟨⟨all, left⟩, hsome⟩ := Option.isSome_iff_exists.mp
    (chargeBuyFills_isSome_of_admissible h.reservable hadmissible)
  have hbound := sum_debit_le h.reservable hadmissible hsome
  -- The charges of all fills are those so far and the one of the next fill.
  rw [chargeBuyFills_append, hcharges, Option.bind_some] at hsome
  obtain ⟨⟨rest, last⟩, hrest, hsplit⟩ := Option.map_eq_some_iff.mp hsome
  obtain ⟨charge, middle, others, rfl, hcharge, hnil⟩ := chargeBuyFills_cons_eq_some hrest
  obtain ⟨rfl, rfl⟩ := Prod.mk.inj (Option.some.inj hnil)
  obtain ⟨rfl, rfl⟩ := Prod.mk.inj hsplit
  rw [totalDebit_append, totalDebit_cons, totalDebit_nil, hdebit] at hbound
  have hreserved := h.reserved
  refine ⟨charge, middle, hcharge, by omega, h.reservable, by push_cast; omega,
    fills ++ [⟨more, price⟩], charges ++ [charge], ?_, hall, by simp [hfilled], by simp [hdebit]⟩
  rw [chargeBuyFills_append, hcharges, Option.bind_some]
  dsimp only
  rw [hrest]
  rfl

end Resting

/-! ### The accounts of a scenario -/

section Scenario

variable {policy : ProbePolicy}

/-- Whether the attempt of an entry goes on in a scenario. -/
def attemptOpen (entry : Option (Entry policy)) (scenario : ProbeScenario) : Bool :=
  entry.isSome && !scenario.done

/-- Cash, inventory and margins are the same. -/
structure SameMoney (scenario next : ProbeScenario) : Prop where
  cash : next.cash = scenario.cash
  spent : next.spent = scenario.spent
  filled : next.filled = scenario.filled
  holdings : next.holdings = scenario.holdings
  floor : next.floor = scenario.floor
  margin : next.conditionalMargin = scenario.conditionalMargin

/-- A scenario in which the attempt of an entry goes on. -/
structure Working (entry : Entry policy) (scenario : ProbeScenario) : Prop where
  debit_eq : scenario.filled = 0 → scenario.debit = 0
  waiting : scenario.queue = none → scenario.filled = 0
  closed : scenario.closed = true → scenario.filled ≠ 0
  resting : scenario.closed = false → Resting (policy.makerFee entry.market) entry.price
    entry.quantity scenario.filled scenario.debit scenario.cash scenario.accumulator

/-- **The accounts of a scenario**, after some attempts of which some ended with an incomplete
basket. The order is the last one, whether it is open or not. -/
structure Accounts (attempts underHedged : ℕ) (entry order : Option (Entry policy))
    (scenario : ProbeScenario) : Prop where
  cash_eq : scenario.cash = policy.initialCash - scenario.spent
  cash_nonneg : 0 ≤ scenario.cash
  filled_le : ∀ last ∈ order, scenario.filled ≤ last.quantity
  holdings_le : ∀ leg, scenario.holdings leg ≤ scenario.filled
  attempts_eq : attempts = scenario.completed + scenario.empty + scenario.censored + underHedged +
    if attemptOpen entry scenario then 1 else 0
  underHedged_le : underHedged ≤ 1
  underHedged_halted : 0 < underHedged → scenario.halted = true
  halted_done : scenario.halted = true → attemptOpen entry scenario = false
  margin_eq : scenario.halted = false → scenario.conditionalMargin =
    scenario.floor - scenario.spent + if attemptOpen entry scenario then scenario.debit else 0
  working : ∀ current ∈ entry, scenario.done = false → Working current scenario

namespace Accounts

variable {attempts underHedged : ℕ} {entry : Entry policy} {order : Option (Entry policy)}
  {scenario : ProbeScenario}

theorem initial (index : policy.ScenarioIndex) :
    Accounts 0 0 (none : Option (Entry policy)) none
      ((PassiveProbe.initial policy).scenarios index) where
  cash_eq := by simp [PassiveProbe.initial]
  cash_nonneg := by simp [PassiveProbe.initial]
  filled_le := by simp
  holdings_le := by simp [PassiveProbe.initial]
  attempts_eq := by simp [PassiveProbe.initial, attemptOpen]
  underHedged_le := Nat.zero_le _
  underHedged_halted := by simp
  halted_done := by simp [attemptOpen]
  margin_eq := by simp [PassiveProbe.initial, attemptOpen]
  working := by simp

/-- A scenario that goes on is not halted. -/
theorem not_halted (h : Accounts attempts underHedged (some entry) order scenario)
    (hdone : scenario.done = false) : scenario.halted = false := by
  by_contra hhalted
  have := h.halted_done (by simpa using hhalted)
  simp [attemptOpen, hdone] at this

/-- A scenario that goes on has ended all earlier attempts completely. -/
theorem of_open (h : Accounts attempts underHedged (some entry) order scenario)
    (hdone : scenario.done = false) : underHedged = 0 ∧
      attempts = scenario.completed + scenario.empty + scenario.censored + 1 ∧
      scenario.conditionalMargin = scenario.floor - scenario.spent + scenario.debit := by
  have hhalted := h.not_halted hdone
  have hunder : underHedged = 0 := by
    by_contra hne
    have := h.underHedged_halted (by omega)
    simp [hhalted] at this
  have hattempts := h.attempts_eq
  have hmargin := h.margin_eq hhalted
  simp only [attemptOpen, Option.isSome_some, hdone, Bool.not_false, Bool.and_true, if_true]
    at hattempts hmargin
  exact ⟨hunder, by omega, hmargin⟩

/-- The queue of a scenario does not matter to its accounts. -/
theorem setQueue (h : Accounts attempts underHedged (some entry) order scenario)
    {queue : Option PassiveQueue} (hqueue : queue = none → scenario.queue = none) :
    Accounts attempts underHedged (some entry) order { scenario with queue } :=
  { h with
    working := fun current hcurrent hdone =>
      { h.working current hcurrent hdone with
        waiting := fun hnone => (h.working current hcurrent hdone).waiting (hqueue hnone) } }

/-- The attempt ends without a fill. -/
theorem endUnfilled (h : Accounts attempts underHedged (some entry) order scenario)
    (hdone : scenario.done = false) (hfilled : scenario.filled = 0) {next : ProbeScenario}
    (hsame : SameMoney scenario next) (hend : next.done = true)
    (hnext : next.completed + next.empty + next.censored =
      scenario.completed + scenario.empty + scenario.censored + 1)
    (current : Option (Entry policy)) : Accounts attempts underHedged current order next := by
  obtain ⟨hunder, hattempts, hpending⟩ := h.of_open hdone
  have hdebit := (h.working entry rfl hdone).debit_eq hfilled
  have hopen : attemptOpen current next = false := by simp [attemptOpen, hend]
  exact
    { cash_eq := by rw [hsame.cash, hsame.spent, h.cash_eq]
      cash_nonneg := by rw [hsame.cash]; exact h.cash_nonneg
      filled_le := by rw [hsame.filled]; exact h.filled_le
      holdings_le := by rw [hsame.holdings, hsame.filled]; exact h.holdings_le
      attempts_eq := by rw [hopen, if_neg Bool.false_ne_true]; omega
      underHedged_le := h.underHedged_le
      underHedged_halted := by omega
      halted_done := fun _ => hopen
      margin_eq := fun _ => by
        rw [hopen, if_neg Bool.false_ne_true, hsame.margin, hsame.floor, hsame.spent, hpending,
          hdebit]
      working := fun _ _ hnot => absurd (hend.symm.trans hnot) (by simp) }

/-- The attempt ends with an inventory that halts the scenario. -/
theorem endHalted (h : Accounts attempts underHedged (some entry) order scenario)
    (hdone : scenario.done = false) {next : ProbeScenario} (hsame : SameMoney scenario next)
    (hhalted : next.halted = true) (hend : next.done = true) {under : ℕ} (hunder : under ≤ 1)
    (hnext : next.completed + next.empty + next.censored + under =
      scenario.completed + scenario.empty + scenario.censored + 1)
    (current : Option (Entry policy)) : Accounts attempts under current order next := by
  obtain ⟨-, hattempts, -⟩ := h.of_open hdone
  have hopen : attemptOpen current next = false := by simp [attemptOpen, hend]
  exact
    { cash_eq := by rw [hsame.cash, hsame.spent, h.cash_eq]
      cash_nonneg := by rw [hsame.cash]; exact h.cash_nonneg
      filled_le := by rw [hsame.filled]; exact h.filled_le
      holdings_le := by rw [hsame.holdings, hsame.filled]; exact h.holdings_le
      attempts_eq := by rw [hopen, if_neg Bool.false_ne_true]; omega
      underHedged_le := hunder
      underHedged_halted := fun _ => hhalted
      halted_done := fun _ => hopen
      margin_eq := fun hnot => absurd (hhalted.symm.trans hnot) (by simp)
      working := fun _ _ hnot => absurd (hend.symm.trans hnot) (by simp) }

/-- The attempt ends with a complete basket. -/
theorem complete (h : Accounts attempts underHedged (some entry) order scenario)
    (hdone : scenario.done = false) (baskets : ℕ) :
    Accounts attempts underHedged (some entry) order { scenario with
      done := true
      completed := scenario.completed + 1
      floor := scenario.floor + baskets * 20000
      conditionalMargin := scenario.conditionalMargin +
        (((baskets * 20000 : ℕ) : ℤ) - scenario.debit) } := by
  obtain ⟨hunder, hattempts, hpending⟩ := h.of_open hdone
  exact
    { h with
      attempts_eq := by
        simp only [attemptOpen, Option.isSome_some, Bool.not_true, Bool.and_false,
          Bool.false_eq_true, if_false]
        omega
      halted_done := fun _ => by simp [attemptOpen]
      margin_eq := fun _ => by
        simp only [attemptOpen, Option.isSome_some, Bool.not_true, Bool.and_false,
          Bool.false_eq_true, if_false]
        push_cast
        omega
      working := fun _ _ hnot => absurd hnot (by simp) }

/-- A leg is bought for an order that is closed. -/
theorem hedge (h : Accounts attempts underHedged (some entry) order scenario)
    (hdone : scenario.done = false) (hclosed : scenario.closed = true) (leg : Fin 3) {cost : Cost}
    (hquantity : cost.quantity ≤ scenario.filled) (hdebit : (cost.debit : ℤ) ≤ scenario.cash) :
    Accounts attempts underHedged (some entry) order { scenario with
      hedged := Function.update scenario.hedged leg true
      holdings := Function.update scenario.holdings leg cost.quantity
      cash := scenario.cash - cost.debit
      debit := scenario.debit + cost.debit
      spent := scenario.spent + cost.debit } := by
  obtain ⟨-, -, hpending⟩ := h.of_open hdone
  have hopen : attemptOpen (some entry) scenario = true := by simp [attemptOpen, hdone]
  exact
    { h with
      cash_eq := by have := h.cash_eq; push_cast; omega
      cash_nonneg := by dsimp only; omega
      holdings_le := fun other => by
        by_cases hleg : other = leg
        · simpa [hleg] using hquantity
        · simpa [hleg] using h.holdings_le other
      margin_eq := fun _ => by
        change scenario.conditionalMargin = (scenario.floor : ℤ) -
          ((scenario.spent + cost.debit : ℕ) : ℤ) + ((if attemptOpen (some entry) scenario
            then scenario.debit + cost.debit else 0 : ℕ) : ℤ)
        rw [if_pos hopen, hpending]
        push_cast
        omega
      working := fun current hcurrent _ =>
        { h.working current hcurrent hdone with
          debit_eq := fun hzero =>
            absurd hzero ((h.working current hcurrent hdone).closed hclosed)
          resting := fun hnot => absurd (hclosed.symm.trans hnot) (by simp) } }

/-- **A fill.** The order of an open attempt can pay for it. -/
theorem fill (h : Accounts attempts underHedged (some entry) (some entry) scenario)
    (hdone : scenario.done = false) (hclosed : scenario.closed = false)
    (hqueue : scenario.queue ≠ none) {quantity : ℕ} (hpos : 0 < quantity)
    (hle : scenario.filled + quantity ≤ entry.quantity) :
    ∃ charge accumulator, chargeBuyFill quantity entry.price (policy.makerFee entry.market)
        scenario.accumulator = some (charge, accumulator) ∧ (charge.debit : ℤ) ≤ scenario.cash ∧
      Accounts attempts underHedged (some entry) (some entry) { scenario with
        accumulator
        filled := scenario.filled + quantity
        holdings := Function.update scenario.holdings entry.leg
          (scenario.holdings entry.leg + quantity)
        cash := scenario.cash - charge.debit
        debit := scenario.debit + charge.debit
        spent := scenario.spent + charge.debit
        fills := scenario.fills + 1 } := by
  have hworking := h.working entry rfl hdone
  obtain ⟨-, -, hpending⟩ := h.of_open hdone
  have hopen : attemptOpen (some entry) scenario = true := by simp [attemptOpen, hdone]
  obtain ⟨charge, left, hcharge, hdebit, hresting⟩ := (hworking.resting hclosed).charge hpos hle
  refine ⟨charge, left, hcharge, hdebit, ?_⟩
  exact
    { h with
      cash_eq := by have := h.cash_eq; push_cast; omega
      cash_nonneg := by dsimp only; omega
      filled_le := fun last hlast => by
        obtain rfl := Option.some.inj hlast
        exact hle
      holdings_le := fun leg => by
        have := h.holdings_le leg
        by_cases hleg : leg = entry.leg
        · subst hleg
          simpa using this
        · simp only [ne_eq, hleg, not_false_eq_true, Function.update_of_ne]
          omega
      margin_eq := fun _ => by
        change scenario.conditionalMargin = (scenario.floor : ℤ) -
          ((scenario.spent + charge.debit : ℕ) : ℤ) + ((if attemptOpen (some entry) scenario
            then scenario.debit + charge.debit else 0 : ℕ) : ℤ)
        rw [if_pos hopen, hpending]
        push_cast
        omega
      working := fun current hcurrent _ => by
        obtain rfl := Option.some.inj hcurrent
        exact
          { debit_eq := fun hzero => absurd hzero (by dsimp only; omega)
            waiting := fun hnone => absurd hnone hqueue
            closed := fun _ => by dsimp only; omega
            resting := fun _ => hresting } }

/-- The order is closed. -/
theorem close (h : Accounts attempts underHedged (some entry) order scenario)
    (hdone : scenario.done = false) (time : ℤ) :
    Accounts attempts underHedged (some entry) order (PassiveProbe.closeEntry scenario time) := by
  unfold PassiveProbe.closeEntry
  split_ifs with hfilled
  · refine h.endUnfilled hdone hfilled ?_ ?_ ?_ _
    · exact ⟨rfl, rfl, rfl, rfl, rfl, rfl⟩
    · rfl
    · dsimp only; omega
  · exact
      { h with
        working := fun current hcurrent hnot =>
          { h.working current hcurrent hnot with
            closed := fun _ => hfilled
            resting := fun hclosed => absurd hclosed (by simp) } }

/-- A censored scenario. -/
theorem censor (h : Accounts attempts underHedged (some entry) order scenario) :
    Accounts attempts underHedged (none : Option (Entry policy)) order
      (PassiveProbe.censorScenario scenario) := by
  unfold PassiveProbe.censorScenario
  split_ifs with hdone hfilled
  · have hopen (current : Option (Entry policy)) : attemptOpen current scenario = false := by
      simp [attemptOpen, hdone]
    exact
      { h with
        attempts_eq := by rw [hopen]; exact (hopen (some entry)) ▸ h.attempts_eq
        halted_done := fun _ => hopen none
        margin_eq := by rw [hopen]; exact (hopen (some entry)) ▸ h.margin_eq
        working := by simp }
  · refine h.endUnfilled (by simpa using hdone) hfilled ?_ ?_ ?_ _
    · exact ⟨rfl, rfl, rfl, rfl, rfl, rfl⟩
    · rfl
    · dsimp only; omega
  · obtain ⟨hunder, -, -⟩ := h.of_open (by simpa using hdone)
    subst hunder
    refine h.endHalted (by simpa using hdone) ?_ ?_ ?_ (Nat.zero_le _) ?_ _
    · exact ⟨rfl, rfl, rfl, rfl, rfl, rfl⟩
    · rfl
    · rfl
    · dsimp only; omega

/-- A scenario that is done has no open attempt. -/
theorem forget (h : Accounts attempts underHedged (some entry) order scenario)
    (hdone : scenario.done = true) :
    Accounts attempts underHedged (none : Option (Entry policy)) order scenario := by
  have hsame := h.censor
  rwa [PassiveProbe.censorScenario, if_pos hdone] at hsame

/-- A new attempt starts in a scenario that can pay for its order. -/
theorem reset (h : Accounts attempts underHedged (none : Option (Entry policy)) order scenario)
    (hhalted : scenario.halted = false)
    (hfee : Reservable entry.quantity 1 (policy.makerFee entry.market))
    (hcash : (reservationAmount entry.quantity 1 entry.price (policy.makerFee entry.market) : ℤ) ≤
      scenario.cash) :
    Accounts (attempts + 1) underHedged (some entry) (some entry)
      (PassiveProbe.reset scenario) where
  cash_eq := h.cash_eq
  cash_nonneg := h.cash_nonneg
  filled_le := fun _ _ => Nat.zero_le _
  holdings_le := fun _ => Nat.zero_le _
  attempts_eq := by
    have := h.attempts_eq
    simp [attemptOpen, PassiveProbe.reset] at this ⊢
    omega
  underHedged_le := h.underHedged_le
  underHedged_halted := h.underHedged_halted
  halted_done := fun hnot => absurd (hhalted.symm.trans hnot) (by simp)
  margin_eq := fun _ => by
    have := h.margin_eq hhalted
    simpa [attemptOpen, PassiveProbe.reset] using this
  working := fun current hcurrent _ => by
    obtain rfl := Option.some.inj hcurrent
    exact
      { debit_eq := fun _ => rfl
        waiting := fun _ => rfl
        closed := fun hclosed => absurd hclosed (by simp [PassiveProbe.reset])
        resting := fun _ => Resting.start hfee hcash }

end Accounts

end Scenario

end EventMarket.Session
