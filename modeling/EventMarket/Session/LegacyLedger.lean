import EventMarket.Session.LegacyFunding
import EventMarket.Session.LegacyStudy
import EventMarket.Session.LifecycleSteps

/-!
# The ledger of the study without a lifecycle

What is available and what is reserved for the orders on their way is always the capital less what
was spent. A decision moves cash to the reserves, and a funded quote does not overdraw it; an
arrival takes the debit out of its reserve; and at the end the reserves of the orders that were not
observed are returned.

## Main definitions

* `LegacySimulation.Happens`: one event of the simulation.
* `LegacySimulation.Balanced`: the invariant of the ledger.

## Main results

* `LegacySimulation.Balanced.decide`, `LegacySimulation.Balanced.arrive`: every event keeps the
  balance.
* `LegacySimulation.step_reached`: the calls of the observer are events.
* `legacy_quote_and_ledger`: the largest fundable quote, and the balance of every run.
-/

namespace EventMarket.Session

open Constraint Core Foundations Lifecycle Market StudyPositions

/-! ### The studied pairs -/

theorem mem_of_compileLegs {reverse : Bool} {templates : List PayoffLegTemplate}
    {legs : Fin 2 → PayoffLegTemplate} (h : compileLegs reverse templates = .ok legs)
      (leg : Fin 2) :
    legs leg ∈ templates := by
  unfold compileLegs at h
  split at h
  · next first second heq =>
    have hmem : ∀ template ∈ [first, second], template ∈ templates := by
      rw [← heq]
      exact fun template htemplate => List.mem_mergeSort.mp htemplate
    obtain rfl := Except.ok.inj h
    cases reverse <;> fin_cases leg <;> exact hmem _ (by simp)
  · exact nomatch h

namespace LegacyStudy

variable {study : LegacyStudy}

theorem sized (study : LegacyStudy) : study.policy.Sized :=
  ⟨study.cap_le, study.step_eq, study.step_le⟩

theorem compiledLegs_fees {id : ConstraintId} {legs : Fin 2 → PayoffLegTemplate}
    (h : study.compiledLegs id = some legs) (leg : Fin 2) :
    (study.policy.fees (legs leg).marketId).Valid := by
  obtain ⟨compiled, hcompiled, hlegs⟩ := Option.bind_eq_some_iff.mp h
  have hok : compileLegs false compiled.guaranteedLegTemplates = .ok legs := by
    cases hresult : compileLegs false compiled.guaranteedLegTemplates with
    | ok other =>
      rw [hresult] at hlegs
      exact congrArg _ (Option.some.inj hlegs)
    | error error =>
      rw [hresult] at hlegs
      exact nomatch hlegs
  exact study.fees_valid id compiled hcompiled _ (mem_of_compileLegs hok leg)

end LegacyStudy

/-- **A selected quote is funded.** -/
theorem selectQuote_funded {policy : StudyPolicy} {consumed : LiquidityKey → ℕ}
    {state : MarketState}
    {legs : Fin 2 → PayoffLegTemplate} {available : ℤ} {counters counters' : SizingCounters}
    {quote : SizedPair} (hsized : policy.Sized)
    (hfees : ∀ leg, (policy.fees (legs leg).marketId).Valid)
    (h : selectQuote policy consumed state legs available counters = .ok (.ok quote, counters')) :
    ((quote.legs 0).reservation + (quote.legs 1).reservation : ℤ) ≤ available := by
  unfold selectQuote at h
  split at h
  · split at h
    · cases h
    · next cash hcash =>
      obtain ⟨-, -, hoptimal⟩ := sizeBuyPair_quote (optimalQuote_eq_ok h)
      have hfunded := hoptimal.candidate.funded
      have hraw := Cash.fromRaw_eq_some_iff.mp hcash
      rw [LegOrder.reserve, Fin.sum_univ_two] at hfunded
      rw [← hraw, ← Nat.cast_add]
      exact Int.ofNat_le.mpr hfunded
  · obtain ⟨result, hresult, hlargest⟩ := legacyQuote_eq hsized hfees consumed state available
    rw [hresult] at h
    obtain ⟨rfl, -⟩ := Prod.mk.inj (Except.ok.inj h)
    rcases hlargest with ⟨-, hnone | hnone⟩ | ⟨quantity, sized, margin, haffordable, -, -, hquote⟩
    · cases hnone
    · cases hnone
    · rcases hquote with ⟨-, hquote⟩ | ⟨-, hnone⟩
      · obtain rfl := Except.ok.inj hquote
        exact haffordable.funded
      · cases hnone

namespace LegacySimulation

variable {study : LegacyStudy} {self next : LegacySimulation study} {order : PendingOrder}
  {orders : List PendingOrder} {attempt : Lifecycle.Attempt} {state : MarketState}
    {id : ConstraintId}
  {time : ℕ} {inclusive : Bool}

/-! ### The balance -/

/-- What is reserved for the orders on their way. -/
def totalReserved (self : LegacySimulation study) : ℕ := tally self.reserved self.pending

/-- **The balance of the ledger**: what is available and what is reserved is the capital less what
was spent. -/
structure Balanced (simulation : LegacySimulation study) : Prop where
  balance : simulation.available + simulation.totalReserved =
    (study.policy.capital.raw : ℤ) - simulation.spent
  available_nonneg : 0 ≤ simulation.available
  known : ∀ order ∈ simulation.pending, order.attempt < simulation.attempts.length

theorem initial_balanced (study : LegacyStudy) : (initial study).Balanced where
  balance := rfl
  available_nonneg := Int.natCast_nonneg _
  known := List.forall_mem_nil _

/-- What the ledger does not read may change. -/
theorem Balanced.congr (h : self.Balanced) (havailable : next.available = self.available)
    (hspent : next.spent = self.spent) (hpending : next.pending = self.pending)
    (hattempts : next.attempts = self.attempts) : next.Balanced := by
  have hreserved : next.reserved = self.reserved := by
    funext order
    rw [reserved, reserved, LegacySimulation.attempt, LegacySimulation.attempt, hattempts]
  refine ⟨?_, havailable ▸ h.available_nonneg, ?_⟩
  · rw [totalReserved, hreserved, hpending, havailable, hspent]
    exact h.balance
  · rw [hpending, hattempts]
    exact h.known

/-- A fill changes no reserve. -/
theorem reserved_complete (self : LegacySimulation study) (order : PendingOrder) (walked : Walk) :
    (self.complete order walked).reserved = self.reserved := by
  funext other
  unfold complete reserved LegacySimulation.attempt
  simp only [List.getD_eq_getElem?_getD, List.getElem?_set]
  by_cases hsame : order.attempt = other.attempt
  · rw [if_pos hsame, ← hsame]
    split
    · rfl
    · next hout => rw [List.getElem?_eq_none (not_lt.mp hout)]
  · rw [if_neg hsame]

/-- What an arrival does to the ledger. -/
theorem arrive_spec (hs : self.arrive order state = .ok next) :
    ∃ debit ≤ self.reserved order,
      next.available = self.available + ((self.reserved order : ℤ) - debit) ∧
      next.spent = self.spent + debit ∧ next.pending = self.pending ∧
      next.reserved = self.reserved ∧ next.attempts.length = self.attempts.length := by
  obtain ⟨walked, -, hs⟩ := bind_eq_ok hs
  split at hs
  · exact nomatch hs
  next hdebit =>
  obtain rfl := Except.ok.inj hs
  exact ⟨walked.execution.debit, not_lt.mp hdebit, rfl, rfl, rfl,
    reserved_complete self order walked,
    List.length_set⟩

/-- **An arrival** takes the debit out of the reserve. -/
theorem Balanced.arrive (h : self.Balanced) (hpending : self.pending = order :: orders)
    (hs : LegacySimulation.arrive { self with pending := orders } order state = .ok next) :
    next.Balanced := by
  obtain ⟨debit, hdebit, havailable, hspent, hnext, hreserved, hlength⟩ := arrive_spec hs
  have hreserve : next.reserved = self.reserved := hreserved
  have hdebitLe : debit ≤ self.reserved order := hdebit
  have hcash : next.available = self.available + ((self.reserved order : ℤ) - debit) := havailable
  have hsum : next.spent = self.spent + debit := hspent
  have hrest : next.pending = orders := hnext
  have hsame : next.attempts.length = self.attempts.length := hlength
  have hbalance := h.balance
  have hnonneg := h.available_nonneg
  have hknown := h.known
  rw [totalReserved, hpending, tally_cons] at hbalance
  rw [hpending] at hknown
  refine ⟨?_, by omega, ?_⟩
  · rw [totalReserved, hrest, hreserve]
    omega
  · rw [hrest, hsame]
    exact fun other hother => hknown other (List.mem_cons_of_mem _ hother)

/-! ### Decisions -/

/-- What the beginning of an attempt does to the ledger. -/
theorem enter_spec (hs : self.enter attempt = .ok next) : ∃ arrival0 arrival1,
    next.available = self.available - attempt.reserve 0 - attempt.reserve 1 ∧
      next.spent = self.spent ∧ next.attempts = self.attempts ++ [attempt] ∧
      next.pending.Perm
        (self.pending ++ [⟨arrival0, self.attempts.length, 0⟩,
          ⟨arrival1, self.attempts.length, 1⟩]) := by
  obtain ⟨arrival0, -, hs⟩ := bind_eq_ok hs
  obtain ⟨arrival1, -, hs⟩ := bind_eq_ok hs
  obtain rfl := Except.ok.inj hs
  exact ⟨arrival0, arrival1, rfl, rfl, rfl, List.mergeSort_perm _ _⟩

/-- **The beginning of an attempt** reserves what is available. -/
theorem Balanced.enter (h : self.Balanced)
    (hfunded : (attempt.reserve 0 + attempt.reserve 1 : ℤ) ≤ self.available)
    (hs : self.enter attempt = .ok next) : next.Balanced := by
  obtain ⟨arrival0, arrival1, havailable, hspent, hattempts, hpending⟩ := enter_spec hs
  have hbalance := h.balance
  have hold : ∀ order ∈ self.pending, next.reserved order = self.reserved order := by
    intro order horder
    have hlt := h.known order horder
    unfold reserved LegacySimulation.attempt
    rw [hattempts, List.getD_eq_getElem?_getD, List.getElem?_append_left hlt,
      ← List.getD_eq_getElem?_getD]
  have hnew : ∀ arrival leg, next.reserved ⟨arrival, self.attempts.length, leg⟩ =
      attempt.reserve leg := by
    intro arrival leg
    unfold reserved LegacySimulation.attempt
    simp [hattempts]
  refine ⟨?_, ?_, ?_⟩
  · rw [totalReserved, tally_perm _ hpending, tally_append, tally_congr hold,
      tally_cons, tally_cons,
      tally_nil, hnew, hnew, hspent, ← hbalance, totalReserved]
    omega
  · omega
  · intro order horder
    rw [hattempts, List.length_append, List.length_singleton]
    rcases List.mem_append.mp (hpending.mem_iff.mp horder) with hmem | hmem
    · exact (h.known order hmem).trans (Nat.lt_succ_self _)
    · simp only [List.mem_cons, List.not_mem_nil, or_false] at hmem
      rcases hmem with rfl | rfl
      · exact Nat.lt_succ_self _
      · exact Nat.lt_succ_self _

/-- **A decision** keeps the balance: a quote is funded. -/
theorem Balanced.decide (h : self.Balanced) (hs : self.decide id time state = .ok next) :
    next.Balanced := by
  unfold LegacySimulation.decide at hs
  dsimp only at hs
  split at hs
  · exact nomatch hs
  next legs hlegs =>
  split at hs
  · obtain rfl := Except.ok.inj hs
    exact h.congr rfl rfl rfl rfl
  obtain ⟨⟨selected, counters⟩, hselected, hs⟩ := bind_eq_ok hs
  dsimp only at hs
  split at hs
  · obtain rfl := Except.ok.inj hs
    exact h.congr rfl rfl rfl rfl
  · next quote =>
    have hfunded := selectQuote_funded study.sized (fun leg => study.compiledLegs_fees hlegs leg)
      (lift_eq_ok hselected)
    refine Balanced.enter ?_ ?_ hs
    · exact h.congr rfl rfl rfl rfl
    · exact hfunded

/-! ### Runs -/

/-- **One event of the simulation**: the next order arrives, a market is updated, or a pair is
decided on. -/
inductive Happens : LegacySimulation study → LegacySimulation study → Prop
  | arrival {self next : LegacySimulation study} {order orders state}
      (hpending : self.pending = order :: orders)
      (h : LegacySimulation.arrive { self with pending := orders } order state = .ok next) :
      Happens self next
  | update (self : LegacySimulation study) (marketId : MarketId) (time : ℕ) :
      Happens self (self.observe marketId time)
  | decision {self next : LegacySimulation study} {id time state}
      (h : self.decide id time state = .ok next) : Happens self next

/-- The states after some events. -/
def Reached (simulation : LegacySimulation study) : Prop :=
  Relation.ReflTransGen Happens (initial study) simulation

/-- **Every state is balanced.** -/
theorem Reached.balanced (h : self.Reached) : self.Balanced := by
  induction h with
  | refl => exact initial_balanced study
  | tail _ hevent ih =>
    cases hevent with
    | arrival hpending harrive => exact ih.arrive hpending harrive
    | update => exact ih.congr rfl rfl rfl rfl
    | decision hdecide => exact ih.decide hdecide

/-- Orders arrive one after the other, and none is left that is due. -/
theorem drainOrders_reached (hpending : self.pending = orders)
    (hs : drainOrders time inclusive state orders self = .ok next) :
    Relation.ReflTransGen Happens self next := by
  induction orders generalizing self with
  | nil =>
    obtain rfl := Except.ok.inj hs
    rw [← hpending]
  | cons order orders ih =>
    unfold drainOrders at hs
    split at hs
    · obtain ⟨middle, hmiddle, hs⟩ := bind_eq_ok hs
      have hrest : middle.pending = orders := by
        obtain ⟨-, -, -, -, hrest, -⟩ := arrive_spec hmiddle
        exact hrest
      exact (ih hrest hs).head (.arrival hpending hmiddle)
    · obtain rfl := Except.ok.inj hs
      rw [← hpending]

theorem decideAll_reached {ids : List ConstraintId}
    (hs : decideAll time state ids self = .ok next) :
    Relation.ReflTransGen Happens self next := by
  induction ids generalizing self with
  | nil =>
    obtain rfl := Except.ok.inj hs
    exact .refl
  | cons id ids ih =>
    unfold decideAll at hs
    split at hs
    · exact ih hs
    · obtain ⟨middle, hmiddle, hs⟩ := bind_eq_ok hs
      exact (ih hs).head (.decision hmiddle)

/-- **The calls of the observer** are events. -/
theorem step_reached {call : ObserverCall} (hs : self.step call = .ok next) :
    Relation.ReflTransGen Happens self next := by
  cases call with
  | before time state => exact drainOrders_reached rfl hs
  | after frame state =>
    have hafter : self.after frame state = .ok next := hs
    unfold after at hafter
    split at hafter
    · exact (decideAll_reached hafter).head (.update _ _ _)
    · obtain rfl := Except.ok.inj hafter
      exact .refl

theorem run_reached {calls : List ObserverCall}
    (hs : runExcept step (initial study) calls = .ok self) : self.Reached :=
  runExcept_invariant (fun _ _ _ hreached hstep => hreached.trans (step_reached hstep))
    Relation.ReflTransGen.refl hs

/-! ### The end -/

/-- The reserves of some orders are returned. -/
theorem foldl_returnReserve (orders : List PendingOrder) :
    (orders.foldl (returnReserve time) self).available =
        self.available + (tally self.reserved orders : ℕ) ∧
      (orders.foldl (returnReserve time) self).spent = self.spent ∧
      (orders.foldl (returnReserve time) self).unobserved =
        self.unobserved + orders.length := by
  induction orders generalizing self with
  | nil => exact ⟨(Int.add_zero _).symm, rfl, rfl⟩
  | cons order orders ih =>
    obtain ⟨havailable, hspent, hunobserved⟩ := @ih (self.returnReserve time order)
    have hreserved : (returnReserve time self order).reserved = self.reserved := rfl
    have hcash : (returnReserve time self order).available =
        self.available + self.reserved order := rfl
    have hcount : (returnReserve time self order).unobserved = self.unobserved + 1 := rfl
    rw [hreserved] at havailable
    rw [List.foldl_cons, tally_cons, List.length_cons]
    exact ⟨by omega, hspent, by omega⟩

/-- **The end of a run** returns the reserves of the orders that were not observed. -/
theorem finish_spec (h : self.Reached) (hs : self.finish time state = .ok next) :
    ∃ drained, self.drain time true state = .ok drained ∧ drained.Reached ∧
      next.available = drained.available + drained.totalReserved ∧ next.spent = drained.spent ∧
      next.unobserved = drained.unobserved + drained.pending.length ∧ next.pending = [] := by
  obtain ⟨drained, hdrained, hs⟩ := bind_eq_ok hs
  obtain rfl := Except.ok.inj hs
  obtain ⟨havailable, hspent, hunobserved⟩ :=
    @foldl_returnReserve study drained time drained.pending
  exact ⟨drained, hdrained, h.trans (drainOrders_reached rfl hdrained), havailable, hspent,
    hunobserved, rfl⟩

end LegacySimulation

open LegacySimulation in
/-- **The legacy quote is the largest fundable grid size, and the legacy ledger balances.** For
every pair, consumption, books and cash the quote is that of the largest grid quantity that both
books fill and that is funded. After every event what is available and what is reserved for the
orders on their way is the capital less what was spent, and none of it is negative; the states of
every run are reached by such events, and finishing it returns the reserves of the unobserved
orders. -/
theorem legacy_quote_and_ledger (study : LegacyStudy) :
    (∀ legs : Fin 2 → PayoffLegTemplate,
      (∀ leg, (study.policy.fees (legs leg).marketId).Valid) →
      ∀ (consumed : LiquidityKey → ℕ) (state : MarketState) (available : ℤ),
        ∃ result, legacyQuote study.policy consumed state legs available = .ok result ∧
          QuotesLargest study.policy consumed state legs available result) ∧
    (∀ simulation : LegacySimulation study, simulation.Reached →
      simulation.available + simulation.totalReserved =
          (study.policy.capital.raw : ℤ) - simulation.spent ∧
        0 ≤ simulation.available ∧ simulation.spent ≤ study.policy.capital.raw) ∧
    ∀ calls (simulation : LegacySimulation study),
      runExcept step (initial study) calls = .ok simulation → simulation.Reached ∧
        ∀ time state final, simulation.finish time state = .ok final →
          ∃ drained, simulation.drain time true state = .ok drained ∧ drained.Reached ∧
            final.available = drained.available + drained.totalReserved ∧
            final.available = (study.policy.capital.raw : ℤ) - final.spent ∧
            final.unobserved = drained.unobserved + drained.pending.length ∧
            final.pending = [] := by
  refine ⟨fun legs hfees consumed state available =>
    legacyQuote_eq study.sized hfees consumed state available, fun simulation hreached => ?_,
    fun calls simulation hrun => ⟨run_reached hrun, fun time state final hfinish => ?_⟩⟩
  · have hbalance := hreached.balanced.balance
    have hnonneg := hreached.balanced.available_nonneg
    exact ⟨hbalance, hnonneg, by omega⟩
  · obtain ⟨drained, hdrained, hreached, havailable, hspent, hunobserved, hpending⟩ :=
      finish_spec (run_reached hrun) hfinish
    have hbalance := hreached.balanced.balance
    exact ⟨drained, hdrained, hreached, havailable, by omega, hunobserved, hpending⟩

/-! ### A sample -/

/-- One of two markets settles YES. -/
def sampleLegacyConstraints : ConstraintRegistry :=
  .ofDefinitions [⟨1, 1, "rain", "reviewed", .complement 1 2⟩]

theorem sampleLegacyConstraints_legs {id : ConstraintId} {compiled : CompiledConstraint}
    (h : sampleLegacyConstraints.find id = some compiled) :
    compiled.guaranteedLegTemplates = [⟨1, .yes⟩, ⟨2, .yes⟩] := by
  have hall : ∀ entry ∈ sampleLegacyConstraints.constraints.toList,
      entry.2.guaranteedLegTemplates = [⟨1, .yes⟩, ⟨2, .yes⟩] := by decide +kernel
  exact hall (id, compiled) (Std.TreeMap.mem_toList_iff_getElem?_eq_some.mpr h)

def sampleLegacyStudy : LegacyStudy where
  policy := { sampleStudyPolicy with optimalSizing := false }
  constraints := sampleLegacyConstraints
  lifecycle_eq := rfl
  cap_le := by decide
  step_eq := Or.inr rfl
  step_le := by decide
  supported id compiled h := by
    have hsorted : [(⟨1, .yes⟩ : PayoffLegTemplate), ⟨2, .yes⟩].mergeSort
        (fun first second => decide (first.marketId ≤ second.marketId)) =
          [⟨1, .yes⟩, ⟨2, .yes⟩] := List.mergeSort_of_pairwise (by decide)
    rw [sampleLegacyConstraints_legs h, compileLegs, hsorted]
    exact ⟨_, rfl⟩
  fees_valid _ _ _ _ _ := (by decide : FeePolicy.Valid ⟨70000, 10000⟩)

/-- With less cash than the cap needs, the quote is found by bisection. -/
theorem legacy_quote_and_ledger_sample :
    (∃ result, legacyQuote sampleLegacyStudy.policy sampleConsumed sampleStudyState sampleLegs
        3000000 = .ok result ∧
      QuotesLargest sampleLegacyStudy.policy sampleConsumed sampleStudyState sampleLegs 3000000
        result) ∧
    (LegacySimulation.initial sampleLegacyStudy).available +
        (LegacySimulation.initial sampleLegacyStudy).totalReserved = 10000000 := by
  obtain ⟨hquote, hbalance, -⟩ := legacy_quote_and_ledger sampleLegacyStudy
  exact ⟨hquote sampleLegs (by decide) sampleConsumed sampleStudyState 3000000,
    (hbalance _ Relation.ReflTransGen.refl).1⟩

end EventMarket.Session
