import EventMarket.Constraint.PayoffExact
import EventMarket.Opportunity.CandidateRefresh

/-!
# Certificates of guaranteed portfolios

The least payout of a portfolio is taken over all worlds, and in one world of an implication both
legs win. The portfolio of a compiled constraint can be constructed exactly when its largest payout
is an amount of cash: the value of the quantity for a complement, twice the value for an
implication. Every quote of the tracker carries the payout that such a certificate has.

## Main definitions

* `Relationship.winners`: how many legs win at most.
* `emitted`: the events of a tracker over a run of refreshes.

## Main results

* `constructGuaranteedPortfolio_eq`: when a portfolio can be constructed.
* `quoted_emitted`: where the quotes of a tracker come from.
* `guaranteed_portfolio_representable`: both together.
-/

namespace EventMarket.Constraint

open Core Market

/-- The legs that win in the best world of a relationship. -/
def Relationship.winners : Relationship → ℕ
  | .implication _ _ => 2
  | .complement _ _ => 1

theorem Relationship.winners_pos (relationship : Relationship) : 0 < relationship.winners := by
  cases relationship <;> simp [winners]

section Construct

variable {definition : ConstraintDefinition} {compiled : CompiledConstraint} {quantity : Quantity}

/-- The portfolio that is certified for a quantity. -/
def certificate (compiled : CompiledConstraint) (quantity : Quantity) : GuaranteedPortfolio where
  constraintId := compiled.metadata.id
  legs := compiled.guaranteedLegTemplates.map fun leg => ⟨leg.marketId, leg.outcome, quantity⟩
  minimumPayout := quantity.raw * 10000
  worldsVerified := compiled.validWorlds.length

/-- **When a guaranteed portfolio can be constructed.** All winners of the best world have to be
paid in cash; the certified payout is then the value of the quantity. -/
theorem constructGuaranteedPortfolio_eq (h : compileConstraint definition = .ok compiled)
    (hquantity : 0 < quantity.raw) :
    constructGuaranteedPortfolio compiled quantity =
      if definition.relationship.winners * (quantity.raw * 10000) ≤ int64Max then
        .ok (certificate compiled quantity)
      else .error .payoutOverflow := by
  obtain ⟨-, -, -, hne, rfl⟩ := compileConstraint_eq_ok h
  have hzero : quantity.raw ≠ 0 := hquantity.ne'
  have hvalue := contractSettlementValue_eq quantity
  by_cases hfits : quantity.raw * 10000 ≤ int64Max
  · rw [dif_pos hfits] at hvalue
    have hleast : min int64Max (quantity.raw * 10000) = quantity.raw * 10000 := min_eq_right hfits
    cases hrelationship : definition.relationship with
    | complement left right =>
      rw [hrelationship] at hne
      have hne : left ≠ right := hne
      simp [constructGuaranteedPortfolio, hvalue, Relationship.legs, Relationship.worlds,
        verifyPayoff, leastPayout, hasDuplicateMarket, worldPayout, settlement, hne, hne.symm,
        ContractOutcome.wins, hzero, Relationship.winners, hfits, certificate]
    | implication antecedent consequent =>
      rw [hrelationship] at hne
      have hne : antecedent ≠ consequent := hne
      -- Both legs win when only the consequent settles YES.
      have hboth : int64Max - quantity.raw * 10000 < quantity.raw * 10000 ↔
          ¬2 * (quantity.raw * 10000) ≤ int64Max := by omega
      by_cases hdouble : 2 * (quantity.raw * 10000) ≤ int64Max
      · have hroom := mt hboth.mp (not_not.mpr hdouble)
        simp [constructGuaranteedPortfolio, hvalue, Relationship.legs, Relationship.worlds,
          verifyPayoff, leastPayout, hasDuplicateMarket, worldPayout, settlement, hne, hne.symm,
          ContractOutcome.wins, hleast, hzero, Relationship.winners, hdouble, certificate, hroom]
      · have hroom := hboth.mpr hdouble
        simp [constructGuaranteedPortfolio, hvalue, Relationship.legs, Relationship.worlds,
          verifyPayoff, leastPayout, hasDuplicateMarket, worldPayout, settlement, hne, hne.symm,
          ContractOutcome.wins, hzero, Relationship.winners, hdouble, hroom]
  · rw [dif_neg hfits] at hvalue
    have hbig : ¬definition.relationship.winners * (quantity.raw * 10000) ≤ int64Max := by
      cases definition.relationship with
      | implication => rw [Relationship.winners]; omega
      | complement => rw [Relationship.winners]; omega
    rw [if_neg hbig]
    simp [constructGuaranteedPortfolio, hzero, hvalue]

end Construct

end EventMarket.Constraint

namespace EventMarket.Opportunity

open Book Constraint Core Market

/-! ### Where quotes come from -/

/-- The cash of a quote, and that its payout is the value of its quantity. -/
theorem pairQuote_eq_ok {first second : ℕ × ℕ} {current : CandidateQuote}
    (h : pairQuote first second = .ok current) :
    ∃ quantity : Quantity, quantity.raw = current.quantity ∧ 0 < quantity.raw ∧
      ∃ value, contractSettlementValue quantity = some value ∧
        value.raw = current.minimumPayout := by
  unfold pairQuote at h
  dsimp only at h
  split_ifs at h with hzero hmargin
  cases hpayout : (Quantity.fromRaw ((min (min int64Max first.2) second.2 : ℕ) : ℤ)).bind
      contractSettlementValue with
  | none =>
    rw [hpayout] at h
    cases h
  | some payout =>
    rw [hpayout] at h
    obtain ⟨quantity, hquantity, hvalue⟩ := Option.bind_eq_some_iff.mp hpayout
    have hraw : quantity.raw = min (min int64Max first.2) second.2 := by
      exact_mod_cast Quantity.fromRaw_eq_some_iff.mp hquantity
    rw [← Except.ok.inj h]
    exact ⟨quantity, hraw, by omega, payout, hvalue, rfl⟩

theorem pairQuote_of_quote {id : CandidateId} {state : MarketState} {current : CandidateQuote}
    (h : quote id state = .ok current) : ∃ first second, pairQuote first second = .ok current := by
  unfold quote at h
  split_ifs at h
  cases hfirst : legQuote (id.legs 0) state with
  | error =>
    rw [hfirst] at h
    cases h
  | ok first =>
    cases hsecond : legQuote (id.legs 1) state with
    | error =>
      rw [hfirst, hsecond] at h
      cases h
    | ok second =>
      rw [hfirst, hsecond] at h
      exact ⟨first, second, h⟩

/-- The candidate belongs to a constraint of the registry. -/
def Known (registry : ConstraintRegistry) (id : CandidateId) : Prop :=
  ∃ compiled, registry.find id.constraintId = some compiled

/-- The event is of a candidate of the registry, and its quote is a quote in some state. -/
def Quoted (registry : ConstraintRegistry) (event : CandidateEvent) : Prop :=
  Known registry event.id ∧
    ∀ current, event.quote = some current → ∃ state, quote event.id state = .ok current

namespace CandidateTracker

variable {registry : ConstraintRegistry} {tracker : CandidateTracker} {state : MarketState}

/-- All entries are candidates of the registry, and all events are quoted. -/
structure Honest (registry : ConstraintRegistry) (tracker : CandidateTracker) : Prop where
  known : ∀ entry ∈ tracker.entries, Known registry entry.id
  quoted : ∀ event ∈ tracker.events, Quoted registry event

theorem evaluateEntry_quoted {entry : Entry} (hknown : Known registry entry.id)
    {event : CandidateEvent} (h : (evaluateEntry entry state).2 = some event) :
    Quoted registry event := by
  unfold evaluateEntry at h
  cases hquote : quote entry.id state with
  | ok current =>
    rw [hquote] at h
    dsimp only at h
    by_cases hsame : entry.current = some current
    · rw [if_pos hsame] at h
      cases h
    · rw [if_neg hsame] at h
      obtain rfl := Option.some.inj h
      exact ⟨hknown, fun other hother => ⟨state, Option.some.inj hother ▸ hquote⟩⟩
  | error reason =>
    rw [hquote] at h
    dsimp only at h
    by_cases hsome : entry.current.isSome = true
    · rw [if_pos hsome] at h
      obtain rfl := Option.some.inj h
      exact ⟨hknown, fun other hother => (nomatch hother)⟩
    · rw [if_neg hsome] at h
      cases h

theorem Honest.evaluate (h : Honest registry tracker) (index : ℕ) :
    Honest registry (evaluate state tracker index) := by
  unfold CandidateTracker.evaluate
  cases hentry : tracker.entries[index]? with
  | none => exact h
  | some entry =>
    have hknown := h.known entry (List.mem_of_getElem? hentry)
    refine ⟨fun other hmem => ?_, fun event hmem => ?_⟩
    · rcases List.mem_or_eq_of_mem_set hmem with hold | rfl
      · exact h.known other hold
      · rw [(evaluateEntry_spec entry state).1]
        exact hknown
    · rcases List.mem_append.mp hmem with hold | hnew
      · exact h.quoted event hold
      · exact evaluateEntry_quoted hknown (Option.mem_toList.mp hnew)

theorem Honest.foldl (h : Honest registry tracker) (indices : List ℕ) :
    Honest registry (indices.foldl (CandidateTracker.evaluate state) tracker) := by
  induction indices generalizing tracker with
  | nil => exact h
  | cons index indices ih => exact ih (h.evaluate index)

theorem Honest.refreshAll (h : Honest registry tracker) (state : MarketState) :
    Honest registry (tracker.refreshAll state) := by
  have hcleared : Honest registry { tracker with
      events := []
      evaluated := 0
      connected := state.connected
      generation := state.connectionGeneration } := ⟨h.known, fun _ hmem => (nomatch hmem)⟩
  exact hcleared.foldl _

theorem Honest.refresh (h : Honest registry tracker) (changed : MarketId) (state : MarketState) :
    Honest registry (tracker.refresh changed state) := by
  unfold CandidateTracker.refresh
  split_ifs
  · exact h.refreshAll state
  · have hcleared : Honest registry { tracker with events := [], evaluated := 0 } :=
      ⟨h.known, fun _ hmem => (nomatch hmem)⟩
    exact hcleared.foldl _

/-- The tracker of a registry is honest. -/
theorem honest_create {version : ℕ} (hregistry : registry.WellFormed)
    (h : create version registry = .ok tracker) : Honest registry tracker := by
  unfold create at h
  split_ifs at h
  have hall : ∀ compiled ∈ registry.sortedIds.filterMap registry.find,
      registry.find compiled.metadata.id = some compiled := by
    intro compiled hmem
    obtain ⟨id, -, hfind⟩ := List.mem_filterMap.mp hmem
    rwa [(hregistry id compiled hfind).1]
  generalize registry.sortedIds.filterMap registry.find = items at h hall
  suffices hgeneral : ∀ start : CandidateTracker, Honest registry start →
      items.foldlM (addConstraint version) start = .ok tracker → Honest registry tracker from
    hgeneral {} ⟨fun _ hmem => (nomatch hmem), fun _ hmem => (nomatch hmem)⟩ h
  clear h
  induction items with
  | nil =>
    intro start hstart h
    rw [← Except.ok.inj h]
    exact hstart
  | cons compiled items ih =>
    intro start hstart h
    rw [List.foldlM_cons] at h
    cases hnext : addConstraint version start compiled with
    | error =>
      rw [hnext] at h
      cases h
    | ok next =>
      rw [hnext] at h
      refine ih (fun other hmem => hall other (List.mem_cons_of_mem _ hmem)) next ?_ h
      unfold addConstraint at hnext
      split at hnext
      · rw [← Except.ok.inj hnext]
        refine ⟨fun entry hmem => ?_, hstart.quoted⟩
        rcases List.mem_append.mp hmem with hold | hnew
        · exact hstart.known entry hold
        · rw [List.mem_singleton.mp hnew]
          exact ⟨compiled, hall compiled List.mem_cons_self⟩
      · cases hnext

end CandidateTracker

/-! ### Runs of a tracker -/

/-- One call of the tracker: a refresh for a changed market, or of everything. -/
def CandidateTracker.call (tracker : CandidateTracker) :
    Option MarketId × MarketState → CandidateTracker
  | (some changed, state) => tracker.refresh changed state
  | (none, state) => tracker.refreshAll state

/-- The events of a tracker over a run of calls. -/
def emitted : CandidateTracker → List (Option MarketId × MarketState) → List CandidateEvent
  | _, [] => []
  | tracker, call :: calls => (tracker.call call).events ++ emitted (tracker.call call) calls

theorem quoted_emitted {registry : ConstraintRegistry} {tracker : CandidateTracker}
    (h : tracker.Honest registry) (calls : List (Option MarketId × MarketState)) :
    ∀ event ∈ emitted tracker calls, Quoted registry event := by
  induction calls generalizing tracker with
  | nil => exact fun _ hmem => nomatch hmem
  | cons call calls ih =>
    have hnext : (tracker.call call).Honest registry := by
      obtain ⟨changed, state⟩ := call
      cases changed with
      | none => exact h.refreshAll state
      | some changed => exact h.refresh changed state
    intro event hmem
    rcases List.mem_append.mp hmem with hnow | hlater
    · exact hnext.quoted event hnow
    · exact ih hnext event hlater

/-- **Guaranteed portfolios are constructed exactly when the best world can be paid.** For every
compiled constraint and every positive quantity the portfolio can be constructed if and only if the
value of the quantity, times the number of legs that win in the best world, is an amount of cash;
its certified payout is then the value of the quantity. In every run of a tracker each quote has the
value of its quantity as its payout, and its certificate has the same payout: it exists for every
quote of a complement, and for a quote of an implication if and only if twice its payout is an
amount of cash. -/
theorem guaranteed_portfolio_representable :
    (∀ definition compiled quantity, compileConstraint definition = .ok compiled →
      0 < quantity.raw →
      ((∃ portfolio, constructGuaranteedPortfolio compiled quantity = .ok portfolio) ↔
        definition.relationship.winners * (quantity.raw * 10000) ≤ int64Max) ∧
      ∀ portfolio, constructGuaranteedPortfolio compiled quantity = .ok portfolio →
        (contractSettlementValue quantity).map Cash.raw = some portfolio.minimumPayout) ∧
    ∀ definitions version tracker calls,
      CandidateTracker.create version (.ofDefinitions definitions) = .ok tracker →
      ∀ event ∈ emitted tracker calls, ∀ current, event.quote = some current →
        ∃ compiled quantity, (ConstraintRegistry.ofDefinitions definitions).find
            event.id.constraintId = some compiled ∧
          quantity.raw = current.quantity ∧
          (contractSettlementValue quantity).map Cash.raw = some current.minimumPayout ∧
          ((∃ portfolio, constructGuaranteedPortfolio compiled quantity = .ok portfolio ∧
              portfolio.minimumPayout = current.minimumPayout) ↔
            compiled.metadata.relationship.winners * current.minimumPayout ≤ int64Max) ∧
          ∀ left right, compiled.metadata.relationship = .complement left right →
            ∃ portfolio, constructGuaranteedPortfolio compiled quantity = .ok portfolio := by
  refine ⟨fun definition compiled quantity hcompiled hquantity => ?_,
    fun definitions version tracker calls hcreate event hevent current hcurrent => ?_⟩
  · have heq := constructGuaranteedPortfolio_eq hcompiled hquantity
    by_cases hfits : definition.relationship.winners * (quantity.raw * 10000) ≤ int64Max
    · rw [if_pos hfits] at heq
      refine ⟨iff_of_true ⟨_, heq⟩ hfits, fun portfolio hportfolio => ?_⟩
      rw [heq] at hportfolio
      rw [← Except.ok.inj hportfolio, contractSettlementValue_eq,
        dif_pos ((Nat.le_mul_of_pos_left _ definition.relationship.winners_pos).trans hfits)]
      rfl
    · rw [if_neg hfits] at heq
      refine ⟨iff_of_false ?_ hfits, fun _ h => ?_⟩
      · rintro ⟨_, h⟩
        rw [heq] at h
        cases h
      · rw [heq] at h
        cases h
  · have hwell := ConstraintRegistry.wellFormed_ofDefinitions definitions
    obtain ⟨⟨compiled, hfind⟩, hquoted⟩ :=
      quoted_emitted (CandidateTracker.honest_create hwell hcreate) calls event hevent
    obtain ⟨state, hquote⟩ := hquoted current hcurrent
    obtain ⟨first, second, hpair⟩ := pairQuote_of_quote hquote
    obtain ⟨quantity, hraw, hpos, value, hvalue, hpayout⟩ := pairQuote_eq_ok hpair
    have heq := constructGuaranteedPortfolio_eq (hwell _ _ hfind).2 hpos
    have hcash := contractSettlementValue_eq quantity
    rw [hvalue] at hcash
    split_ifs at hcash with hfits
    have hworth : current.minimumPayout = quantity.raw * 10000 := by
      rw [← hpayout, Option.some.inj hcash]
    refine ⟨compiled, quantity, hfind, hraw, by rw [hvalue, ← hpayout]; rfl, ?_, ?_⟩
    · rw [hworth, heq]
      by_cases hbest : compiled.metadata.relationship.winners * (quantity.raw * 10000) ≤ int64Max
      · rw [if_pos hbest]
        exact iff_of_true ⟨_, rfl, rfl⟩ hbest
      · rw [if_neg hbest]
        refine iff_of_false ?_ hbest
        rintro ⟨_, h, _⟩
        cases h
    · intro left right hcomplement
      rw [hcomplement, Relationship.winners, one_mul, if_pos hfits] at heq
      exact ⟨_, heq⟩

/-- A quantity whose value is an amount of cash, and whose portfolio for an implication cannot be
constructed. -/
theorem implication_not_representable :
    ∃ compiled, compileConstraint ⟨1, 1, "k", "p", .implication 1 2⟩ = .ok compiled ∧
      (contractSettlementValue ⟨500000000000000, by decide⟩).isSome ∧
      constructGuaranteedPortfolio compiled ⟨500000000000000, by decide⟩ =
        .error .payoutOverflow := by
  let definition : ConstraintDefinition := ⟨1, 1, "k", "p", .implication 1 2⟩
  refine ⟨_, rfl, by decide, ?_⟩
  rw [@constructGuaranteedPortfolio_eq definition _ _ rfl (by decide), if_neg (by decide)]

end EventMarket.Opportunity
