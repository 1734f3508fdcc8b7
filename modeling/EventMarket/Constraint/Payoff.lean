import EventMarket.Market.MarketState

/-!
# Semantic constraints and their payoffs

A constraint relates two markets: one implies the other, or they are complements. Compiling it
gives the worlds that it allows and a portfolio of two legs of which at least one wins in each of
them. Constraints are registered under an id and a key.

## Main definitions

* `Relationship`, `ConstraintDefinition`, `CompiledConstraint`, `compileConstraint`.
* `verifyPayoff`, `constructGuaranteedPortfolio`: the least payout of a portfolio over the worlds.
* `ConstraintRegistry`, `ConstraintRegistry.add`.

## Main results

* `constructGuaranteedPortfolio_compiled`: the legs of a compiled constraint pay at least the
  value of one contract in every world.
* `ConstraintRegistry.WellFormed.add`: registered constraints are compiled ones.
-/

namespace EventMarket.Constraint

open Core Market

/-- Identifiers of constraints. -/
abbrev ConstraintId : Type := ℕ

inductive ContractOutcome where
  | yes
  | no
  deriving DecidableEq, Repr

/-- The antecedent implies the consequent, or exactly one of the two settles YES. -/
inductive Relationship where
  | implication (antecedent consequent : MarketId)
  | complement (left right : MarketId)
  deriving DecidableEq, Repr

structure ConstraintDefinition where
  id : ConstraintId
  semanticVersion : ℕ
  key : String
  provenance : String
  relationship : Relationship
  deriving DecidableEq, Repr

structure PayoffLeg where
  marketId : MarketId
  outcome : ContractOutcome
  quantity : Quantity
  deriving DecidableEq, Repr

structure PayoffLegTemplate where
  marketId : MarketId
  outcome : ContractOutcome
  deriving DecidableEq, Repr

structure WorldAssignment where
  marketId : MarketId
  settlesYes : Bool
  deriving DecidableEq, Repr

/-- How some markets settle together. -/
abbrev WorldState : Type := List WorldAssignment

structure CompiledConstraint where
  metadata : ConstraintDefinition
  dependentMarkets : List MarketId
  validWorlds : List WorldState
  guaranteedLegTemplates : List PayoffLegTemplate
  deriving DecidableEq, Repr

inductive VerificationError where
  | emptyWorldSet
  | emptyPortfolio
  | invalidWorld
  | missingAssignment
  | zeroQuantity
  | payoutOverflow
  | invalidDefinition
  deriving DecidableEq, Repr

structure PayoffVerification where
  minimumPayout : ℕ
  worldsEvaluated : ℕ
  deriving DecidableEq, Repr

/-! ### Compiling -/

def hasValidMetadata (definition : ConstraintDefinition) : Bool :=
  definition.id != 0 && definition.semanticVersion != 0 && !definition.key.isEmpty &&
    !definition.provenance.isEmpty

/-- The two markets of a relationship. -/
def Relationship.markets : Relationship → MarketId × MarketId
  | .implication antecedent consequent => (antecedent, consequent)
  | .complement left right => (left, right)

/-- The worlds that a relationship allows. -/
def Relationship.worlds : Relationship → List WorldState
  | .implication antecedent consequent =>
    [[⟨antecedent, false⟩, ⟨consequent, false⟩], [⟨antecedent, false⟩, ⟨consequent, true⟩],
      [⟨antecedent, true⟩, ⟨consequent, true⟩]]
  | .complement left right =>
    [[⟨left, false⟩, ⟨right, true⟩], [⟨left, true⟩, ⟨right, false⟩]]

/-- Two legs of which at least one wins in every allowed world. -/
def Relationship.legs : Relationship → List PayoffLegTemplate
  | .implication antecedent consequent => [⟨consequent, .yes⟩, ⟨antecedent, .no⟩]
  | .complement left right => [⟨left, .yes⟩, ⟨right, .yes⟩]

def compileConstraint (definition : ConstraintDefinition) :
    Except VerificationError CompiledConstraint :=
  if !hasValidMetadata definition then .error .invalidDefinition
  else
    let (first, second) := definition.relationship.markets
    if first = 0 ∨ second = 0 ∨ first = second then .error .invalidDefinition
    else .ok {
      metadata := definition
      dependentMarkets := [first, second]
      validWorlds := definition.relationship.worlds
      guaranteedLegTemplates := definition.relationship.legs }

/-! ### Payoffs -/

/-- Some market is assigned twice. -/
def hasDuplicateMarket : WorldState → Bool
  | [] => false
  | assignment :: rest =>
    rest.any (fun other => other.marketId == assignment.marketId) || hasDuplicateMarket rest

/-- How a market settles in a world. -/
def settlement (world : WorldState) (marketId : MarketId) : Option Bool :=
  (world.find? fun assignment => assignment.marketId == marketId).map WorldAssignment.settlesYes

/-- A position in an outcome wins when the market settles so. -/
def ContractOutcome.wins (outcome : ContractOutcome) (settlesYes : Bool) : Bool :=
  match outcome with
  | .yes => settlesYes
  | .no => !settlesYes

/-- The payout of the rest of a portfolio in a world, added to a payout. -/
def worldPayout (world : WorldState) : List PayoffLeg → ℕ → Except VerificationError ℕ
  | [], payout => .ok payout
  | leg :: legs, payout =>
    if leg.quantity.raw = 0 then .error .zeroQuantity
    else
      match settlement world leg.marketId with
      | none => .error .missingAssignment
      | some settlesYes =>
        if leg.outcome.wins settlesYes = false then worldPayout world legs payout
        else
          match contractSettlementValue leg.quantity with
          | none => .error .payoutOverflow
          | some value =>
            if int64Max - value.raw < payout then .error .payoutOverflow
            else worldPayout world legs (payout + value.raw)

/-- The least payout over the rest of the worlds. -/
def leastPayout (portfolio : List PayoffLeg) : List WorldState → ℕ → Except VerificationError ℕ
  | [], minimum => .ok minimum
  | world :: worlds, minimum =>
    if hasDuplicateMarket world then .error .invalidWorld
    else
      match worldPayout world portfolio 0 with
      | .error error => .error error
      | .ok payout => leastPayout portfolio worlds (min minimum payout)

def verifyPayoff (validWorlds : List WorldState) (portfolio : List PayoffLeg) :
    Except VerificationError PayoffVerification :=
  if validWorlds = [] then .error .emptyWorldSet
  else if portfolio = [] then .error .emptyPortfolio
  else
    match leastPayout portfolio validWorlds int64Max with
    | .error error => .error error
    | .ok minimum => .ok ⟨minimum, validWorlds.length⟩

structure GuaranteedPortfolio where
  constraintId : ConstraintId
  legs : List PayoffLeg
  minimumPayout : ℕ
  worldsVerified : ℕ
  deriving DecidableEq, Repr

def constructGuaranteedPortfolio (constraint : CompiledConstraint) (quantity : Quantity) :
    Except VerificationError GuaranteedPortfolio :=
  if quantity.raw = 0 then .error .zeroQuantity
  else
    let legs := constraint.guaranteedLegTemplates.map fun leg =>
      (⟨leg.marketId, leg.outcome, quantity⟩ : PayoffLeg)
    match contractSettlementValue quantity with
    | none => .error .payoutOverflow
    | some expected =>
      match verifyPayoff constraint.validWorlds legs with
      | .error error => .error error
      | .ok verified =>
        if verified.minimumPayout ≠ expected.raw then .error .invalidDefinition
        else .ok ⟨constraint.metadata.id, legs, verified.minimumPayout, verified.worldsEvaluated⟩

/-! ### The registry -/

inductive ConstraintRegistrationResult where
  | registered
  | alreadyRegistered
  | invalidDefinition
  | constraintIdConflict
  | keyConflict
  deriving DecidableEq, Repr

structure ConstraintRegistry where
  constraints : Std.TreeMap ConstraintId CompiledConstraint := {}
  keys : Std.TreeMap String ConstraintId := {}
  dependencies : Std.TreeMap MarketId (List ConstraintId) := {}

namespace ConstraintRegistry

/-- A new dependent constraint of a market comes last. -/
def addDependency (dependencies : Std.TreeMap MarketId (List ConstraintId)) (id : ConstraintId)
    (marketId : MarketId) : Std.TreeMap MarketId (List ConstraintId) :=
  dependencies.insert marketId (dependencies[marketId]?.getD [] ++ [id])

def add (registry : ConstraintRegistry) (definition : ConstraintDefinition) :
    ConstraintRegistry × ConstraintRegistrationResult :=
  match compileConstraint definition with
  | .error _ => (registry, .invalidDefinition)
  | .ok compiled =>
    match registry.constraints[definition.id]? with
    | some known =>
      (registry, if known = compiled then .alreadyRegistered else .constraintIdConflict)
    | none =>
      if (registry.keys[definition.key]?).isSome then (registry, .keyConflict)
      else
        ({ constraints := registry.constraints.insert definition.id compiled
           keys := registry.keys.insert definition.key definition.id
           dependencies := compiled.dependentMarkets.foldl
             (fun dependencies marketId => addDependency dependencies definition.id marketId)
             registry.dependencies }, .registered)

def find (registry : ConstraintRegistry) (id : ConstraintId) : Option CompiledConstraint :=
  registry.constraints[id]?

/-- The constraints that depend on a market. -/
def dependenciesOf (registry : ConstraintRegistry) (marketId : MarketId) : List ConstraintId :=
  registry.dependencies[marketId]?.getD []

def size (registry : ConstraintRegistry) : ℕ := registry.constraints.size

/-- All ids in ascending order. -/
def sortedIds (registry : ConstraintRegistry) : List ConstraintId := registry.constraints.keys

end ConstraintRegistry

/-! ### Compiled constraints -/

theorem compileConstraint_eq_ok {definition : ConstraintDefinition} {compiled : CompiledConstraint}
    (h : compileConstraint definition = .ok compiled) :
    hasValidMetadata definition = true ∧
      definition.relationship.markets.1 ≠ 0 ∧ definition.relationship.markets.2 ≠ 0 ∧
      definition.relationship.markets.1 ≠ definition.relationship.markets.2 ∧
      compiled = {
        metadata := definition
        dependentMarkets := [definition.relationship.markets.1, definition.relationship.markets.2]
        validWorlds := definition.relationship.worlds
        guaranteedLegTemplates := definition.relationship.legs } := by
  unfold compileConstraint at h
  by_cases hmetadata : (!hasValidMetadata definition) = true
  · rw [if_pos hmetadata] at h
    cases h
  rw [if_neg hmetadata] at h
  dsimp only at h
  by_cases hmarkets : definition.relationship.markets.1 = 0 ∨
      definition.relationship.markets.2 = 0 ∨
      definition.relationship.markets.1 = definition.relationship.markets.2
  · rw [if_pos hmarkets] at h
    cases h
  rw [if_neg hmarkets] at h
  rw [not_or, not_or] at hmarkets
  exact ⟨by simpa using hmetadata, hmarkets.1, hmarkets.2.1, hmarkets.2.2,
    (Except.ok.inj h).symm⟩

/-- **The legs of a compiled constraint are guaranteed.** One contract of each of them can be
verified in every world that the constraint allows. -/
theorem constructGuaranteedPortfolio_compiled {definition : ConstraintDefinition}
    {compiled : CompiledConstraint} (h : compileConstraint definition = .ok compiled) :
    ∃ portfolio, constructGuaranteedPortfolio compiled ⟨Quantity.scale, by decide⟩ =
      .ok portfolio := by
  obtain ⟨-, -, -, hne, rfl⟩ := compileConstraint_eq_ok h
  have hvalue : contractSettlementValue ⟨Quantity.scale, by decide⟩ =
      some ⟨1000000, by decide⟩ := by decide
  have hroom : ¬int64Max - 1000000 < 1000000 := by decide
  have hleast : min int64Max 1000000 = 1000000 := by decide
  cases hrelationship : definition.relationship with
  | implication antecedent consequent =>
    rw [hrelationship] at hne
    have hne : antecedent ≠ consequent := hne
    simp [constructGuaranteedPortfolio, hvalue, Relationship.legs, Relationship.worlds,
      verifyPayoff, leastPayout, hasDuplicateMarket, worldPayout, settlement, hne, hne.symm,
      ContractOutcome.wins, hroom, hleast]
  | complement left right =>
    rw [hrelationship] at hne
    have hne : left ≠ right := hne
    simp [constructGuaranteedPortfolio, hvalue, Relationship.legs, Relationship.worlds,
      verifyPayoff, leastPayout, hasDuplicateMarket, worldPayout, settlement, hne, hne.symm,
      ContractOutcome.wins, hleast]

namespace ConstraintRegistry

/-- Every registered constraint is compiled and stands under its id. -/
def WellFormed (registry : ConstraintRegistry) : Prop :=
  ∀ id compiled, registry.find id = some compiled →
    compiled.metadata.id = id ∧ compileConstraint compiled.metadata = .ok compiled

theorem wellFormed_empty : WellFormed {} := by
  intro id compiled h
  simp [find] at h

theorem WellFormed.add {registry : ConstraintRegistry} (h : registry.WellFormed)
    (definition : ConstraintDefinition) : (registry.add definition).1.WellFormed := by
  unfold ConstraintRegistry.add
  cases hcompiled : compileConstraint definition with
  | error => exact h
  | ok compiled =>
    dsimp only
    cases registry.constraints[definition.id]? with
    | some known => exact h
    | none =>
      dsimp only
      split_ifs
      · exact h
      intro id other hother
      simp only [find, Std.TreeMap.getElem?_insert] at hother
      split_ifs at hother with heq
      · obtain rfl := Std.LawfulEqCmp.eq_of_compare heq
        obtain rfl := Option.some.inj hother
        obtain ⟨-, -, -, -, hmade⟩ := compileConstraint_eq_ok hcompiled
        rw [show compiled.metadata = definition by rw [hmade]]
        exact ⟨rfl, hcompiled⟩
      · exact h id other hother

/-- The registry of a list of definitions, added one after the other. -/
def ofDefinitions (definitions : List ConstraintDefinition) : ConstraintRegistry :=
  definitions.foldl (fun registry definition => (registry.add definition).1) {}

theorem wellFormed_ofDefinitions (definitions : List ConstraintDefinition) :
    (ofDefinitions definitions).WellFormed := by
  unfold ofDefinitions
  generalize hstart : ({} : ConstraintRegistry) = start
  have hwell : start.WellFormed := hstart ▸ wellFormed_empty
  clear hstart
  induction definitions generalizing start with
  | nil => exact hwell
  | cons definition definitions ih => exact ih _ (hwell.add definition)

theorem ofDefinitions_append (definitions : List ConstraintDefinition)
    (definition : ConstraintDefinition) :
    ofDefinitions (definitions ++ [definition]) = ((ofDefinitions definitions).add definition).1 :=
  List.foldl_append ..

/-- Only the ids and the keys of the definitions are taken. -/
theorem mem_of_ofDefinitions (definitions : List ConstraintDefinition) :
    (∀ id, (ofDefinitions definitions).constraints[id]? ≠ none →
      id ∈ definitions.map ConstraintDefinition.id) ∧
    ∀ key, (ofDefinitions definitions).keys[key]? ≠ none →
      key ∈ definitions.map ConstraintDefinition.key := by
  induction definitions using List.reverseRecOn with
  | nil => simp [ofDefinitions]
  | append_singleton definitions definition ih =>
    rw [ofDefinitions_append]
    simp only [List.map_append, List.mem_append, List.map_cons, List.map_nil, List.mem_singleton]
    unfold ConstraintRegistry.add
    cases hcompiled : compileConstraint definition with
    | error => exact ⟨fun id h => Or.inl (ih.1 id h), fun key h => Or.inl (ih.2 key h)⟩
    | ok compiled =>
      dsimp only
      cases (ofDefinitions definitions).constraints[definition.id]? with
      | some known => exact ⟨fun id h => Or.inl (ih.1 id h), fun key h => Or.inl (ih.2 key h)⟩
      | none =>
        dsimp only
        split_ifs
        · exact ⟨fun id h => Or.inl (ih.1 id h), fun key h => Or.inl (ih.2 key h)⟩
        constructor
        · intro id h
          simp only [Std.TreeMap.getElem?_insert] at h
          split_ifs at h with heq
          · exact Or.inr (Std.LawfulEqCmp.eq_of_compare heq).symm
          · exact Or.inl (ih.1 id h)
        · intro key h
          simp only [Std.TreeMap.getElem?_insert] at h
          split_ifs at h with heq
          · exact Or.inr (Std.LawfulEqCmp.eq_of_compare heq).symm
          · exact Or.inl (ih.2 key h)

/-- A definition that can be compiled is registered when its id and its key are new. -/
theorem add_ofDefinitions {definitions : List ConstraintDefinition}
    {definition : ConstraintDefinition} {compiled : CompiledConstraint}
    (hcompiled : compileConstraint definition = .ok compiled)
    (hid : definition.id ∉ definitions.map ConstraintDefinition.id)
    (hkey : definition.key ∉ definitions.map ConstraintDefinition.key) :
    (ofDefinitions definitions).add definition =
      (ofDefinitions (definitions ++ [definition]), .registered) := by
  have hnoId : (ofDefinitions definitions).constraints[definition.id]? = none :=
    not_not.mp fun h => hid ((mem_of_ofDefinitions definitions).1 _ h)
  have hnoKey : (ofDefinitions definitions).keys[definition.key]? = none :=
    not_not.mp fun h => hkey ((mem_of_ofDefinitions definitions).2 _ h)
  refine Prod.ext (ofDefinitions_append definitions definition).symm ?_
  unfold ConstraintRegistry.add
  simp [hcompiled, hnoId, hnoKey]

/-- **Definitions with distinct ids and keys are all found.** -/
theorem find_ofDefinitions {definitions : List ConstraintDefinition}
    (hcompiles : ∀ definition ∈ definitions, ∃ compiled,
      compileConstraint definition = .ok compiled)
    (hids : (definitions.map ConstraintDefinition.id).Nodup)
    (hkeys : (definitions.map ConstraintDefinition.key).Nodup)
    {definition : ConstraintDefinition} (hmem : definition ∈ definitions) :
    ∃ compiled, (ofDefinitions definitions).find definition.id = some compiled ∧
      compiled.metadata = definition := by
  induction definitions using List.reverseRecOn with
  | nil => cases hmem
  | append_singleton definitions last ih =>
    rw [List.map_append] at hids hkeys
    obtain ⟨compiled, hcompiled⟩ := hcompiles last (by simp)
    have hid : last.id ∉ definitions.map ConstraintDefinition.id := fun h =>
      List.disjoint_of_nodup_append hids h (by simp)
    have hkey : last.key ∉ definitions.map ConstraintDefinition.key := fun h =>
      List.disjoint_of_nodup_append hkeys h (by simp)
    have hnoId : (ofDefinitions definitions).constraints[last.id]? = none :=
      not_not.mp fun h => hid ((mem_of_ofDefinitions definitions).1 _ h)
    have hnoKey : (ofDefinitions definitions).keys[last.key]? = none :=
      not_not.mp fun h => hkey ((mem_of_ofDefinitions definitions).2 _ h)
    have hadded : (ofDefinitions (definitions ++ [last])).constraints =
        (ofDefinitions definitions).constraints.insert last.id compiled := by
      rw [ofDefinitions_append]
      unfold ConstraintRegistry.add
      simp [hcompiled, hnoId, hnoKey]
    unfold ConstraintRegistry.find
    rw [hadded]
    rcases List.mem_append.mp hmem with hmem | hmem
    · have hne : definition.id ≠ last.id := fun heq => hid (heq ▸ List.mem_map_of_mem hmem)
      rw [Std.TreeMap.getElem?_insert, if_neg fun heq =>
        hne (Std.LawfulEqCmp.eq_of_compare heq).symm]
      exact ih (fun other hother => hcompiles other (List.mem_append_left _ hother))
        (List.Nodup.of_append_left hids) (List.Nodup.of_append_left hkeys) hmem
    · obtain rfl := List.mem_singleton.mp hmem
      obtain ⟨-, -, -, -, hmade⟩ := compileConstraint_eq_ok hcompiled
      exact ⟨compiled, by simp, by rw [hmade]⟩

end ConstraintRegistry

end EventMarket.Constraint
