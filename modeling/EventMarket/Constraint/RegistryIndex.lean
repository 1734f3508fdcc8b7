import EventMarket.Constraint.Payoff

/-!
# The indices of the constraint registry

The registry keeps its constraints under their ids, the ids under their keys, and for every market
the ids of the constraints that depend on it. After any additions the three agree.

## Main definitions

* `ConstraintRegistry.Consistent`: the key map and the dependencies are those of the constraints.
* `ConstraintRegistry.keyEquiv`: the keys and the stored constraints, one for the other.

## Main results

* `ConstraintRegistry.add_cases`: what an addition does.
* `ConstraintRegistry.Consistent.add`: an addition keeps the indices.
* `ConstraintRegistry.registry_consistent`: the indices after any sequence of additions.
-/

namespace EventMarket.Constraint

open Core Market

namespace ConstraintRegistry

/-- **The indices agree** with the stored constraints. -/
structure Consistent (registry : ConstraintRegistry) : Prop where
  wellFormed : registry.WellFormed
  keys_iff : ∀ key id, registry.keys[key]? = some id ↔
    ∃ compiled, registry.find id = some compiled ∧ compiled.metadata.key = key
  dependencies_iff : ∀ marketId id, id ∈ registry.dependenciesOf marketId ↔
    ∃ compiled, registry.find id = some compiled ∧ marketId ∈ compiled.dependentMarkets
  nodup_dependencies : ∀ marketId, (registry.dependenciesOf marketId).Nodup

variable {registry : ConstraintRegistry} {definition : ConstraintDefinition}

/-! ### One addition -/

/-- The registry with one more compiled constraint. -/
def store (registry : ConstraintRegistry) (compiled : CompiledConstraint) : ConstraintRegistry where
  constraints := registry.constraints.insert compiled.metadata.id compiled
  keys := registry.keys.insert compiled.metadata.key compiled.metadata.id
  dependencies := compiled.dependentMarkets.foldl
    (fun dependencies marketId => addDependency dependencies compiled.metadata.id marketId)
    registry.dependencies

/-- **What an addition does.** It stores a new constraint under a new id and a new key, or it
changes nothing. -/
theorem add_cases (registry : ConstraintRegistry) (definition : ConstraintDefinition) :
    (∃ compiled, compileConstraint definition = .ok compiled ∧ compiled.metadata = definition ∧
      registry.find definition.id = none ∧ registry.keys[definition.key]? = none ∧
      registry.add definition = (registry.store compiled, .registered)) ∨
    (registry.add definition).1 = registry ∧ (registry.add definition).2 ≠ .registered := by
  unfold ConstraintRegistry.add
  cases hcompiled : compileConstraint definition with
  | error => exact .inr ⟨rfl, nofun⟩
  | ok compiled =>
    have hmetadata : compiled.metadata = definition := by
      obtain ⟨-, -, -, -, hmade⟩ := compileConstraint_eq_ok hcompiled
      rw [hmade]
    dsimp only
    cases hfound : registry.constraints[definition.id]? with
    | some known =>
      refine .inr ⟨rfl, ?_⟩
      dsimp only
      split <;> exact nofun
    | none =>
      dsimp only
      by_cases hkey : (registry.keys[definition.key]?).isSome = true
      · rw [if_pos hkey]
        exact .inr ⟨rfl, nofun⟩
      · rw [if_neg hkey]
        refine .inl ⟨compiled, rfl, hmetadata, hfound, by simpa using hkey, ?_⟩
        rw [store, hmetadata]

/-- The same definition again. -/
theorem add_of_find {compiled : CompiledConstraint} (h : registry.WellFormed) {id : ConstraintId}
    (hfind : registry.find id = some compiled) :
    registry.add compiled.metadata = (registry, .alreadyRegistered) := by
  obtain ⟨hid, hcompiled⟩ := h id compiled hfind
  have hknown : registry.constraints[compiled.metadata.id]? = some compiled := hid ▸ hfind
  unfold ConstraintRegistry.add
  rw [hcompiled]
  dsimp only
  rw [hknown]
  dsimp only
  rw [if_pos rfl]

/-! ### The indices of a stored constraint -/

theorem find_store (compiled : CompiledConstraint) (id : ConstraintId) :
    (registry.store compiled).find id =
      if compiled.metadata.id = id then some compiled else registry.find id := by
  unfold find store
  rw [Std.TreeMap.getElem?_insert]
  simp only [Std.LawfulEqOrd.compare_eq_iff_eq]

theorem getElem?_keys_store (compiled : CompiledConstraint) (key : String) :
    (registry.store compiled).keys[key]? =
      if compiled.metadata.key = key then some compiled.metadata.id else registry.keys[key]? := by
  unfold store
  rw [Std.TreeMap.getElem?_insert]
  simp only [Std.LawfulEqOrd.compare_eq_iff_eq]

theorem getD_addDependency (dependencies : Std.TreeMap MarketId (List ConstraintId))
    (id : ConstraintId) (marketId other : MarketId) :
    (addDependency dependencies id marketId)[other]?.getD [] =
      dependencies[other]?.getD [] ++ if marketId = other then [id] else [] := by
  unfold addDependency
  rw [Std.TreeMap.getElem?_insert]
  simp only [Std.LawfulEqOrd.compare_eq_iff_eq]
  split
  · next heq => rw [heq, Option.getD_some]
  · rw [List.append_nil]

theorem dependenciesOf_store {compiled : CompiledConstraint}
    (h : compileConstraint definition = .ok compiled) (marketId : MarketId) :
    (registry.store compiled).dependenciesOf marketId = registry.dependenciesOf marketId ++
      if marketId ∈ compiled.dependentMarkets then [compiled.metadata.id] else [] := by
  obtain ⟨-, -, -, hne, hmade⟩ := compileConstraint_eq_ok h
  have hmarkets : compiled.dependentMarkets =
      [definition.relationship.markets.1, definition.relationship.markets.2] := by rw [hmade]
  unfold dependenciesOf store
  dsimp only
  rw [hmarkets, List.foldl_cons, List.foldl_cons, List.foldl_nil, getD_addDependency,
    getD_addDependency, List.append_assoc]
  congr 1
  by_cases hfirst : definition.relationship.markets.1 = marketId
  · have hsecond : definition.relationship.markets.2 ≠ marketId := fun heq =>
      hne (hfirst.trans heq.symm)
    rw [if_pos hfirst, if_neg hsecond, if_pos (by simp [hfirst])]
    rfl
  · by_cases hsecond : definition.relationship.markets.2 = marketId
    · rw [if_neg hfirst, if_pos hsecond, if_pos (by simp [hsecond])]
      rfl
    · rw [if_neg hfirst, if_neg hsecond, if_neg (by simp [Ne.symm hfirst, Ne.symm hsecond])]
      rfl

/-! ### Any additions -/

theorem consistent_empty : Consistent {} where
  wellFormed := wellFormed_empty
  keys_iff key id := by simp [find]
  dependencies_iff marketId id := by simp [dependenciesOf, find]
  nodup_dependencies marketId := by simp [dependenciesOf]

/-- **An addition keeps the indices.** -/
theorem Consistent.add (h : registry.Consistent) (definition : ConstraintDefinition) :
    (registry.add definition).1.Consistent := by
  have hwell := h.wellFormed.add definition
  rcases add_cases registry definition with
    ⟨compiled, hcompiled, rfl, hnoId, hnoKey, hadd⟩ | ⟨hsame, -⟩
  · rw [hadd] at hwell ⊢
    have hfind (id : ConstraintId) := @find_store registry compiled id
    -- a constraint that was found before is not the new one
    have hother {id : ConstraintId} {other : CompiledConstraint}
        (hold : registry.find id = some other) : compiled.metadata.id ≠ id := by
      rintro rfl
      exact nomatch hnoId.symm.trans hold
    refine ⟨hwell, fun key id => ?_, fun marketId id => ?_, fun marketId => ?_⟩
    · rw [getElem?_keys_store, hfind]
      by_cases hkey : compiled.metadata.key = key
      · rw [if_pos hkey, Option.some.injEq]
        constructor
        · rintro rfl
          exact ⟨compiled, if_pos rfl, hkey⟩
        · rintro ⟨other, hsome, hotherKey⟩
          by_contra hne
          rw [if_neg hne] at hsome
          have hold := (h.keys_iff key id).mpr ⟨other, hsome, hotherKey⟩
          exact nomatch (hkey ▸ hnoKey).symm.trans hold
      · rw [if_neg hkey, h.keys_iff]
        constructor
        · rintro ⟨other, hold, hotherKey⟩
          exact ⟨other, by rw [if_neg (hother hold)]; exact hold, hotherKey⟩
        · rintro ⟨other, hsome, hotherKey⟩
          by_cases hid : compiled.metadata.id = id
          · rw [if_pos hid] at hsome
            obtain rfl := Option.some.inj hsome
            exact absurd hotherKey hkey
          · exact ⟨other, by rwa [if_neg hid] at hsome, hotherKey⟩
    · rw [dependenciesOf_store hcompiled, List.mem_append, h.dependencies_iff, hfind]
      constructor
      · rintro (⟨other, hold, hmarket⟩ | hnew)
        · exact ⟨other, by rw [if_neg (hother hold)]; exact hold, hmarket⟩
        · split at hnew
          · next hmarket =>
            exact ⟨compiled, if_pos (List.mem_singleton.mp hnew).symm, hmarket⟩
          · exact absurd hnew List.not_mem_nil
      · rintro ⟨other, hsome, hmarket⟩
        by_cases hid : compiled.metadata.id = id
        · rw [if_pos hid] at hsome
          obtain rfl := Option.some.inj hsome
          exact .inr (by rw [if_pos hmarket, hid]; exact List.mem_singleton.mpr rfl)
        · exact .inl ⟨other, by rwa [if_neg hid] at hsome, hmarket⟩
    · rw [dependenciesOf_store hcompiled]
      split
      · refine List.nodup_append.mpr ⟨h.nodup_dependencies marketId, List.nodup_singleton _, ?_⟩
        rintro id hold _ hnew rfl
        obtain rfl := List.mem_singleton.mp hnew
        obtain ⟨other, hfound, -⟩ := (h.dependencies_iff marketId _).mp hold
        exact hother hfound rfl
      · rw [List.append_nil]
        exact h.nodup_dependencies marketId
  · rw [hsame]
    exact h

theorem consistent_ofDefinitions (definitions : List ConstraintDefinition) :
    (ofDefinitions definitions).Consistent := by
  induction definitions using List.reverseRecOn with
  | nil => exact consistent_empty
  | append_singleton definitions definition ih =>
    rw [ofDefinitions_append]
    exact ih.add definition

/-- A stored constraint stays. -/
theorem find_add {id : ConstraintId} {compiled : CompiledConstraint}
    (h : registry.find id = some compiled) (definition : ConstraintDefinition) :
    (registry.add definition).1.find id = some compiled := by
  rcases add_cases registry definition with ⟨other, -, rfl, hnoId, -, hadd⟩ | ⟨hsame, -⟩
  · have hne : other.metadata.id ≠ id := by
      rintro rfl
      exact nomatch hnoId.symm.trans h
    rw [hadd, find_store, if_neg hne]
    exact h
  · rw [hsame]
    exact h

theorem find_later {before : List ConstraintDefinition} {id : ConstraintId}
    {compiled : CompiledConstraint} (h : (ofDefinitions before).find id = some compiled)
    (later : List ConstraintDefinition) :
    (ofDefinitions (before ++ later)).find id = some compiled := by
  induction later using List.reverseRecOn with
  | nil => rwa [List.append_nil]
  | append_singleton later definition ih =>
    rw [← List.append_assoc, ofDefinitions_append]
    exact find_add ih definition

/-- The keys and the ids of the stored constraints, one for the other. -/
def keyEquiv (h : registry.Consistent) :
    {key : String // (registry.keys[key]?).isSome} ≃
      {id : ConstraintId // (registry.find id).isSome} where
  toFun key := ⟨(registry.keys[key.1]?).get key.2, by
    obtain ⟨compiled, hfind, -⟩ :=
      (h.keys_iff key.1 _).mp (Option.some_get key.2).symm
    rw [hfind]
    rfl⟩
  invFun id := ⟨((registry.find id.1).get id.2).metadata.key, by
    rw [(h.keys_iff _ id.1).mpr ⟨_, (Option.some_get id.2).symm, rfl⟩]
    rfl⟩
  left_inv key := by
    obtain ⟨compiled, hfind, hkey⟩ := (h.keys_iff key.1 _).mp (Option.some_get key.2).symm
    exact Subtype.ext (by simp only [hfind, Option.get_some, hkey])
  right_inv id := by
    have hkey := (h.keys_iff _ id.1).mpr ⟨_, (Option.some_get id.2).symm, rfl⟩
    exact Subtype.ext (by simp only [hkey, Option.get_some])

/-- **The registry is consistent.** After every sequence of additions: the key map is in bijection
with the stored constraints, each under its own key; the dependencies of a market are, without
duplicates, the ids of the constraints that depend on it; an addition that fails changes nothing;
and a definition that has been registered is known from then on, whatever was added since. -/
theorem registry_consistent (definitions : List ConstraintDefinition) :
    (∃ stored : {key : String // ((ofDefinitions definitions).keys[key]?).isSome} ≃
        {id : ConstraintId // ((ofDefinitions definitions).find id).isSome},
      ∀ key, (ofDefinitions definitions).keys[key.1]? = some (stored key).1 ∧
        ((ofDefinitions definitions).find (stored key).1).map
          (fun compiled => compiled.metadata.key) = some key.1) ∧
    (∀ marketId, ((ofDefinitions definitions).dependenciesOf marketId).Nodup ∧
      ∀ id, id ∈ (ofDefinitions definitions).dependenciesOf marketId ↔
        ∃ compiled, (ofDefinitions definitions).find id = some compiled ∧
          marketId ∈ compiled.dependentMarkets) ∧
    (∀ definition, ((ofDefinitions definitions).add definition).2 ≠ .registered →
      ((ofDefinitions definitions).add definition).1 = ofDefinitions definitions) ∧
    (∀ id compiled, (ofDefinitions definitions).find id = some compiled →
      (ofDefinitions definitions).add compiled.metadata =
        (ofDefinitions definitions, .alreadyRegistered)) ∧
    ∀ before definition later, definitions = before ++ definition :: later →
      ((ofDefinitions before).add definition).2 = .registered →
        (ofDefinitions definitions).add definition =
          (ofDefinitions definitions, .alreadyRegistered) := by
  have h := consistent_ofDefinitions definitions
  refine ⟨⟨keyEquiv h, fun key => ?_⟩, fun marketId => ⟨h.nodup_dependencies marketId,
    h.dependencies_iff marketId⟩, fun definition hfailed => ?_,
    fun id compiled hfind => add_of_find h.wellFormed hfind, ?_⟩
  · have hid : (ofDefinitions definitions).keys[key.1]? = some (keyEquiv h key).1 :=
      (Option.some_get key.2).symm
    obtain ⟨compiled, hfind, hkey⟩ := (h.keys_iff _ _).mp hid
    exact ⟨hid, by rw [hfind, Option.map_some, hkey]⟩
  · rcases add_cases (ofDefinitions definitions) definition with
      ⟨_, -, -, -, -, hadd⟩ | ⟨hsame, -⟩
    · rw [hadd] at hfailed
      exact absurd rfl hfailed
    · exact hsame
  · rintro before definition later rfl hregistered
    rcases add_cases (ofDefinitions before) definition with
      ⟨compiled, -, rfl, -, -, hadd⟩ | ⟨-, hrefused⟩
    · have hstored : (ofDefinitions (before ++ [compiled.metadata])).find compiled.metadata.id =
          some compiled := by
        rw [ofDefinitions_append, hadd, find_store, if_pos rfl]
      have hlater := find_later hstored later
      rw [List.append_assoc, List.singleton_append] at hlater
      exact add_of_find h.wellFormed hlater
    · exact absurd hregistered hrefused

end ConstraintRegistry

end EventMarket.Constraint
