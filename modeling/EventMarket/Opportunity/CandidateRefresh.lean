import EventMarket.Market.Generations
import EventMarket.Opportunity.CandidateTracker

/-!
# Incremental refreshes

Evaluating only the candidates of the changed market gives what evaluating all of them gives, over
every run in which the tracker hears of every transition of the market.

## Main definitions

* `CandidateTracker.Indexed`: the index lists for every market its candidates in order.
* `CandidateTracker.Synced`: the quotes of a tracker are those of a state of the market.
* `Names`: the market that a transition names.

## Main results

* `findBook_of_names`: a transition changes no other book, or it changes the connection.
* `CandidateTracker.refresh_same`: one refresh is as good as evaluating everything.
* `refresh_eq_refreshAll`: both trackers report the same over every run.
-/

namespace EventMarket.Opportunity

open Book Constraint Core Foundations Market

/-! ### Transitions of the market -/

/-- The transition names the market. A change of the connection may name any. -/
def Names : ReplicaInput → MarketId → Prop
  | .openConnection _, _ => True
  | .closeConnection _, _ => True
  | .beginRecovery marketId, changed => changed = marketId
  | .deliver (.snapshot snapshot), changed => changed = snapshot.marketId
  | .deliver (.delta delta), changed => changed = delta.marketId

section Transitions

variable {state : MarketState} {changed other : MarketId}

theorem findBook_applySnapshot_ne {snapshot : BookSnapshot}
    (hother : other ≠ snapshot.marketId) :
    (state.applySnapshot snapshot).1.findBook other = state.findBook other ∨
      (state.applySnapshot snapshot).1.connected ≠ state.connected := by
  cases haccepts : state.accepts snapshot.connectionGeneration with
  | false =>
    have hsame := MarketState.apply_of_not_accepts
      (show state.accepts (MarketState.eventGeneration (.snapshot snapshot)) = false from haccepts)
    exact Or.inl (congrArg (fun outcome => outcome.1.findBook other) hsame)
  | true =>
    by_cases happlied : (state.applySnapshot snapshot).2 = .book .applied
    · rcases state.applySnapshot_cases snapshot with ⟨_, _, -, -, -, -, -, hnext⟩ | hrefused
      · rw [hnext]
        exact Or.inl ((MarketState.findBook_insert state _ _ _).trans (if_neg hother))
      · exact absurd happlied hrefused.not_applied
    cases hscope : state.scope with
    | sharedStream =>
      right
      rw [(MarketState.closed_of_snapshot hscope haccepts happlied).1,
        (MarketState.accepts_eq_true haccepts).1]
      exact Bool.false_ne_true
    | perBook =>
      left
      unfold MarketState.applySnapshot MarketState.finish
      simp only [haccepts, hscope, Bool.not_true, Bool.false_eq_true, if_false, false_and,
        reduceCtorEq]
      exact (MarketState.findBook_insert state _ _ _).trans (if_neg hother)

theorem findBook_applyDelta_ne {delta : BookDelta} (hother : other ≠ delta.marketId) :
    (state.applyDelta delta).1.findBook other = state.findBook other ∨
      (state.applyDelta delta).1.connected ≠ state.connected := by
  cases haccepts : state.accepts delta.connectionGeneration with
  | false =>
    have hsame := MarketState.apply_of_not_accepts
      (show state.accepts (MarketState.eventGeneration (.delta delta)) = false from haccepts)
    exact Or.inl (congrArg (fun outcome => outcome.1.findBook other) hsame)
  | true =>
    by_cases happlied : (state.applyDelta delta).2 = .book .applied
    · rcases state.applyDelta_cases delta with
        ⟨_, _, _, _, -, -, -, -, -, -, -, -, -, -, hnext⟩ | hrefused
      · rw [hnext]
        exact Or.inl ((MarketState.findBook_insert state _ _ _).trans (if_neg hother))
      · exact absurd happlied hrefused.not_applied
    cases hscope : state.scope with
    | sharedStream =>
      right
      rw [(MarketState.closed_of_delta hscope haccepts happlied).1,
        (MarketState.accepts_eq_true haccepts).1]
      exact Bool.false_ne_true
    | perBook =>
      left
      unfold MarketState.applyDelta MarketState.finish
      simp only [haccepts, hscope, Bool.not_true, Bool.false_eq_true, if_false, reduceCtorEq]
      cases state.books[delta.marketId]? with
      | none => rfl
      | some book => exact (MarketState.findBook_insert state _ _ _).trans (if_neg hother)

/-- **A transition changes no book but that of the market it names**, or it changes the
connection. -/
theorem findBook_of_names {input : ReplicaInput} (hnames : Names input changed)
    (hgeneration : (stepReplica state input).connectionGeneration = state.connectionGeneration)
    (hconnected : (stepReplica state input).connected = state.connected)
    (hother : other ≠ changed) :
    (stepReplica state input).findBook other = state.findBook other := by
  cases input with
  | openConnection generation =>
    rcases state.openConnection_cases generation with hsame | ⟨next, hnext, -, hcurrent, -, -, -,
      hlt, -⟩
    · rw [stepReplica, hsame]
    · rw [stepReplica, hnext] at hgeneration
      exact absurd (hlt generation (hgeneration.symm.trans hcurrent)) (Nat.lt_irrefl _)
  | closeConnection generation =>
    rcases state.closeConnection_cases generation with ⟨hsame, -⟩ | ⟨hclosed, hopen, -⟩
    · rw [stepReplica, hsame]
    · rw [stepReplica, hclosed, hopen] at hconnected
      exact absurd hconnected Bool.false_ne_true
  | beginRecovery marketId =>
    obtain rfl : changed = marketId := hnames
    show (state.beginRecovery changed).1.findBook other = _
    unfold MarketState.beginRecovery
    split_ifs
    · rfl
    · cases state.books[changed]? with
      | none => rfl
      | some book => exact (MarketState.findBook_insert state _ _ _).trans (if_neg hother)
  | deliver event =>
    cases event with
    | snapshot snapshot =>
      obtain rfl : changed = snapshot.marketId := hnames
      exact (findBook_applySnapshot_ne hother).resolve_right (not_not.mpr hconnected)
    | delta delta =>
      obtain rfl : changed = delta.marketId := hnames
      exact (findBook_applyDelta_ne hother).resolve_right (not_not.mpr hconnected)

end Transitions

/-! ### Quotes -/

/-- The candidate has a leg on the market. -/
def CandidateId.trades (id : CandidateId) (marketId : MarketId) : Bool :=
  (id.legs 0).marketId == marketId || (id.legs 1).marketId == marketId

theorem quote_congr {id : CandidateId} {state next : MarketState}
    (hconnected : next.connected = state.connected)
    (hbooks : ∀ marketId, id.trades marketId = true →
      next.findBook marketId = state.findBook marketId) : quote id next = quote id state := by
  have hfirst : legQuote (id.legs 0) next = legQuote (id.legs 0) state := by
    unfold legQuote
    rw [hbooks _ (by simp [CandidateId.trades])]
  have hsecond : legQuote (id.legs 1) next = legQuote (id.legs 1) state := by
    unfold legQuote
    rw [hbooks _ (by simp [CandidateId.trades])]
  unfold quote
  rw [hconnected, hfirst, hsecond]

/-- The current quote of the entry is the one of the state. -/
def Settled (state : MarketState) (entry : Entry) : Prop :=
  entry.current = (quote entry.id state).toOption

/-- **An evaluated entry has the quote of the state**, and one that had it before has no event. -/
theorem evaluateEntry_spec (entry : Entry) (state : MarketState) :
    (CandidateTracker.evaluateEntry entry state).1.id = entry.id ∧
      Settled state (CandidateTracker.evaluateEntry entry state).1 ∧
      (Settled state entry → CandidateTracker.evaluateEntry entry state = (entry, none)) := by
  unfold CandidateTracker.evaluateEntry Settled
  cases hquote : quote entry.id state with
  | ok current =>
    dsimp only [Except.toOption]
    by_cases hsame : entry.current = some current
    · rw [if_pos hsame]
      exact ⟨rfl, by rw [hquote]; exact hsame, fun _ => rfl⟩
    · rw [if_neg hsame]
      exact ⟨rfl, by rw [hquote], fun h => absurd h hsame⟩
  | error reason =>
    dsimp only [Except.toOption]
    split_ifs with hsome
    · refine ⟨rfl, by rw [hquote], fun h => ?_⟩
      rw [h] at hsome
      exact absurd hsome Bool.false_ne_true
    · exact ⟨rfl, by rw [hquote]; simpa using hsome, fun _ => rfl⟩

namespace CandidateTracker

variable {tracker other : CandidateTracker} {state : MarketState}

/-! ### Evaluating entries -/

/-- The trackers differ at most in how many entries they have evaluated. -/
def Same (tracker other : CandidateTracker) : Prop :=
  { tracker with evaluated := 0 } = { other with evaluated := 0 }

theorem Same.fields (h : Same tracker other) :
    tracker.entries = other.entries ∧ tracker.dependencies = other.dependencies ∧
      tracker.events = other.events ∧ tracker.generation = other.generation ∧
      tracker.connected = other.connected ∧ tracker.activeCount = other.activeCount := by
  simpa [Same] using h

theorem Same.evaluate (h : Same tracker other) (state : MarketState) (index : ℕ) :
    Same (evaluate state tracker index) (evaluate state other index) := by
  obtain ⟨entries, dependencies, events, generation, connected, activeCount, evaluated⟩ := tracker
  obtain ⟨entries', dependencies', events', generation', connected', activeCount', evaluated'⟩ :=
    other
  simp only [Same, mk.injEq, and_true] at h
  obtain ⟨rfl, rfl, rfl, rfl, rfl, rfl⟩ := h
  unfold Same CandidateTracker.evaluate
  dsimp only
  split <;> rfl

/-- Evaluating an entry that is settled changes nothing. -/
theorem evaluate_of_settled {index : ℕ}
    (h : ∀ entry, tracker.entries[index]? = some entry → Settled state entry) :
    Same (evaluate state tracker index) tracker := by
  unfold Same evaluate
  cases hentry : tracker.entries[index]? with
  | none => rfl
  | some entry =>
    dsimp only
    rw [(evaluateEntry_spec entry state).2.2 (h entry hentry)]
    obtain ⟨hlt, rfl⟩ := List.getElem?_eq_some_iff.mp hentry
    simp [countAfter]

theorem getElem?_evaluate (state : MarketState) (tracker : CandidateTracker) (index i : ℕ) :
    (evaluate state tracker index).entries[i]? =
      if index = i then (tracker.entries[i]?).map fun entry => (evaluateEntry entry state).1
      else tracker.entries[i]? := by
  unfold evaluate
  cases hentry : tracker.entries[index]? with
  | none =>
    split_ifs with heq
    · rw [← heq, hentry]
      rfl
    · rfl
  | some entry =>
    dsimp only
    obtain ⟨hlt, rfl⟩ := List.getElem?_eq_some_iff.mp hentry
    rw [List.getElem?_set]
    split_ifs with heq
    · subst heq
      simp [List.getElem?_eq_getElem hlt]
    · rfl

/-- Entries that are settled stay settled. -/
theorem settled_evaluate {i : ℕ}
    (h : ∀ entry, tracker.entries[i]? = some entry → Settled state entry) (index : ℕ) :
    ∀ entry, (evaluate state tracker index).entries[i]? = some entry → Settled state entry := by
  intro entry hentry
  rw [getElem?_evaluate] at hentry
  split_ifs at hentry
  · obtain ⟨old, -, rfl⟩ := Option.map_eq_some_iff.mp hentry
    exact (evaluateEntry_spec old state).2.1
  · exact h entry hentry

/-- **Evaluating only the entries that are not settled.** Skipping settled entries changes
nothing. -/
theorem same_filter (keep : ℕ → Bool) (indices : List ℕ) (h : Same tracker other)
    (hsettled : ∀ i ∈ indices, keep i = false →
      ∀ entry, tracker.entries[i]? = some entry → Settled state entry) :
    Same ((indices.filter keep).foldl (evaluate state) other)
      (indices.foldl (evaluate state) tracker) := by
  induction indices generalizing tracker other with
  | nil => exact h.symm
  | cons index indices ih =>
    have hrest := fun i hi hskip => settled_evaluate
      (hsettled i (List.mem_cons_of_mem _ hi) hskip) index
    cases hkeep : keep index with
    | true =>
      rw [List.filter_cons_of_pos hkeep]
      exact ih (h.evaluate state index) hrest
    | false =>
      rw [List.filter_cons_of_neg (by simp [hkeep])]
      have hsame := evaluate_of_settled (hsettled index List.mem_cons_self hkeep)
      exact ih (hsame.trans h) hrest

theorem ids_foldl (state : MarketState) (indices : List ℕ) (tracker : CandidateTracker) :
    (indices.foldl (evaluate state) tracker).entries.map Entry.id = tracker.entries.map Entry.id ∧
      (indices.foldl (evaluate state) tracker).dependencies = tracker.dependencies ∧
      (indices.foldl (evaluate state) tracker).generation = tracker.generation ∧
      (indices.foldl (evaluate state) tracker).connected = tracker.connected := by
  induction indices generalizing tracker with
  | nil => exact ⟨rfl, rfl, rfl, rfl⟩
  | cons index indices ih =>
    obtain ⟨hids, hdependencies, hgeneration, hconnected⟩ := ih (evaluate state tracker index)
    have hstep : (evaluate state tracker index).entries.map Entry.id =
        tracker.entries.map Entry.id ∧
        (evaluate state tracker index).dependencies = tracker.dependencies ∧
        (evaluate state tracker index).generation = tracker.generation ∧
        (evaluate state tracker index).connected = tracker.connected := by
      refine ⟨List.ext_getElem? fun i => ?_, ?_⟩
      · rw [List.getElem?_map, List.getElem?_map, getElem?_evaluate]
        split_ifs
        · cases tracker.entries[i]? with
          | none => rfl
          | some entry => exact congrArg some (evaluateEntry_spec entry state).1
        · rfl
      · unfold evaluate
        split <;> exact ⟨rfl, rfl, rfl⟩
    exact ⟨hids.trans hstep.1, hdependencies.trans hstep.2.1, hgeneration.trans hstep.2.2.1,
      hconnected.trans hstep.2.2.2⟩

theorem settled_foldl (indices : List ℕ) {i : ℕ}
    (h : i ∈ indices ∨ ∀ entry, tracker.entries[i]? = some entry → Settled state entry) :
    ∀ entry, (indices.foldl (evaluate state) tracker).entries[i]? = some entry →
      Settled state entry := by
  induction indices generalizing tracker with
  | nil => exact h.resolve_left (List.not_mem_nil)
  | cons index indices ih =>
    refine ih ?_
    rcases h with hmem | hsettled
    · rcases List.mem_cons.mp hmem with rfl | hmem
      · refine Or.inr fun entry hentry => ?_
        rw [getElem?_evaluate, if_pos rfl] at hentry
        obtain ⟨old, -, rfl⟩ := Option.map_eq_some_iff.mp hentry
        exact (evaluateEntry_spec old state).2.1
      · exact Or.inl hmem
    · exact Or.inr (settled_evaluate hsettled index)

/-- After evaluating everything every entry is settled. -/
theorem settled_refreshAll (tracker : CandidateTracker) (state : MarketState) :
    ∀ entry ∈ (tracker.refreshAll state).entries, Settled state entry := by
  intro entry hmem
  obtain ⟨i, hentry⟩ := List.mem_iff_getElem?.mp hmem
  have hids := (ids_foldl state (List.range tracker.entries.length) { tracker with
    events := []
    evaluated := 0
    connected := state.connected
    generation := state.connectionGeneration }).1
  have hlt := (List.getElem?_eq_some_iff.mp hentry).1
  have hlength := congrArg List.length hids
  simp only [List.length_map] at hlength
  refine settled_foldl _ (Or.inl (List.mem_range.mpr ?_)) entry hentry
  rw [← hlength]
  exact hlt

/-! ### One refresh -/

/-- The entry at an index trades on the market. -/
def tradesAt (tracker : CandidateTracker) (marketId : MarketId) (index : ℕ) : Bool :=
  (tracker.entries[index]?).any fun entry => entry.id.trades marketId

/-- The index lists for every market its candidates in order. -/
def Indexed (tracker : CandidateTracker) : Prop :=
  ∀ marketId, tracker.dependencies[marketId]?.getD [] =
    (List.range tracker.entries.length).filter (tracker.tradesAt marketId)

/-- The tracker has the connection and the quotes of the state, or it is new. -/
def Synced (tracker : CandidateTracker) (state : MarketState) : Prop :=
  (tracker.generation = state.connectionGeneration ∧ tracker.connected = state.connected ∧
    ∀ entry ∈ tracker.entries, Settled state entry) ∨
  (tracker.connected = false ∧ ∀ entry ∈ tracker.entries, entry.current = none)

/-- In the next state only candidates of the changed market need to be evaluated. -/
theorem Synced.settled_of_not_trades (h : tracker.Synced state) {next : MarketState}
    {changed : MarketId} (hconnected : tracker.connected = next.connected)
    (hbooks : next.connectionGeneration = state.connectionGeneration →
      next.connected = state.connected → ∀ marketId ≠ changed,
        next.findBook marketId = state.findBook marketId)
    (hgeneration : tracker.generation = next.connectionGeneration) {entry : Entry}
    (hmem : entry ∈ tracker.entries) (htrades : entry.id.trades changed = false) :
    Settled next entry := by
  rcases h with ⟨hknown, hopen, hsettled⟩ | ⟨hclosed, hnone⟩
  · have hbooks := hbooks (hgeneration.symm.trans hknown) (hconnected.symm.trans hopen)
    unfold Settled
    rw [quote_congr (hconnected.symm.trans hopen) fun marketId htrade => hbooks marketId ?_]
    · exact hsettled entry hmem
    · rintro rfl
      exact Bool.false_ne_true (htrades.symm.trans htrade)
  · unfold Settled quote
    rw [← hconnected, hclosed, hnone entry hmem]
    rfl

/-- **One refresh is as good as evaluating everything.** -/
theorem refresh_same (hindexed : tracker.Indexed) (h : tracker.Synced state) {next : MarketState}
    {changed : MarketId}
    (hbooks : next.connectionGeneration = state.connectionGeneration →
      next.connected = state.connected → ∀ marketId ≠ changed,
        next.findBook marketId = state.findBook marketId) :
    Same (tracker.refresh changed next) (tracker.refreshAll next) := by
  unfold refresh
  split_ifs with hchanged
  · rfl
  rw [not_or, not_not, not_not] at hchanged
  obtain ⟨hgeneration, hconnected⟩ := hchanged
  unfold refreshAll
  rw [hindexed changed, ← hgeneration, ← hconnected]
  refine same_filter _ _ rfl fun i _ hskip entry hentry => ?_
  have hentry : tracker.entries[i]? = some entry := hentry
  refine h.settled_of_not_trades hconnected hbooks hgeneration (List.mem_of_getElem? hentry) ?_
  simpa [tradesAt, hentry] using hskip

theorem synced_refreshAll (tracker : CandidateTracker) (state : MarketState) :
    (tracker.refreshAll state).Synced state := by
  obtain ⟨-, -, hgeneration, hconnected⟩ := ids_foldl state (List.range tracker.entries.length)
    { tracker with
      events := []
      evaluated := 0
      connected := state.connected
      generation := state.connectionGeneration }
  exact Or.inl ⟨hgeneration, hconnected, settled_refreshAll tracker state⟩

/-- The index is about the identities of the entries. -/
theorem Indexed.congr (h : tracker.Indexed)
    (hids : other.entries.map Entry.id = tracker.entries.map Entry.id)
    (hdependencies : other.dependencies = tracker.dependencies) : other.Indexed := by
  have htrades (marketId : MarketId) : other.tradesAt marketId = tracker.tradesAt marketId := by
    funext i
    have hid := congrArg (fun ids => (ids[i]?).any fun id : CandidateId => id.trades marketId) hids
    simpa [tradesAt, List.getElem?_map, Option.any_map, Function.comp_def] using hid
  intro marketId
  have hlength := congrArg List.length hids
  simp only [List.length_map] at hlength
  rw [htrades, hlength, hdependencies]
  exact h marketId

theorem indexed_refreshAll (h : tracker.Indexed) (state : MarketState) :
    (tracker.refreshAll state).Indexed := by
  obtain ⟨hids, hdependencies, -, -⟩ := ids_foldl state (List.range tracker.entries.length)
    { tracker with
      events := []
      evaluated := 0
      connected := state.connected
      generation := state.connectionGeneration }
  exact h.congr hids hdependencies

theorem Same.indexed (h : Same tracker other) (hindexed : other.Indexed) : tracker.Indexed := by
  obtain ⟨hentries, hdependencies, -⟩ := h.fields
  intro marketId
  unfold tradesAt
  rw [hentries, hdependencies]
  exact hindexed marketId

theorem Same.synced (h : Same tracker other) (hsynced : other.Synced state) :
    tracker.Synced state := by
  obtain ⟨hentries, -, -, hgeneration, hconnected, -⟩ := h.fields
  unfold Synced
  rw [hentries, hgeneration, hconnected]
  exact hsynced

theorem Same.refreshAll (h : Same tracker other) (state : MarketState) :
    tracker.refreshAll state = other.refreshAll state := by
  obtain ⟨entries, dependencies, events, generation, connected, activeCount, evaluated⟩ := tracker
  obtain ⟨entries', dependencies', events', generation', connected', activeCount', evaluated'⟩ :=
    other
  simp only [Same, mk.injEq, and_true] at h
  obtain ⟨rfl, rfl, rfl, rfl, rfl, rfl⟩ := h
  rfl

/-! ### A new tracker -/

/-- A new tracker is indexed and has no quote. -/
structure New (tracker : CandidateTracker) : Prop where
  indexed : tracker.Indexed
  connected : tracker.connected = false
  current : ∀ entry ∈ tracker.entries, entry.current = none

theorem New.synced (h : tracker.New) (state : MarketState) : tracker.Synced state :=
  Or.inr ⟨h.connected, h.current⟩

theorem new_empty : New {} where
  indexed marketId := by simp
  connected := rfl
  current entry hmem := absurd hmem List.not_mem_nil

theorem getD_addDependency (dependencies : Std.TreeMap MarketId (List ℕ)) (index : ℕ)
    (leg : PayoffLegTemplate) (marketId : MarketId) :
    (addDependency dependencies index leg)[marketId]?.getD [] =
      dependencies[marketId]?.getD [] ++ if leg.marketId = marketId then [index] else [] := by
  unfold addDependency
  rw [Std.TreeMap.getElem?_insert]
  by_cases heq : leg.marketId = marketId
  · subst heq
    simp
  · rw [if_neg fun hcompare => heq (Std.LawfulEqCmp.eq_of_compare hcompare), if_neg heq,
      List.append_nil]

/-- A new entry with legs on two markets is indexed. -/
theorem New.addEntry (h : tracker.New) {id : CandidateId}
    (hne : (id.legs 0).marketId ≠ (id.legs 1).marketId) : (tracker.addEntry id).New where
  indexed marketId := by
    have hold : (List.range tracker.entries.length).filter
      ((tracker.addEntry id).tradesAt marketId) =
        (List.range tracker.entries.length).filter (tracker.tradesAt marketId) := by
      refine List.filter_congr fun i hi => ?_
      unfold tradesAt CandidateTracker.addEntry
      rw [List.getElem?_append_left (List.mem_range.mp hi)]
    have hnew : (tracker.addEntry id).tradesAt marketId tracker.entries.length =
        id.trades marketId := by
      simp [tradesAt, CandidateTracker.addEntry]
    have hlength : (tracker.addEntry id).entries.length = tracker.entries.length + 1 := by
      simp [CandidateTracker.addEntry]
    rw [hlength, List.range_succ, List.filter_append, hold, ← h.indexed marketId]
    unfold CandidateTracker.addEntry
    rw [getD_addDependency, getD_addDependency, List.append_assoc]
    congr 1
    have hlast : List.filter ((tracker.addEntry id).tradesAt marketId) [tracker.entries.length] =
        if id.trades marketId then [tracker.entries.length] else [] := by
      rw [← hnew]
      simp [List.filter_cons]
    refine Eq.trans ?_ hlast.symm
    unfold CandidateId.trades
    by_cases hfirst : (id.legs 0).marketId = marketId
    · have hsecond : (id.legs 1).marketId ≠ marketId := fun heq => hne (hfirst.trans heq.symm)
      simp [hfirst, hsecond]
    · simp [hfirst]
  connected := h.connected
  current entry hmem := by
    rcases List.mem_append.mp hmem with hold | hnew
    · exact h.current entry hold
    · rw [List.mem_singleton.mp hnew]

/-- The candidate of a compiled constraint can be added. -/
theorem New.addConstraint (h : tracker.New) (version : ℕ) {compiled : CompiledConstraint}
    (hcompiled : compileConstraint compiled.metadata = .ok compiled) :
    ∃ next, addConstraint version tracker compiled = .ok next ∧ next.New := by
  obtain ⟨portfolio, hportfolio⟩ := constructGuaranteedPortfolio_compiled hcompiled
  obtain ⟨-, -, -, hne, hmade⟩ := compileConstraint_eq_ok hcompiled
  obtain ⟨first, second, hlegs, hmarkets⟩ : ∃ first second,
      compiled.guaranteedLegTemplates = [first, second] ∧ first.marketId ≠ second.marketId := by
    rw [hmade]
    cases hrelationship : compiled.metadata.relationship with
    | implication antecedent consequent =>
      rw [hrelationship] at hne
      exact ⟨_, _, rfl, hne.symm⟩
    | complement left right =>
      rw [hrelationship] at hne
      exact ⟨_, _, rfl, hne⟩
  unfold CandidateTracker.addConstraint
  rw [hlegs, hportfolio]
  refine ⟨_, rfl, h.addEntry ?_⟩
  unfold identity
  dsimp only
  split_ifs
  · exact hmarkets.symm
  · exact hmarkets

/-- **The tracker of a registry can be made**, and it is new. -/
theorem create_spec {version : ℕ} (hversion : version ≠ 0) {constraints : ConstraintRegistry}
    (hconstraints : constraints.WellFormed) :
    ∃ tracker, create version constraints = .ok tracker ∧ tracker.New := by
  unfold create
  rw [if_neg hversion]
  have hall : ∀ compiled ∈ constraints.sortedIds.filterMap constraints.find,
      compileConstraint compiled.metadata = .ok compiled := by
    intro compiled hmem
    obtain ⟨id, -, hfind⟩ := List.mem_filterMap.mp hmem
    exact (hconstraints id compiled hfind).2
  generalize constraints.sortedIds.filterMap constraints.find = items at hall
  suffices hgeneral : ∀ tracker : CandidateTracker, tracker.New →
      ∃ next, items.foldlM (addConstraint version) tracker = .ok next ∧ next.New from
    hgeneral {} new_empty
  induction items with
  | nil => exact fun tracker hnew => ⟨tracker, rfl, hnew⟩
  | cons compiled items ih =>
    intro tracker hnew
    obtain ⟨next, hnext, hnextNew⟩ := hnew.addConstraint version (hall compiled List.mem_cons_self)
    obtain ⟨last, hlast, hlastNew⟩ :=
      ih (fun other hother => hall other (List.mem_cons_of_mem _ hother)) next hnextNew
    exact ⟨last, by rw [List.foldlM_cons, hnext]; exact hlast, hlastNew⟩

end CandidateTracker

/-! ### Runs -/

/-- What a tracker shows after a refresh: its events, the quote of every constraint and how many
are active. -/
structure Report where
  events : List CandidateEvent
  entries : List Entry
  activeCount : ℕ

def CandidateTracker.report (tracker : CandidateTracker) : Report where
  events := tracker.events
  entries := tracker.entries
  activeCount := tracker.activeCount

/-- The reports of a tracker that is refreshed after every transition of the market. -/
def reports (refresh : CandidateTracker → MarketId → MarketState → CandidateTracker) :
    CandidateTracker → MarketState → List (ReplicaInput × MarketId) → List Report
  | _, _, [] => []
  | tracker, state, (input, changed) :: steps =>
    let next := stepReplica state input
    let refreshed := refresh tracker changed next
    refreshed.report :: reports refresh refreshed next steps

theorem reports_eq {tracker other : CandidateTracker} (hsame : CandidateTracker.Same tracker other)
    (hindexed : other.Indexed) {state : MarketState} (hsynced : other.Synced state)
    {steps : List (ReplicaInput × MarketId)} (hsteps : ∀ step ∈ steps, Names step.1 step.2) :
    reports CandidateTracker.refresh tracker state steps =
      reports (fun tracker _ next => tracker.refreshAll next) other state steps := by
  induction steps generalizing tracker other state with
  | nil => rfl
  | cons step steps ih =>
    obtain ⟨input, changed⟩ := step
    have hnames : Names input changed := hsteps _ List.mem_cons_self
    have hnext := CandidateTracker.refresh_same (hsame.indexed hindexed) (hsame.synced hsynced)
      fun hgeneration hconnected marketId hne =>
        findBook_of_names hnames hgeneration hconnected hne
    rw [hsame.refreshAll] at hnext
    obtain ⟨hentries, -, hevents, -, -, hcount⟩ := hnext.fields
    unfold reports
    dsimp only
    congr 1
    · simp only [CandidateTracker.report, hentries, hevents, hcount]
    · exact ih hnext (CandidateTracker.indexed_refreshAll hindexed _)
        (CandidateTracker.synced_refreshAll other _)
        fun step hmem => hsteps step (List.mem_cons_of_mem _ hmem)

/-- **Incremental tracking equals a full scan.** For every registry of constraints and every run
of transitions, each of which is followed by a refresh with the market it names, the tracker
reports the same events, quotes and count at every step as one that evaluates everything. -/
theorem refresh_eq_refreshAll (definitions : List ConstraintDefinition) {version : ℕ}
    (hversion : version ≠ 0) (state : MarketState) {steps : List (ReplicaInput × MarketId)}
    (hsteps : ∀ step ∈ steps, Names step.1 step.2) :
    ∃ tracker, CandidateTracker.create version (.ofDefinitions definitions) = .ok tracker ∧
      reports CandidateTracker.refresh tracker state steps =
        reports (fun tracker _ next => tracker.refreshAll next) tracker state steps := by
  obtain ⟨tracker, hcreate, hnew⟩ := CandidateTracker.create_spec hversion
    (ConstraintRegistry.wellFormed_ofDefinitions definitions)
  exact ⟨tracker, hcreate, reports_eq rfl hnew.indexed (hnew.synced state) hsteps⟩

/-! ### A small run -/

/-- A connection is opened, both books are reported, and the connection is closed. -/
def sampleSteps : List (ReplicaInput × MarketId) :=
  [(.openConnection 1, 3),
    (.deliver (.snapshot ⟨1, 1, 1, 1, 0, [], [⟨.capped 4000, .capped 100⟩]⟩), 1),
    (.deliver (.snapshot ⟨2, 1, 2, 1, 0, [], [⟨.capped 5000, .capped 300⟩]⟩), 2),
    (.closeConnection 1, 5)]

theorem refresh_eq_refreshAll_sample :
    ∃ tracker, CandidateTracker.create 1 (.ofDefinitions [⟨1, 1, "k", "p", .complement 1 2⟩]) =
        .ok tracker ∧
      reports CandidateTracker.refresh tracker {} sampleSteps =
        reports (fun tracker _ next => tracker.refreshAll next) tracker {} sampleSteps := by
  refine refresh_eq_refreshAll _ (by decide) {} fun step hmem => ?_
  fin_cases hmem <;> simp [Names]

end EventMarket.Opportunity
