import EventMarket.Foundations.IntervalLedger
import EventMarket.Foundations.Yields
import EventMarket.Session.BasketObservation

/-!
# The time accounts of the observation

The observation charges time only when something changes. Its counters refine a ledger of
intervals: every operation on a basket is one move of the ledger, so the durations are the times
during which the basket had each status, with the deadline taking effect exactly when it passes.

## Main definitions

* `Observation.ledger`: the ledger that the counters refine.
* `Observation.Steady`: what holds between two calls.

## Main results

* `unavailable_moves`, `evaluate_moves`: operations on baskets are moves of the ledger.
* `Steady.before`, `Steady.afterEnter`: what the calls preserve.
-/

namespace EventMarket.Session

open Core Foundations Market

/-! ### The ledger -/

/-- Whether a row opens (`true`) or closes an episode of a basket. -/
def EpisodeEvent.kindFor {policy : BasketPolicy} (index : Fin policy.screen.baskets.length) :
    EpisodeEvent policy → Option Bool
  | .opened other _ _ _ _ => if other = index then some true else none
  | .closed other _ _ _ _ _ _ _ _ _ => if other = index then some false else none

/-- The fields of a basket that the ledger shows. -/
def ObservedBasket.accounts (basket : ObservedBasket) :
    BasketStatus × ℤ × (BasketStatus → ℕ) × Bool × ℕ × ℕ :=
  (basket.status, basket.statusSince, basket.durations, basket.active, basket.episodes,
    basket.closedEpisodes)

namespace Observation

variable {policy : BasketPolicy} {self next : Observation policy}
  {index : Fin policy.screen.baskets.length} {time : ℤ}

/-- The accounts that the counters keep. -/
def ledger (self : Observation policy) :
    IntervalLedger (Fin policy.screen.baskets.length) BasketStatus where
  status index := (self.baskets index).status
  since index := (self.baskets index).statusSince
  durations index := (self.baskets index).durations
  active index := (self.baskets index).active
  opened index := (self.baskets index).episodes
  closed index := (self.baskets index).closedEpisodes
  history index := self.events.filterMap (EpisodeEvent.kindFor index)
  running := self.active
  unionSince := self.unionSince
  union := self.positiveUnion

/-- What operations on baskets leave alone. -/
def clock (self : Observation policy) : Option ℤ × Option ℤ × Option ℤ × Bool × Bool :=
  (self.firstTime, self.lastTime, self.deadline, self.expired, self.finished)

/-- A row about a basket goes to the history of that basket. -/
theorem history_append {rows : List (EpisodeEvent policy)} {row : EpisodeEvent policy} {kind : Bool}
    (hrow : ∀ other, EpisodeEvent.kindFor other row = if index = other then some kind else none) :
    (fun other => (rows ++ [row]).filterMap (EpisodeEvent.kindFor other)) =
      Function.update (fun other => rows.filterMap (EpisodeEvent.kindFor other)) index
        (rows.filterMap (EpisodeEvent.kindFor index) ++ [kind]) := by
  funext other
  rw [List.filterMap_append]
  rcases eq_or_ne other index with rfl | hother
  · simp [hrow]
  · simp [hrow, hother, hother.symm]

theorem ledger_setBasket (self : Observation policy) (index : Fin policy.screen.baskets.length)
    (basket : ObservedBasket) : (self.setBasket index basket).ledger =
      { self.ledger with
        status := Function.update self.ledger.status index basket.status
        since := Function.update self.ledger.since index basket.statusSince
        durations := Function.update self.ledger.durations index basket.durations
        active := Function.update self.ledger.active index basket.active
        opened := Function.update self.ledger.opened index basket.episodes
        closed := Function.update self.ledger.closed index basket.closedEpisodes } := by
  unfold setBasket ledger
  simp only [IntervalLedger.mk.injEq, and_true]
  and_intros <;> exact Function.comp_update _ _ _ _

/-- Other fields of a basket may change without notice. -/
theorem ledger_setBasket_of_eq {basket : ObservedBasket}
    (h : ObservedBasket.accounts basket = ObservedBasket.accounts (self.baskets index)) :
    (self.setBasket index basket).ledger = self.ledger := by
  simp only [ObservedBasket.accounts, Prod.mk.injEq] at h
  obtain ⟨hstatus, hsince, hdurations, hactive, hepisodes, hclosed⟩ := h
  rw [ledger_setBasket, hstatus, hsince, hdurations, hactive, hepisodes, hclosed]
  refine IntervalLedger.ext ?_ ?_ ?_ ?_ ?_ ?_ rfl rfl rfl rfl
  all_goals exact Function.update_eq_self _ _

@[simp] theorem clock_setBasket (basket : ObservedBasket) :
    (self.setBasket index basket).clock = self.clock := rfl

/-! ### Operations on baskets -/

/-- An error of a clock that runs backwards. -/
def ClockRegression (error : StudyException) : Prop :=
  error ∈ [.replay "basket observation clock regression" 0,
    .replay "basket interval clock regression" 0, .replay "basket union clock regression" 0]

/-- A computation that does not find a clock running backwards. -/
abbrev Timely {α : Type} (P : α → Prop) (x : Except StudyException α) : Prop :=
  Yields (fun error => ¬ClockRegression error) P x

/-- The accounts have started, and are not ahead of the time. -/
structure Ready (state : Observation policy) (time : ℤ) : Prop where
  started : state.firstTime.isSome = true
  since_le : ∀ index, (state.baskets index).statusSince ≤ time
  union_le : state.unionSince ≤ time

theorem Ready.isNone_eq (h : self.Ready time) : self.firstTime.isNone = false := by
  rw [← Option.not_isSome, h.started]
  rfl

theorem accountTime_timely (h : self.Ready time) (index : Fin policy.screen.baskets.length) :
    Timely (fun next => next.ledger = self.ledger.account index time ∧ next.clock = self.clock)
      (self.accountTime index time) := by
  unfold accountTime
  dsimp only
  rw [h.isNone_eq, if_neg (by simp), if_neg (not_lt.mpr (h.since_le index))]
  refine ⟨?_, rfl⟩
  rw [ledger_setBasket]
  refine IntervalLedger.ext ?_ rfl rfl ?_ ?_ ?_ rfl rfl rfl rfl
  all_goals exact Function.update_eq_self _ _

theorem setStatus_timely (h : self.Ready time) (index : Fin policy.screen.baskets.length)
    (value : BasketStatus) :
    Timely (fun next => next.ledger = self.ledger.setStatus index value time ∧
      next.clock = self.clock) (self.setStatus index value time) := by
  refine Yields.bind (accountTime_timely h index) fun charged _ hcharged => ⟨?_, hcharged.2⟩
  rw [ledger_setBasket, IntervalLedger.setStatus, ← hcharged.1]
  refine IntervalLedger.ext ?_ ?_ ?_ ?_ ?_ ?_ rfl rfl rfl rfl
  · exact congrArg (fun status => Function.update status index value)
      (congrArg IntervalLedger.status hcharged.1)
  all_goals exact Function.update_eq_self _ _

theorem accountUnion_timely (h : self.Ready time) :
    Timely (fun next => next = { self with
      positiveUnion := (self.ledger.accountUnion time).union
      unionSince := time }) (self.accountUnion time) := by
  unfold accountUnion
  rw [h.isNone_eq, if_neg (by simp), if_neg (not_lt.mpr h.union_le)]
  rfl

theorem event_timely (row : EpisodeEvent policy) :
    Timely (fun next => next = { self with events := self.events ++ [row] }) (self.event row) := by
  unfold event
  split_ifs
  · simp [Yields, invalid, ClockRegression]
  · rfl

theorem close_timely (h : self.Ready time) (index : Fin policy.screen.baskets.length)
    (reason : String) (censored : Bool) :
    Timely (fun next => next.ledger = self.ledger.closes index time ∧ next.clock = self.clock)
      (self.close index time reason censored) := by
  by_cases hactive : (self.baskets index).active = true
  · rw [IntervalLedger.closes, if_pos (show self.ledger.active index = true from hactive)]
    simp only [close, hactive, Bool.not_true, Bool.false_eq_true, if_false]
    refine Yields.bind (event_timely _) fun written _ hwritten => ?_
    subst hwritten
    refine Yields.bind (accountUnion_timely ⟨h.started, h.since_le, h.union_le⟩)
      fun charged _ hcharged => ?_
    subst hcharged
    refine ⟨?_, rfl⟩
    rw [ledger_setBasket]
    refine IntervalLedger.ext ?_ ?_ ?_ rfl ?_ rfl (history_append fun other => rfl) rfl rfl rfl
    all_goals exact Function.update_eq_self _ _
  · rw [IntervalLedger.closes, if_neg (show ¬self.ledger.active index = true from hactive)]
    simp only [close, hactive, Bool.not_false, if_true]
    exact ⟨rfl, rfl⟩

theorem openEpisode_timely (h : self.Ready time) (index : Fin policy.screen.baskets.length)
    (value : Witness) :
    Timely (fun next => next.ledger =
      (if self.ledger.active index then self.ledger else self.ledger.opens index time) ∧
        next.clock = self.clock) (self.openEpisode index time value) := by
  by_cases hactive : (self.baskets index).active = true
  · rw [if_pos (show self.ledger.active index = true from hactive)]
    simp only [openEpisode, hactive, if_true]
    exact ⟨rfl, rfl⟩
  · rw [if_neg (show ¬self.ledger.active index = true from hactive)]
    simp only [openEpisode, hactive, Bool.false_eq_true, if_false]
    refine Yields.bind (accountUnion_timely h) fun charged _ hcharged => ?_
    subst hcharged
    refine Yields.bind (event_timely _) fun written _ hwritten => ?_
    subst hwritten
    refine ⟨?_, rfl⟩
    refine IntervalLedger.ext ?_ ?_ ?_ ?_ ?_ ?_ (history_append fun other => rfl) rfl rfl rfl
    all_goals
      funext other
      rcases eq_or_ne other index with rfl | hother
      · simp [ledger, setBasket, IntervalLedger.opens, IntervalLedger.accountUnion]
      · simp [ledger, setBasket, IntervalLedger.opens, IntervalLedger.accountUnion, hother]

/-- The next state is one move of a basket away. -/
def Moved (state : Observation policy) (index : Fin policy.screen.baskets.length)
    (value : BasketStatus) (time : ℤ) (next : Observation policy) : Prop :=
  next.ledger = state.ledger.move .positive index value time ∧ next.clock = state.clock

theorem ready_of_eq (h : self.Ready time) (hclock : next.clock = self.clock)
    (hsince : ∀ index, next.ledger.since index ≤ time) (hunion : next.ledger.unionSince ≤ time) :
    next.Ready time where
  started := by
    rw [show next.firstTime = self.firstTime from congrArg Prod.fst hclock]
    exact h.started
  since_le := hsince
  union_le := hunion

theorem unavailable_moves (h : self.Ready time) (index : Fin policy.screen.baskets.length)
    {reason : BasketStatus} (hreason : reason ≠ .positive) :
    Timely (self.Moved index reason time) (self.unavailable index time reason) := by
  refine Yields.bind (close_timely h index _ _) fun closed _ hclosed => ?_
  have hready : closed.Ready time := by
    refine ready_of_eq h hclosed.2 ?_ ?_
    · rw [hclosed.1, IntervalLedger.closes_since]
      exact h.since_le
    · rw [hclosed.1]
      exact IntervalLedger.closes_unionSince_le h.union_le
  refine Yields.bind (setStatus_timely hready index reason) fun charged _ hcharged => ?_
  refine ⟨?_, hcharged.2.trans hclosed.2⟩
  refine (ledger_setBasket_of_eq ?_).trans ?_
  · rfl
  rw [hcharged.1, hclosed.1, IntervalLedger.move, if_neg hreason]

theorem obstacle_ne {reason : BasketStatus} (h : self.obstacle index = some reason) :
    reason ≠ .positive ∧ reason ≠ .expired := by
  obtain ⟨leg, -, hleg⟩ := List.exists_of_findSome?_eq_some h
  dsimp only at hleg
  split_ifs at hleg
  all_goals
    obtain rfl := Option.some.inj hleg
    exact ⟨by decide, by decide⟩

theorem noteDiagnostic_same (self : Observation policy)
    (index : Fin policy.screen.baskets.length) (diagnostic : Option SizedBasket) (time : ℤ) :
    (self.noteDiagnostic index diagnostic time).ledger = self.ledger ∧
      (self.noteDiagnostic index diagnostic time).clock = self.clock := by
  unfold noteDiagnostic
  cases diagnostic with
  | none => exact ⟨rfl, rfl⟩
  | some quote =>
    dsimp only
    split_ifs
    · exact ⟨ledger_setBasket_of_eq rfl, rfl⟩
    · exact ⟨rfl, rfl⟩

theorem classify_ne_expired (result : BasketSizingResult) : classify result ≠ .expired := by
  unfold classify
  split_ifs <;> decide

theorem classify_eq_positive_iff {result : BasketSizingResult} :
    classify result = .positive ↔ result.quote.isSome = true := by
  unfold classify
  split_ifs <;> simp_all

/-- A quote opens an episode unless one is open; without a quote the episode closes. -/
theorem applyQuote_timely (h : self.Ready time) (index : Fin policy.screen.baskets.length)
    (result : BasketSizingResult) :
    Timely (fun next => next.ledger =
      (if classify result = .positive then
        (if self.ledger.active index then self.ledger else self.ledger.opens index time)
      else self.ledger.closes index time) ∧ next.clock = self.clock)
      (self.applyQuote index time result) := by
  unfold applyQuote
  cases hquote : result.quote with
  | none =>
    rw [if_neg (by rw [classify_eq_positive_iff, hquote]; simp)]
    exact close_timely h index _ _
  | some quote =>
    rw [if_pos (by rw [classify_eq_positive_iff, hquote]; rfl)]
    refine Yields.bind (openEpisode_timely h index _) fun opened _ hopened => ⟨?_, hopened.2⟩
    refine (ledger_setBasket_of_eq ?_).trans hopened.1
    rfl

/-- A quote, or none, is a move to the status that it is classified as. -/
theorem applySizing_moves (h : self.Ready time) (index : Fin policy.screen.baskets.length)
    (result : BasketSizingResult) :
    Timely (self.Moved index (classify result) time) (self.applySizing index time result) := by
  unfold applySizing
  dsimp only
  split_ifs with hresult
  · simp [Yields, invalid, ClockRegression]
  have hnoted := noteDiagnostic_same (self.noteQuantities index result.evaluatedQuantities)
    index result.oneContractDiagnostic time
  generalize (self.noteQuantities index result.evaluatedQuantities).noteDiagnostic index
    result.oneContractDiagnostic time = noted at hnoted ⊢
  have hledger : noted.ledger = self.ledger :=
    hnoted.1.trans (ledger_setBasket_of_eq rfl)
  have hready : noted.Ready time := by
    refine ready_of_eq h hnoted.2 ?_ ?_
    · rw [hledger]
      exact h.since_le
    · rw [hledger]
      exact h.union_le
  refine Yields.bind (applyQuote_timely hready index result) fun quoted _ hquoted => ?_
  rw [hledger] at hquoted
  have hquotedReady : quoted.Ready time := by
    refine ready_of_eq hready hquoted.2 ?_ ?_
    · rw [hquoted.1]
      split_ifs
      · exact h.since_le
      · exact h.since_le
      · rw [IntervalLedger.closes_since]
        exact h.since_le
    · rw [hquoted.1]
      split_ifs
      · exact h.union_le
      · exact le_rfl
      · exact IntervalLedger.closes_unionSince_le h.union_le
  refine Yields.bind (setStatus_timely hquotedReady index (classify result))
    fun charged _ hcharged => ?_
  refine ⟨?_, hcharged.2.trans (hquoted.2.trans hnoted.2)⟩
  refine (ledger_setBasket_of_eq ?_).trans ?_
  · rfl
  rw [hcharged.1, hquoted.1, IntervalLedger.move]
  split_ifs <;> rfl

/-- **An evaluation is a move** to a status other than that of an expired policy. -/
theorem evaluate_moves (h : self.Ready time) (index : Fin policy.screen.baskets.length)
    (budget : ℕ) :
    Timely (fun result => ∃ value, value ≠ .expired ∧ self.Moved index value time result.1)
      (evaluate (self, budget) index time) := by
  unfold evaluate
  dsimp only
  have hledger : (self.noteEvaluation index).ledger = self.ledger :=
    ledger_setBasket_of_eq rfl
  have hclock : (self.noteEvaluation index).clock = self.clock := rfl
  generalize self.noteEvaluation index = noted at hledger hclock ⊢
  have hready : noted.Ready time := by
    refine ready_of_eq h hclock ?_ ?_
    · rw [hledger]
      exact h.since_le
    · rw [hledger]
      exact h.union_le
  have hmoved : ∀ {value next}, noted.Moved index value time next →
      self.Moved index value time next := fun hnext => by
    rw [Moved, ← hledger, ← hclock]
    exact hnext
  cases hobstacle : noted.obstacle index with
  | some reason =>
    obtain ⟨hpositive, hexpired⟩ := obstacle_ne hobstacle
    exact Yields.map ((unavailable_moves hready index hpositive).mono fun next hnext =>
      ⟨reason, hexpired, hmoved hnext⟩)
  | none =>
    dsimp only
    split_ifs
    · simp [Yields, invalid, ClockRegression]
    · exact Yields.map ((applySizing_moves hready index _).mono fun next hnext =>
        ⟨_, classify_ne_expired _, hmoved hnext⟩)

/-! ### Keeping track of the statuses over time -/

/-- The accounts agree with the statuses over time. -/
structure Tracked (trajectory : ℤ → Fin policy.screen.baskets.length → BasketStatus)
    (first now : ℤ) (state : Observation policy) : Prop where
  first_eq : state.firstTime = some first
  accounted : state.ledger.Accounted trajectory .positive first now
  settled : state.ledger.Settled .positive

namespace Tracked

variable {trajectory : ℤ → Fin policy.screen.baskets.length → BasketStatus} {first now later : ℤ}

theorem ready (h : Tracked trajectory first now self) : self.Ready now where
  started := by
    rw [h.first_eq]
    rfl
  since_le := h.accounted.since_le
  union_le := h.accounted.union.le_now

theorem moved (h : Tracked trajectory first now self) {value : BasketStatus}
    (hmoved : self.Moved index value now next) : Tracked trajectory first now next where
  first_eq := (congrArg Prod.fst hmoved.2).trans h.first_eq
  accounted := by
    rw [hmoved.1]
    exact h.accounted.move index value
  settled := by
    rw [hmoved.1]
    exact h.settled.move index value now

theorem advance (h : Tracked trajectory first now self) (hlater : now ≤ later)
    (hconstant : ∀ t, now ≤ t → t < later → trajectory t = self.ledger.status) :
    Tracked trajectory first later self where
  first_eq := h.first_eq
  accounted := h.accounted.advance h.settled hlater hconstant
  settled := h.settled

/-- Making baskets unavailable sets their status and keeps the others. -/
theorem allUnavailable (h : Tracked trajectory first now self)
    (indexes : List (Fin policy.screen.baskets.length)) {reason : BasketStatus}
    (hreason : reason ≠ .positive) :
    Timely (fun next => Tracked trajectory first now next ∧ next.clock = self.clock ∧
      ∀ index, next.ledger.status index = if index ∈ indexes then reason
        else self.ledger.status index) (self.allUnavailable indexes now reason) := by
  refine Yields.foldlM (I := fun done next => Tracked trajectory first now next ∧
    next.clock = self.clock ∧ ∀ index, next.ledger.status index =
      if index ∈ done then reason else self.ledger.status index) ⟨h, rfl, by simp⟩
    fun done index _ state hstate => ?_
  obtain ⟨htracked, hclock, hstatus⟩ := hstate
  refine (unavailable_moves htracked.ready index hreason).mono fun next hmoved => ?_
  refine ⟨htracked.moved hmoved, hmoved.2.trans hclock, fun other => ?_⟩
  rw [hmoved.1, IntervalLedger.move_status]
  rcases eq_or_ne other index with rfl | hother
  · simp
  · simp [hother, hstatus other]

/-- Evaluations do not let baskets expire. -/
theorem evaluateAll (h : Tracked trajectory first now self)
    (hexpired : ∀ index, self.ledger.status index ≠ .expired)
    (indexes : List (Fin policy.screen.baskets.length)) (budget : ℕ) :
    Timely (fun result => Tracked trajectory first now result.1 ∧ result.1.clock = self.clock ∧
      ∀ index, result.1.ledger.status index ≠ .expired)
      (indexes.foldlM (fun state index => evaluate state index now) (self, budget)) := by
  refine Yields.foldlM (I := fun _ (result : Observation policy × ℕ) =>
    Tracked trajectory first now result.1 ∧ result.1.clock = self.clock ∧
      ∀ index, result.1.ledger.status index ≠ .expired) ⟨h, rfl, hexpired⟩
        fun done index _ state hstate => ?_
  obtain ⟨htracked, hclock, hstatus⟩ := hstate
  refine (evaluate_moves htracked.ready index state.2).mono fun result hresult => ?_
  obtain ⟨value, hvalue, hmoved⟩ := hresult
  refine ⟨htracked.moved hmoved, hmoved.2.trans hclock, fun other => ?_⟩
  rw [hmoved.1, IntervalLedger.move_status]
  rcases eq_or_ne other index with rfl | hother
  · rwa [Function.update_self]
  · rw [Function.update_of_ne hother]
    exact hstatus other

end Tracked

/-! ### The calls -/

/-- Whether the policy has expired by a time: it has already, or its deadline has passed. -/
def ExpiredBy (state : Observation policy) (time : ℤ) : Prop :=
  state.expired = true ∨ ∃ deadline ∈ state.deadline, deadline ≤ time

/-- The status of a basket at a time after the last call. -/
def statusNow (self : Observation policy) (time : ℤ) (index : Fin policy.screen.baskets.length) :
    BasketStatus :=
  if self.deadline.any fun deadline => decide (deadline ≤ time) then .expired
  else (self.baskets index).status

/-- **A state between two calls.** The accounts agree with the statuses up to now, the policy has
expired exactly when all baskets have, and its deadline is in the future. -/
structure Steady (trajectory : ℤ → Fin policy.screen.baskets.length → BasketStatus)
    (first now : ℤ) (state : Observation policy) : Prop
    extends Tracked trajectory first now state where
  last_le : ∀ last ∈ state.lastTime, last ≤ now
  expired_iff : ∀ index, state.ledger.status index = .expired ↔ state.expired = true
  deadline_gt : ∀ deadline ∈ state.deadline, now < deadline
  deadline_none : state.expired = true → state.deadline = none
  finished_eq : state.finished = false

theorem statusNow_eq_of_lt (h : ∀ deadline ∈ self.deadline, time < deadline) :
    self.statusNow time = self.ledger.status := by
  funext index
  rw [statusNow, if_neg]
  · rfl
  · cases hdeadline : self.deadline with
    | none => simp
    | some deadline => simpa using h deadline hdeadline

theorem statusNow_eq_expired (h : ∃ deadline ∈ self.deadline, deadline ≤ time) :
    self.statusNow time = fun _ => .expired := by
  obtain ⟨deadline, hdeadline, hle⟩ := h
  funext index
  rw [statusNow, if_pos]
  rw [Option.mem_def.mp hdeadline]
  simpa using hle

namespace Steady

variable {trajectory : ℤ → Fin policy.screen.baskets.length → BasketStatus} {first now later : ℤ}

theorem statusNow_eq_expired_iff (h : Steady trajectory first now self) :
    self.statusNow time index = .expired ↔ self.ExpiredBy time := by
  by_cases hpassed : ∃ deadline ∈ self.deadline, deadline ≤ time
  · rw [statusNow_eq_expired hpassed]
    exact iff_of_true rfl (.inr hpassed)
  · rw [statusNow_eq_of_lt fun deadline hdeadline => lt_of_not_ge fun hle =>
      hpassed ⟨deadline, hdeadline, hle⟩, h.expired_iff, ExpiredBy, or_iff_left hpassed]

/-- Operations that leave the clock alone and let no basket expire. -/
theorem of_tracked (h : Steady trajectory first now self) (hexpired : self.expired = false)
    (htracked : Tracked trajectory first now next) (hclock : next.clock = self.clock)
    (hstatus : ∀ index, next.ledger.status index ≠ .expired) :
    Steady trajectory first now next := by
  simp only [clock, Prod.mk.injEq] at hclock
  obtain ⟨-, hlast, hdeadline, hexpiredEq, hfinished⟩ := hclock
  refine ⟨htracked, ?_, fun index => ?_, ?_, fun hnext => ?_, hfinished.trans h.finished_eq⟩
  · rw [hlast]
    exact h.last_le
  · rw [hexpiredEq, hexpired]
    simpa using hstatus index
  · rw [hdeadline]
    exact h.deadline_gt
  · rw [hexpiredEq, hexpired] at hnext
    cases hnext

/-- **Expiring** charges the time until then and sets every status. -/
theorem expire (h : Tracked trajectory first now self) (hlast : ∀ last ∈ self.lastTime, last ≤ now)
    (hfinished : self.finished = false) :
    Timely (fun next => Steady trajectory first now next ∧ next.expired = true)
      (self.expire now) := by
  have hmarked : Tracked trajectory first now
      ({ self with expired := true, deadline := none } : Observation policy) :=
    ⟨h.first_eq, h.accounted, h.settled⟩
  refine (hmarked.allUnavailable (List.finRange _) (by decide)).mono fun next hnext => ?_
  obtain ⟨htracked, hclock, hstatus⟩ := hnext
  simp only [clock, Prod.mk.injEq] at hclock
  obtain ⟨-, hlastEq, hdeadline, hexpired, hfinishedEq⟩ := hclock
  refine ⟨⟨htracked, ?_, fun index => ?_, ?_, fun _ => hdeadline, hfinishedEq.trans hfinished⟩,
    hexpired⟩
  · rw [hlastEq]
    exact hlast
  · rw [hstatus, if_pos (List.mem_finRange index), hexpired]
    simp
  · rw [hdeadline]
    simp

/-- The clock moves on while the deadline does not pass. -/
theorem advance (h : Steady trajectory first now self) (hlater : now ≤ later)
    (hdeadline : ∀ deadline ∈ self.deadline, later < deadline)
    (hstatus : ∀ t, now ≤ t → t < later → trajectory t = self.statusNow t) :
    Steady trajectory first later self where
  toTracked := h.toTracked.advance hlater fun t hnow ht => by
    rw [hstatus t hnow ht, statusNow_eq_of_lt fun deadline hmem =>
      ht.trans (hdeadline deadline hmem)]
  last_le last hmem := (h.last_le last hmem).trans hlater
  expired_iff := h.expired_iff
  deadline_gt := hdeadline
  deadline_none := h.deadline_none
  finished_eq := h.finished_eq

/-- **Before an input** a deadline that has passed takes effect at its own time. -/
theorem before (h : Steady trajectory first now self) (hlater : now ≤ later) (hnonneg : 0 ≤ later)
    (hstatus : ∀ t, now ≤ t → t < later → trajectory t = self.statusNow t) :
    Timely (fun next => Steady trajectory first later next ∧
      ∀ t, later ≤ t → (next.ExpiredBy t ↔ self.ExpiredBy t)) (self.before later) := by
  unfold Observation.before
  have hlast : ¬(self.lastTime.any fun last => decide (later < last)) = true := by
    cases hlastTime : self.lastTime with
    | none => simp
    | some last => simpa using (h.last_le last hlastTime).trans hlater
  rw [if_neg (not_or.mpr ⟨not_lt.mpr hnonneg, hlast⟩)]
  cases hdeadline : self.deadline with
  | none =>
    exact ⟨h.advance hlater (by simp [hdeadline]) hstatus, fun _ _ => Iff.rfl⟩
  | some deadline =>
    have hgt : now < deadline := h.deadline_gt deadline hdeadline
    have hexpired : self.expired = false := by
      by_contra hexpired
      rw [h.deadline_none (by simpa using hexpired)] at hdeadline
      cases hdeadline
    dsimp only
    split_ifs with hpassed
    · -- The accounts are brought to the deadline first, and then to the time of the call.
      have htracked : Tracked trajectory first deadline self :=
        h.toTracked.advance hgt.le fun t hnow ht => by
          rw [hstatus t hnow (ht.trans_le hpassed.1), statusNow_eq_of_lt]
          intro other hother
          rw [hdeadline] at hother
          obtain rfl := Option.some.inj hother
          exact ht
      refine (expire htracked (fun last hmem => (h.last_le last hmem).trans hgt.le)
        h.finished_eq).mono fun next hnext => ?_
      obtain ⟨hsteady, hnextExpired⟩ := hnext
      have hnone := hsteady.deadline_none hnextExpired
      refine ⟨hsteady.advance hpassed.1 (by simp [hnone]) fun t hdeadlineLe ht => ?_,
        fun t ht => iff_of_true (.inl hnextExpired)
          (.inr ⟨deadline, hdeadline, hpassed.1.trans ht⟩)⟩
      rw [hstatus t (hgt.le.trans hdeadlineLe) ht,
        statusNow_eq_expired ⟨deadline, hdeadline, hdeadlineLe⟩,
          statusNow_eq_of_lt (by simp [hnone])]
      funext index
      exact ((hsteady.expired_iff index).mpr hnextExpired).symm
    · refine ⟨h.advance hlater ?_ hstatus, fun _ _ => Iff.rfl⟩
      intro other hother
      rw [hdeadline] at hother
      obtain rfl := Option.some.inj hother
      exact lt_of_not_ge fun hle => hpassed ⟨hle, hexpired⟩

/-- Noting a later frame leaves the accounts alone. -/
theorem enter (h : Steady trajectory first now self) (frame : ReplayFrame)
    (htime : frame.timeNs = now) : Steady trajectory first now (self.enter frame) ∧
      ∀ t, (self.enter frame).ExpiredBy t ↔ self.ExpiredBy t := by
  have henter : self.enter frame = { self with
      lastTime := some frame.timeNs
      records := self.records + 1
      trades := if frame.trade.isSome then self.trades + 1 else self.trades } := by
    unfold Observation.enter
    rw [if_pos (by rw [h.first_eq]; rfl)]
  rw [henter]
  refine ⟨⟨⟨h.first_eq, h.accounted, h.settled⟩, fun last hlast => ?_, h.expired_iff, h.deadline_gt,
    h.deadline_none, h.finished_eq⟩, fun _ => Iff.rfl⟩
  obtain rfl := Option.some.inj hlast
  exact htime.le

/-- **The first frame starts the accounts.** -/
theorem enter_start (trajectory : ℤ → Fin policy.screen.baskets.length → BasketStatus)
    (frame : ReplayFrame) :
    Steady trajectory frame.timeNs frame.timeNs (({} : Observation policy).enter frame) := by
  refine ⟨⟨rfl, ⟨fun index value => Measures.start _ _ _, Measures.start _ _ _, ?_, fun _ => rfl,
    fun _ => rfl⟩, fun _ => ?_⟩, ?_, fun _ => ?_, ?_, fun _ => rfl, rfl⟩
  · exact (Finset.card_eq_zero.mpr (Finset.filter_eq_empty_iff.mpr fun _ _ => by
      simp [Observation.enter, ledger])).symm
  · simp [Observation.enter, ledger]
  · intro last hlast
    obtain rfl := Option.some.inj hlast
    exact le_rfl
  · simp [Observation.enter, ledger]
  · intro deadline hdeadline
    cases hdeadline

/-- **A frame binds the deadline**: from then on the policy expires when the wall clock of the
frame reaches the end of the window, if not earlier. -/
theorem bindDeadline (h : Steady trajectory first now self) (wall : ℤ) :
    Timely (fun next => Steady trajectory first now next ∧
      ∀ t, now ≤ t → (next.ExpiredBy t ↔
        self.ExpiredBy t ∨ max now (now + (policy.validUntil - wall)) ≤ t))
      (self.bindDeadline now wall) := by
  unfold Observation.bindDeadline
  split_ifs with hexpired hwall
  · exact ⟨h, fun t ht => iff_of_true (.inl hexpired) (.inl (.inl hexpired))⟩
  · refine (expire h.toTracked h.last_le h.finished_eq).mono fun next hnext => ?_
    refine ⟨hnext.1, fun t ht => iff_of_true (.inl hnext.2) (.inr ?_)⟩
    omega
  dsimp only
  split_ifs
  · simp [Yields, invalid, ClockRegression]
  · refine ⟨⟨⟨h.first_eq, h.accounted, h.settled⟩, h.last_le, h.expired_iff, ?_,
      fun hnext => absurd hnext hexpired, h.finished_eq⟩, ?_⟩
    · intro deadline hdeadline
      have hgt := h.deadline_gt
      cases hold : self.deadline with
      | none =>
        rw [hold] at hdeadline
        obtain rfl := Option.some.inj hdeadline
        dsimp only
        omega
      | some old =>
        rw [hold] at hdeadline
        obtain rfl := Option.some.inj hdeadline
        have hold := hgt old hold
        dsimp only
        omega
    · intro t ht
      unfold ExpiredBy
      dsimp only
      cases hold : self.deadline with
      | none =>
        simp only [hexpired, Option.mem_def, Option.some.injEq, exists_eq_left', reduceCtorEq,
          false_and, exists_false, false_or, Bool.false_eq_true]
        omega
      | some old =>
        simp only [hexpired, Option.mem_def, Option.some.injEq, exists_eq_left', false_or,
          Bool.false_eq_true]
        omega

theorem ne_expired (h : Steady trajectory first now self) (hexpired : self.expired = false)
    (index : Fin policy.screen.baskets.length) : self.ledger.status index ≠ .expired := by
  rw [ne_eq, h.expired_iff, hexpired]
  exact Bool.false_ne_true

/-- Making baskets unavailable lets none expire. -/
theorem allUnavailable (h : Steady trajectory first now self) (hexpired : self.expired = false)
    (indexes : List (Fin policy.screen.baskets.length)) :
    Timely (fun next => Steady trajectory first now next ∧ next.clock = self.clock)
      (self.allUnavailable indexes now .unavailable) := by
  refine (h.toTracked.allUnavailable indexes (by decide)).mono fun next hnext => ?_
  obtain ⟨htracked, hclock, hstatus⟩ := hnext
  refine ⟨h.of_tracked hexpired htracked hclock fun index => ?_, hclock⟩
  rw [hstatus]
  split_ifs
  · decide
  · exact h.ne_expired hexpired index

/-- The books of the markets are not part of the accounts. -/
theorem of_same (h : Steady trajectory first now self) (hledger : next.ledger = self.ledger)
    (hclock : next.clock = self.clock) (hexpired : self.expired = false) :
    Steady trajectory first now next := by
  refine h.of_tracked hexpired ⟨?_, ?_, ?_⟩ hclock ?_
  · exact (congrArg Prod.fst hclock).trans h.first_eq
  · rw [hledger]
    exact h.accounted
  · rw [hledger]
    exact h.settled
  · rw [hledger]
    exact h.ne_expired hexpired

theorem bindGeneration (h : Steady trajectory first now self) (hexpired : self.expired = false)
    (state : MarketState) :
    Timely (fun next => Steady trajectory first now next ∧ next.clock = self.clock)
      (self.bindGeneration now state) := by
  unfold Observation.bindGeneration
  split_ifs
  · refine allUnavailable ?_ ?_ _
    · exact h.of_same rfl rfl hexpired
    · exact hexpired
  · exact ⟨h, rfl⟩

/-- **A book update** sizes baskets, or makes them unavailable. -/
theorem bookUpdate (h : Steady trajectory first now self) (hexpired : self.expired = false)
    (frame : ReplayFrame) (htime : frame.timeNs = now) (state : MarketState) :
    Timely (fun next => Steady trajectory first now next ∧ next.clock = self.clock)
      (self.bookUpdate frame state) := by
  unfold Observation.bookUpdate
  split
  · exact ⟨h, rfl⟩
  cases frame.marketId with
  | none => exact ⟨h, rfl⟩
  | some marketId =>
    dsimp only
    rw [htime]
    split
    · simp [Yields, invalid, ClockRegression]
    split
    · unfold rejectUpdate
      split
      · refine allUnavailable ?_ ?_ _
        · exact h.of_same rfl rfl hexpired
        · exact hexpired
      · exact ⟨h, rfl⟩
    · have hcached : Steady trajectory first now
          ({ self.updateCache marketId now state with
            bookUpdates := (self.updateCache marketId now state).bookUpdates + 1 } :
              Observation policy) := h.of_same rfl rfl hexpired
      refine Yields.bind (hcached.toTracked.evaluateAll (hcached.ne_expired hexpired) _ _)
        fun result _ hresult => ?_
      obtain ⟨htracked, hclock, hstatus⟩ := hresult
      exact ⟨(hcached.of_tracked hexpired htracked hclock hstatus).of_same rfl rfl
        ((congrArg (fun clock => clock.2.2.2.1) hclock).trans hexpired), hclock⟩

/-- What follows the note of a frame. -/
theorem afterEnter (h : Steady trajectory first now self) (frame : ReplayFrame)
    (htime : frame.timeNs = now) (wall : ℤ) (state : MarketState) :
    Timely (fun next => Steady trajectory first now next ∧
      ∀ t, now ≤ t → (next.ExpiredBy t ↔
        self.ExpiredBy t ∨ max now (now + (policy.validUntil - wall)) ≤ t))
      ((self.bindDeadline now wall).bind fun self =>
        if self.expired then .ok self
        else (self.bindGeneration now state).bind fun self => self.bookUpdate frame state) := by
  refine Yields.bind (h.bindDeadline wall) fun bound _ hbound => ?_
  obtain ⟨hbound, hby⟩ := hbound
  split
  · exact ⟨hbound, hby⟩
  · rename_i hexpired
    rw [Bool.not_eq_true] at hexpired
    refine Yields.bind (hbound.bindGeneration hexpired state) fun joined _ hjoined => ?_
    obtain ⟨hjoined, hjoinedClock⟩ := hjoined
    have hjoinedExpired : joined.expired = false :=
      (congrArg (fun clock => clock.2.2.2.1) hjoinedClock).trans hexpired
    refine (hjoined.bookUpdate hjoinedExpired frame htime state).mono fun next hnext => ?_
    obtain ⟨hnext, hnextClock⟩ := hnext
    refine ⟨hnext, fun t ht => ?_⟩
    have hclock := hnextClock.trans hjoinedClock
    simp only [clock, Prod.mk.injEq] at hclock
    rw [← hby t ht, ExpiredBy, ExpiredBy, hclock.2.2.1, hclock.2.2.2.1]

end Steady

end Observation

end EventMarket.Session
