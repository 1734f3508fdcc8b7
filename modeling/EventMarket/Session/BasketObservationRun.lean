import EventMarket.Session.BasketObservationTime

/-!
# The time accounts over whole runs

## Main definitions

* `Observation.statusAt`: the status of a basket at any time of a run.
* `ObserverCall.expiry`: the time from which a frame lets the policy expire.
* `TimeAccounting`: what the counters say at the end.

## Main results

* `observation_time_accounting`: the counters of every run are the times of the statuses.
-/

namespace EventMarket.Session

open Core Foundations Market

/-- The time from which a frame lets the policy expire. -/
def ObserverCall.expiry (policy : BasketPolicy) : ObserverCall → Option ℤ
  | .before _ _ => none
  | .after frame _ => frame.observedWallNs.map fun wall =>
    max frame.timeNs (frame.timeNs + (policy.validUntil - wall))

namespace Observation

variable {policy : BasketPolicy} {self : Observation policy} {calls past : List ObserverCall}
  {trajectory : ℤ → Fin policy.screen.baskets.length → BasketStatus} {first now finishTime : ℤ}

/-- **The status of a basket at a time of a run**: that after the calls up to then. -/
def statusAt (policy : BasketPolicy) (calls : List ObserverCall) (time : ℤ)
    (index : Fin policy.screen.baskets.length) : BasketStatus :=
  match runExcept step ({} : Observation policy) (upTo calls time) with
  | .ok state => state.statusNow time index
  | .error _ => .unavailable

/-- What holds after the calls of the past. -/
structure Tracks (trajectory : ℤ → Fin policy.screen.baskets.length → BasketStatus)
    (past : List ObserverCall) (state : Observation policy) : Prop where
  expiredBy_iff : ∀ t, (∀ call ∈ past, call.time ≤ t) →
    (state.ExpiredBy t ↔ ∃ call ∈ past, ∃ expiry ∈ call.expiry policy, expiry ≤ t)
  steady : state = {} ∨ ∃ first, ∃ last ∈ past, (∀ call ∈ past, call.time ≤ last.time) ∧
    Steady trajectory first last.time state

theorem not_expiredBy_start (t : ℤ) : ¬({} : Observation policy).ExpiredBy t := by
  rintro (hexpired | ⟨deadline, hdeadline, -⟩)
  · cases hexpired
  · cases hdeadline

/-- A frame once the clock has been brought to its time. -/
theorem Steady.afterBefore {frame : ReplayFrame}
    (h : Steady trajectory first frame.timeNs (self.enter frame)) (state : MarketState) :
    Timely (fun next => Steady trajectory first frame.timeNs next ∧
      ∀ t, frame.timeNs ≤ t → (next.ExpiredBy t ↔ (self.enter frame).ExpiredBy t ∨
        ∃ expiry ∈ (ObserverCall.after frame state).expiry policy, expiry ≤ t))
      (match frame.observedWallNs with
        | none => invalid "basket policy wall-clock binding"
        | some wall =>
          if self.finished ∨ wall < policy.validFrom then invalid "basket policy wall-clock binding"
          else ((self.enter frame).bindDeadline frame.timeNs wall).bind fun self =>
            if self.expired then .ok self
            else (self.bindGeneration frame.timeNs state).bind fun self =>
              self.bookUpdate frame state) := by
  cases hwall : frame.observedWallNs with
  | none => simp [Yields, invalid, ClockRegression]
  | some wall =>
    dsimp only
    split
    · simp [Yields, invalid, ClockRegression]
    refine (h.afterEnter frame rfl wall state).mono fun next hnext => ⟨hnext.1, fun t ht => ?_⟩
    rw [hnext.2 t ht]
    simp [ObserverCall.expiry, hwall]

theorem Steady.after (h : Steady trajectory first now self) (frame : ReplayFrame)
    (hlater : now ≤ frame.timeNs) (hnonneg : 0 ≤ frame.timeNs)
    (hstatus : ∀ t, now ≤ t → t < frame.timeNs → trajectory t = self.statusNow t)
    (state : MarketState) :
    Timely (fun next => Steady trajectory first frame.timeNs next ∧
      ∀ t, frame.timeNs ≤ t → (next.ExpiredBy t ↔ self.ExpiredBy t ∨
        ∃ expiry ∈ (ObserverCall.after frame state).expiry policy, expiry ≤ t))
      (self.after frame state) := by
  refine Yields.bind (h.before hlater hnonneg hstatus) fun reached _ hreached => ?_
  obtain ⟨hentered, henteredBy⟩ := hreached.1.enter frame rfl
  refine (hentered.afterBefore state).mono fun next hnext => ⟨hnext.1, fun t ht => ?_⟩
  rw [hnext.2 t ht, henteredBy, hreached.2 t ht]

theorem before_start {time : ℤ} (hnonneg : 0 ≤ time) :
    ({} : Observation policy).before time = .ok {} := by
  unfold Observation.before
  rw [if_neg (by simpa using hnonneg)]

theorem after_start (frame : ReplayFrame) (hnonneg : 0 ≤ frame.timeNs) (state : MarketState) :
    Timely (fun next => Steady trajectory frame.timeNs frame.timeNs next ∧
      ∀ t, frame.timeNs ≤ t → (next.ExpiredBy t ↔
        ∃ expiry ∈ (ObserverCall.after frame state).expiry policy, expiry ≤ t))
      (({} : Observation policy).after frame state) := by
  unfold Observation.after
  rw [before_start hnonneg]
  refine ((Steady.enter_start trajectory frame).afterBefore state).mono fun next hnext =>
    ⟨hnext.1, fun t ht => ?_⟩
  rw [hnext.2 t ht, or_iff_right (show ¬(({} : Observation policy).enter frame).ExpiredBy t from
    @not_expiredBy_start policy t)]

/-- Between two calls the statuses are those of the state after the first one. -/
theorem statusAt_eq_statusNow {later : List ObserverCall} {time : ℤ}
    (hrun : runExcept step ({} : Observation policy) past = .ok self)
    (hpast : ∀ call ∈ past, call.time ≤ time) (hlater : ∀ call ∈ later, time < call.time) :
    statusAt policy (past ++ later) time = self.statusNow time := by
  funext index
  rw [statusAt, upTo_eq_past hpast hlater, hrun]

/-- What one call does. -/
theorem Tracks.call {call : ObserverCall} (h : Tracks trajectory past self)
    (hnonneg : 0 ≤ call.time) (hpast : ∀ earlier ∈ past, earlier.time ≤ call.time)
    (hstatus : ∀ t, (∀ earlier ∈ past, earlier.time ≤ t) → t < call.time →
      trajectory t = self.statusNow t) :
    Timely (fun next => (next = {} ∨ ∃ first, Steady trajectory first call.time next) ∧
      ∀ t, call.time ≤ t → (next.ExpiredBy t ↔ self.ExpiredBy t ∨
        ∃ expiry ∈ call.expiry policy, expiry ≤ t)) (self.step call) := by
  rcases h.steady with rfl | ⟨first, last, hlast, hmax, hsteady⟩
  · cases call with
    | before time state =>
      rw [step, before_start (show 0 ≤ time from hnonneg)]
      exact ⟨.inl rfl, fun t _ => by simp [ObserverCall.expiry]⟩
    | after frame state =>
      refine (after_start frame hnonneg state).mono fun next hnext => ⟨.inr ⟨_, hnext.1⟩, ?_⟩
      intro t ht
      rw [hnext.2 t ht, or_iff_right (not_expiredBy_start t)]
  · have hnow : ∀ t, last.time ≤ t → t < call.time → trajectory t = self.statusNow t :=
      fun t hle hlt => hstatus t (fun earlier hmem => (hmax earlier hmem).trans hle) hlt
    cases call with
    | before time state =>
      refine (hsteady.before (hpast last hlast) hnonneg hnow).mono fun next hnext =>
        ⟨.inr ⟨_, hnext.1⟩, fun t ht => ?_⟩
      rw [hnext.2 t ht]
      simp [ObserverCall.expiry]
    | after frame state =>
      exact (hsteady.after frame (hpast last hlast) hnonneg hnow state).mono fun next hnext =>
        ⟨.inr ⟨_, hnext.1⟩, hnext.2⟩

/-- **Every run keeps track of its statuses.** -/
theorem run_tracks (horder : InOrder calls) :
    Timely (Tracks (statusAt policy calls) calls)
      (runExcept step ({} : Observation policy) calls) := by
  refine Yields.runExcept (I := fun past state => Tracks (statusAt policy calls) past state)
    ⟨fun t _ => by simp [not_expiredBy_start], .inl rfl⟩
    fun past call later state hcalls hrun htracks => ?_
  subst hcalls
  have hpast := horder.past_le
  refine (htracks.call horder.time_nonneg hpast fun t hle hlt =>
    statusAt_eq_statusNow hrun hle ?_).mono fun next hnext => ⟨fun t ht => ?_, ?_⟩
  · intro other hother
    rcases List.mem_cons.mp hother with rfl | hother
    · exact hlt
    · exact hlt.trans_le (horder.le_later other hother)
  · have hcall := ht call (by simp)
    rw [hnext.2 t hcall, htracks.expiredBy_iff t fun earlier hmem =>
      (hpast earlier hmem).trans hcall]
    simp [or_and_right, exists_or]
  · refine hnext.1.imp_right fun ⟨first, hsteady⟩ => ⟨first, call, by simp, ?_, hsteady⟩
    intro earlier hearlier
    rcases List.mem_append.mp hearlier with hmem | hmem
    · exact hpast earlier hmem
    · rw [List.mem_singleton.mp hmem]

/-! ### The end of the observation -/

theorem finishBasket_timely (h : self.Ready finishTime)
    (index : Fin policy.screen.baskets.length) :
    Timely (fun next => next.ledger =
      (self.ledger.closes index finishTime).account index finishTime ∧
      next.clock = self.clock) (finishBasket finishTime self index) := by
  refine Yields.bind (close_timely h index _ _) fun closed _ hclosed => ?_
  have hready : closed.Ready finishTime := by
    refine ready_of_eq h hclosed.2 ?_ ?_
    · rw [hclosed.1, IntervalLedger.closes_since]
      exact h.since_le
    · rw [hclosed.1]
      exact IntervalLedger.closes_unionSince_le h.union_le
  refine (accountTime_timely hready index).mono fun next hnext => ?_
  exact ⟨hnext.1.trans (by rw [hclosed.1]), hnext.2.trans hclosed.2⟩

/-- The accounts at the end: everything is charged, and nothing is active. -/
structure Charged (trajectory : ℤ → Fin policy.screen.baskets.length → BasketStatus)
    (first now : ℤ) (state : Observation policy) : Prop where
  first_eq : state.firstTime = some first
  accounted : state.ledger.Accounted trajectory .positive first now
  since_eq : ∀ index, state.ledger.since index = now
  inactive : ∀ index, state.ledger.active index = false
  unionSince_eq : state.ledger.unionSince = now

/-- **The end charges everything.** -/
theorem Steady.finish (h : Steady trajectory first now self) (hlater : now ≤ finishTime)
    (hnonneg : 0 ≤ finishTime)
    (hstatus : ∀ t, now ≤ t → t < finishTime → trajectory t = self.statusNow t) :
    Timely (Charged trajectory first finishTime) (self.finish finishTime) := by
  unfold Observation.finish
  rw [h.finished_eq, if_neg (by simp)]
  refine Yields.bind (h.before hlater hnonneg hstatus) fun reached _ hreached => ?_
  have hstart := hreached.1
  refine Yields.bind (Yields.foldlM (I := fun done state => state.firstTime = some first ∧
    state.ledger.Accounted trajectory .positive first finishTime ∧
      ∀ index ∈ done, state.ledger.since index = finishTime ∧ state.ledger.active index = false)
    ⟨hstart.first_eq, hstart.accounted, by simp⟩ fun done index _ state hstate => ?_)
    fun closed _ hclosed => ?_
  · obtain ⟨hfirst, haccounted, hdone⟩ := hstate
    have hready : state.Ready finishTime :=
      ⟨by rw [hfirst]; rfl, haccounted.since_le, haccounted.union.le_now⟩
    refine (finishBasket_timely hready index).mono fun next hnext => ?_
    refine ⟨(congrArg Prod.fst hnext.2).trans hfirst, ?_, fun other hother => ?_⟩
    · rw [hnext.1]
      exact (haccounted.closes index).account index
    · have hsince : next.ledger.since = Function.update state.ledger.since index finishTime := by
        rw [hnext.1, IntervalLedger.account, IntervalLedger.closes_since]
      have hactive : next.ledger.active = Function.update state.ledger.active index false := by
        rw [hnext.1, IntervalLedger.account, IntervalLedger.closes_active]
      rw [hsince, hactive]
      rcases eq_or_ne other index with rfl | hne
      · simp
      · rw [Function.update_of_ne hne, Function.update_of_ne hne]
        exact hdone other (by simpa [hne] using hother)
  · obtain ⟨hfirst, haccounted, hdone⟩ := hclosed
    have hready : closed.Ready finishTime :=
      ⟨by rw [hfirst]; rfl, haccounted.since_le, haccounted.union.le_now⟩
    refine Yields.bind (accountUnion_timely hready) fun charged _ hcharged => ?_
    subst hcharged
    have hunion := haccounted.accountUnion
    exact ⟨hfirst, ⟨hunion.measured, hunion.union, hunion.running_eq, hunion.opened_eq,
      hunion.history_eq⟩, fun index => (hdone index (List.mem_finRange index)).1,
      fun index => (hdone index (List.mem_finRange index)).2, rfl⟩

/-- Without a frame nothing is charged. -/
theorem finish_start (hnonneg : 0 ≤ finishTime) :
    ({} : Observation policy).finish finishTime =
      .ok { lastTime := some finishTime, finished := true } := by
  have hloop : ∀ indexes : List (Fin policy.screen.baskets.length),
      indexes.foldlM (finishBasket finishTime) ({} : Observation policy) = .ok {} := by
    intro indexes
    induction indexes with
    | nil => rfl
    | cons index indexes ih => exact ih
  unfold Observation.finish
  rw [if_neg (by simp), before_start hnonneg]
  change Except.bind (List.foldlM (finishBasket finishTime) {} (List.finRange _)) _ = _
  rw [hloop]
  rfl

/-! ### What the counters say -/

/-- The openings (`true`) and closings (`false`) written about a basket. -/
def episodeKinds (self : Observation policy) (index : Fin policy.screen.baskets.length) :
    List Bool :=
  self.events.filterMap (EpisodeEvent.kindFor index)

/-- Openings and closings alternate, starting with an opening, and are counted. -/
def Alternates (self : Observation policy) : Prop :=
  ∀ index, self.episodeKinds index =
      (List.range (self.episodeKinds index).length).map (fun place => place % 2 == 0) ∧
    (self.episodeKinds index).count true = (self.baskets index).episodes ∧
    (self.episodeKinds index).count false = (self.baskets index).closedEpisodes

theorem alternates_of_accounted (h : self.ledger.Accounted trajectory .positive first now) :
    self.Alternates := by
  intro index
  have hkinds : self.episodeKinds index = _ := h.history_eq index
  refine ⟨?_, h.count_history index⟩
  rw [hkinds]
  simp

theorem Tracks.alternates (h : Tracks trajectory past self) : self.Alternates := by
  rcases h.steady with rfl | ⟨first, last, -, -, hsteady⟩
  · exact fun _ => ⟨rfl, rfl, rfl⟩
  · exact alternates_of_accounted hsteady.accounted

theorem Tracks.settled (h : Tracks trajectory past self)
    (index : Fin policy.screen.baskets.length) :
    (self.baskets index).active = true ↔ (self.baskets index).status = .positive := by
  rcases h.steady with rfl | ⟨first, last, -, -, hsteady⟩
  · simp
  · exact hsteady.settled index

end Observation

open Observation in
/-- What the counters say at the end of a run: the durations are the times during which the baskets
had their statuses, and the union is the time during which some basket was positive. -/
structure TimeAccounting (policy : BasketPolicy) (calls : List ObserverCall)
    (first finishTime : ℤ) (final : Observation policy) : Prop where
  durations_eq : ∀ index value, (final.baskets index).durations value =
    heldTime (fun t => statusAt policy calls t index = value) first finishTime
  durations_sum : ∀ index,
    ((∑ value, (final.baskets index).durations value : ℕ) : ℤ) = finishTime - first
  union_eq : final.positiveUnion =
    heldTime (fun t => ∃ index, statusAt policy calls t index = .positive) first finishTime
  positive_le_union : ∀ index, (final.baskets index).durations .positive ≤ final.positiveUnion
  union_le_total : (final.positiveUnion : ℤ) ≤ finishTime - first
  union_le_sum : final.positiveUnion ≤ ∑ index, (final.baskets index).durations .positive

namespace Observation

variable {policy : BasketPolicy} {self final : Observation policy} {calls past : List ObserverCall}
  {trajectory : ℤ → Fin policy.screen.baskets.length → BasketStatus} {first finishTime : ℤ}

theorem Charged.timeAccounting
    (h : Charged (statusAt policy calls) first finishTime final) :
    TimeAccounting policy calls first finishTime final := by
  have hdurations : ∀ index value, (final.baskets index).durations value =
      heldTime (fun t => statusAt policy calls t index = value) first finishTime := by
    intro index value
    have htotal := (h.accounted.measured index value).total_eq
    rwa [h.since_eq index] at htotal
  have hunion : final.positiveUnion =
      heldTime (fun t => ∃ index, statusAt policy calls t index = .positive) first finishTime := by
    have htotal := h.accounted.union.total_eq
    rwa [h.unionSince_eq] at htotal
  refine ⟨hdurations, fun index => h.accounted.sum_durations (h.since_eq index), hunion,
    fun index => ?_, ?_, ?_⟩
  · rw [hdurations, hunion]
    exact heldTime_mono fun t _ _ ht => ⟨index, ht⟩
  · rw [hunion, ← Int.toNat_of_nonneg (sub_nonneg.mpr h.accounted.first_le)]
    exact_mod_cast heldTime_le
  · rw [hunion, Finset.sum_congr rfl fun index _ => hdurations index .positive]
    exact heldTime_exists_le_sum fun index t => statusAt policy calls t index = .positive

theorem Tracks.statusNow_eq_expired_iff (h : Tracks trajectory past self) {time : ℤ}
    {index : Fin policy.screen.baskets.length} :
    self.statusNow time index = .expired ↔ self.ExpiredBy time := by
  rcases h.steady with rfl | ⟨first, last, -, -, hsteady⟩
  · refine iff_of_false ?_ (not_expiredBy_start time)
    simp [statusNow]
  · exact hsteady.statusNow_eq_expired_iff

/-- **When the policy has expired.** A basket is expired from the earliest time at which a frame
lets the policy expire, whether or not there is a call at that time. -/
theorem statusAt_eq_expired_iff (horder : InOrder calls)
    (hrun : runExcept step ({} : Observation policy) calls = .ok self) (time : ℤ)
    (index : Fin policy.screen.baskets.length) :
    statusAt policy calls time index = .expired ↔
      ∃ call ∈ calls, ∃ expiry ∈ call.expiry policy, expiry ≤ time := by
  obtain ⟨past, later, rfl, hpast, hlater⟩ := horder.exists_split time
  rw [runExcept_append] at hrun
  obtain ⟨reached, hreached, -⟩ := bind_eq_ok hrun
  have htracks := (run_tracks horder.of_append).of_ok hreached
  rw [statusAt_eq_statusNow hreached hpast hlater, htracks.statusNow_eq_expired_iff,
    htracks.expiredBy_iff time hpast]
  constructor
  · rintro ⟨call, hcall, hexpiry⟩
    exact ⟨call, List.mem_append_left _ hcall, hexpiry⟩
  · rintro ⟨call, hcall, expiry, hexpiry, hle⟩
    rcases List.mem_append.mp hcall with hcall | hcall
    · exact ⟨call, hcall, expiry, hexpiry, hle⟩
    · -- A frame lets the policy expire at its own time at the earliest.
      exfalso
      have hlt := hlater call hcall
      cases call with
      | before time state => cases hexpiry
      | after frame state =>
        obtain ⟨wall, -, rfl⟩ := Option.map_eq_some_iff.mp hexpiry
        exact absurd ((le_max_left _ _).trans hle) (not_le.mpr hlt)

/-- A deadline is the time from which some frame lets the policy expire. -/
theorem Tracks.expiry_of_deadline (h : Tracks trajectory past self) {deadline : ℤ}
    (hdeadline : deadline ∈ self.deadline) :
    ∃ call ∈ past, ∃ expiry ∈ call.expiry policy, expiry ≤ deadline := by
  refine (h.expiredBy_iff deadline ?_).mp (.inr ⟨deadline, hdeadline, le_rfl⟩)
  rcases h.steady with rfl | ⟨first, last, -, hmax, hsteady⟩
  · cases hdeadline
  · exact fun call hcall => (hmax call hcall).trans (hsteady.deadline_gt deadline hdeadline).le

/-- **A deadline never moves later.** What lets the policy expire by a time has done so in every
later state. -/
theorem Tracks.expiredBy_of_expiry (h : Tracks trajectory past self) {deadline : ℤ}
    (hfinish : ∀ call ∈ past, call.time ≤ finishTime)
    (hexpiry : ∃ call ∈ past, ∃ expiry ∈ call.expiry policy, expiry ≤ deadline) :
    self.ExpiredBy deadline := by
  obtain ⟨call, hcall, expiry, hmem, hle⟩ := hexpiry
  have hby : ∀ t, (∀ call ∈ past, call.time ≤ t) → deadline ≤ t → self.ExpiredBy t :=
    fun t ht hdeadline =>
      (h.expiredBy_iff t ht).mpr ⟨call, hcall, expiry, hmem, hle.trans hdeadline⟩
  rcases h.steady with rfl | ⟨first, last, -, hmax, hsteady⟩
  · exact absurd (hby (max deadline finishTime) (fun call hcall =>
      (hfinish call hcall).trans (le_max_right _ _)) (le_max_left _ _)) (not_expiredBy_start _)
  · rcases le_or_gt last.time deadline with hle | hlt
    · exact hby deadline (fun call hcall => (hmax call hcall).trans hle) le_rfl
    · rcases hby last.time hmax hlt.le with hexpired | ⟨other, hother, hotherLe⟩
      · exact .inl hexpired
      · exact absurd hotherLe (not_le.mpr (hsteady.deadline_gt other hother))

end Observation

open Observation in
/-- **The time accounts of an observation.** For calls in the order of their times, no clock is
found to run backwards. When no other error stops the observation, a basket is active exactly
while its status is positive, the deadline takes effect at its own time and never moves later, and
at the end the counters are the times of the statuses and the episodes are all closed. -/
theorem observation_time_accounting {policy : BasketPolicy} {calls : List ObserverCall}
    {finishTime : ℤ} (horder : InOrder calls) (hnonneg : 0 ≤ finishTime)
    (hfinish : ∀ call ∈ calls, call.time ≤ finishTime) :
    (∀ error, runExcept step ({} : Observation policy) calls = .error error →
      ¬ClockRegression error) ∧
    ∀ state, runExcept step ({} : Observation policy) calls = .ok state →
      (∀ index, (state.baskets index).active = true ↔ (state.baskets index).status = .positive) ∧
      state.Alternates ∧
      (∀ time index, statusAt policy calls time index = .expired ↔
        ∃ call ∈ calls, ∃ expiry ∈ call.expiry policy, expiry ≤ time) ∧
      (∀ past later earlier, calls = past ++ later →
        runExcept step ({} : Observation policy) past = .ok earlier →
        ∀ deadline ∈ earlier.deadline,
          (state.expired = true ∨ ∃ last ∈ state.deadline, last ≤ deadline) ∧
          ∀ time index, deadline ≤ time → statusAt policy calls time index = .expired) ∧
      (∀ error, state.finish finishTime = .error error → ¬ClockRegression error) ∧
      ∀ final, state.finish finishTime = .ok final →
        (∀ first, final.firstTime = some first →
          TimeAccounting policy calls first finishTime final) ∧
        final.Alternates ∧
        ∀ index, (final.baskets index).episodes = (final.baskets index).closedEpisodes := by
  have hruns := @run_tracks policy calls horder
  refine ⟨fun error herror => hruns.of_error herror, fun state hstate => ?_⟩
  have htracks := hruns.of_ok hstate
  refine ⟨htracks.settled, htracks.alternates, statusAt_eq_expired_iff horder hstate, ?_, ?_⟩
  · rintro past later earlier rfl hearlier deadline hdeadline
    obtain ⟨call, hcall, expiry, hexpiry, hle⟩ :=
      ((run_tracks horder.of_append).of_ok hearlier).expiry_of_deadline hdeadline
    have hmem := List.mem_append_left later hcall
    refine ⟨htracks.expiredBy_of_expiry hfinish ⟨call, hmem, expiry, hexpiry, hle⟩,
      fun time index htime => ?_⟩
    rw [statusAt_eq_expired_iff horder hstate]
    exact ⟨call, hmem, expiry, hexpiry, hle.trans htime⟩
  have hends : Timely (fun final => (∀ first, final.firstTime = some first →
      TimeAccounting policy calls first finishTime final) ∧ final.Alternates ∧
      ∀ index, (final.baskets index).episodes = (final.baskets index).closedEpisodes)
      (state.finish finishTime) := by
    rcases htracks.steady with rfl | ⟨first, last, hlast, hmax, hsteady⟩
    · rw [finish_start hnonneg]
      exact ⟨fun first hfirst => (nomatch hfirst), fun _ => ⟨rfl, rfl, rfl⟩, fun _ => rfl⟩
    · refine (hsteady.finish (hfinish last hlast) hnonneg fun t hle _ => ?_).mono
        fun final hcharged => ⟨fun start hstart => ?_, alternates_of_accounted hcharged.accounted,
          fun index => ?_⟩
      · have hstatus : statusAt policy (calls ++ []) t = state.statusNow t :=
          statusAt_eq_statusNow hstate (fun call hcall => (hmax call hcall).trans hle) (by simp)
        rwa [List.append_nil] at hstatus
      · obtain rfl := Option.some.inj (hcharged.first_eq.symm.trans hstart)
        exact hcharged.timeAccounting
      · have hopened := hcharged.accounted.opened_eq index
        rw [hcharged.inactive index] at hopened
        exact hopened
  exact ⟨fun error herror => hends.of_error herror, fun final hfinal => hends.of_ok hfinal⟩

/-! ### A sample -/

/-- One basket, and a window that ends at the wall clock time 100. -/
def sampleObservationPolicy : BasketPolicy where
  screen :=
    { markets := [⟨1, "A"⟩, ⟨2, "B"⟩, ⟨3, "C"⟩]
      fees := [(1, ⟨0, 100⟩), (2, ⟨0, 100⟩), (3, ⟨0, 100⟩)]
      baskets := [⟨7, "ABC", ![1, 2, 3], 10, 40, 20, 30⟩]
      limits := ⟨.capped 100, .capped 100, .capped 1000000, .capped 0, 1⟩
      totalBudget := 10 }
  validFrom := 0
  validUntil := 100
  maximumEvents := 10

/-- A frame at 5 with the wall clock at 90: the deadline is 15. -/
def sampleObservationCalls : List ObserverCall :=
  [.after { timeNs := 5, marketId := none, applied := false, observedWallNs := some 90 } {}]

/-- Without a connection the basket is unavailable from 5 to 15 and expired from 15 to 20. -/
theorem observation_time_accounting_sample :
    ∃ state final : Observation sampleObservationPolicy,
      runExcept Observation.step {} sampleObservationCalls = .ok state ∧
      state.finish 20 = .ok final ∧
      (final.baskets ⟨0, by decide⟩).durations .unavailable = 10 ∧
      (final.baskets ⟨0, by decide⟩).durations .expired = 5 ∧
      TimeAccounting sampleObservationPolicy sampleObservationCalls 5 20 final := by
  refine ⟨_, _, rfl, rfl, rfl, rfl, ?_⟩
  have haccounting := (@observation_time_accounting sampleObservationPolicy
    sampleObservationCalls 20 ⟨by simp [sampleObservationCalls, ObserverCall.time],
      by simp [sampleObservationCalls]⟩
    (by decide) (by simp [sampleObservationCalls, ObserverCall.time])).2 _ rfl
  exact (haccounting.2.2.2.2.2 _ rfl).1 5 rfl

end EventMarket.Session
