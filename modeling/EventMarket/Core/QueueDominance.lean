import EventMarket.Core.PassiveQueue

/-!
# Runs of the passive queue

A resting order sees trades and depth changes in some order. The two scenarios run side by side on
the same events: what is pending never depends on the scenario, and the favorable queue is always
ahead of the conservative one.

## Main definitions

* `QueueEvent`, `QueueRun.apply`, `replay`: an order in its queue through some events.
* `QueueRun.Fair`: what holds in each scenario.
* `QueueRun.Dominates`: the relation of the two scenarios.

## Main results

* `PassiveQueue.trade_spec`, `PassiveQueue.depth_spec`: everything an operation does.
* `replay_dominates`: the favorable scenario dominates the conservative one.
-/

namespace EventMarket.Core

/-- What happens to the level of a resting order. -/
inductive QueueEvent where
  | advance (time : ℤ)
  | depth (time : ℤ) (displayed : ℕ)
  | trade (time : ℤ) (quantity : ℕ)
  deriving DecidableEq, Repr

/-- The quantity that an event trades. -/
def QueueEvent.traded : QueueEvent → ℕ
  | .trade _ quantity => quantity
  | _ => 0

/-- A queue with what it filled of its order. -/
structure QueueRun where
  queue : PassiveQueue
  filled : ℤ := 0
  deriving DecidableEq, Repr

/-- An event; a trade may fill what remains of the order. -/
def QueueRun.apply (order : ℕ) (run : QueueRun) : QueueEvent → Option QueueRun
  | .advance time => some { run with queue := run.queue.advance time }
  | .depth time displayed =>
    (run.queue.depth time displayed).map fun queue => { run with queue }
  | .trade time quantity =>
    (run.queue.trade time quantity (order - run.filled)).map fun (queue, fill) =>
      { queue, filled := run.filled + fill }

/-- An order behind a displayed quantity through some events, unless the history is exceeded. -/
def replay (displayed order : ℕ) (favorable : Bool) (window : ℤ) (events : List QueueEvent) :
    Option QueueRun :=
  events.foldlM (QueueRun.apply order) { queue := .start displayed favorable window }

/-- All that was traded. -/
def tradedIn (events : List QueueEvent) : ℕ := (events.map QueueEvent.traded).sum

@[simp] theorem tradedIn_nil : tradedIn [] = 0 := rfl

@[simp] theorem tradedIn_append (events : List QueueEvent) (event : QueueEvent) :
    tradedIn (events ++ [event]) = tradedIn events + event.traded := by
  simp [tradedIn]

theorem replay_append (displayed order : ℕ) (favorable : Bool) (window : ℤ)
    (events : List QueueEvent) (event : QueueEvent) :
    replay displayed order favorable window (events ++ [event]) =
      (replay displayed order favorable window events).bind fun run => run.apply order event := by
  unfold replay
  rw [List.foldlM_append]
  cases events.foldlM (QueueRun.apply order) { queue := .start displayed favorable window } with
  | none => rfl
  | some run => exact bind_pure (run.apply order event)

namespace PassiveQueue

/-! ### Pending changes -/

/-- No pending change is empty. -/
def Positive (changes : List QueueChange) : Prop := ∀ change ∈ changes, 0 < change.quantity

theorem positive_matchChanges {changes : List QueueChange} (h : Positive changes) (quantity : ℤ) :
    Positive (matchChanges changes quantity).1 := by
  induction changes generalizing quantity with
  | nil => exact h
  | cons change changes ih =>
    obtain ⟨hchange, hchanges⟩ := List.forall_mem_cons.mp h
    unfold matchChanges
    dsimp only
    split_ifs with hdone hwhole
    · exact h
    · exact ih hchanges _
    · refine List.forall_mem_cons.mpr ⟨?_, hchanges⟩
      dsimp only
      omega

theorem matchChanges_nonneg {changes : List QueueChange} (h : Positive changes) {quantity : ℤ}
    (hquantity : 0 ≤ quantity) : 0 ≤ (matchChanges changes quantity).2 := by
  induction changes generalizing quantity with
  | nil => exact hquantity
  | cons change changes ih =>
    obtain ⟨hchange, hchanges⟩ := List.forall_mem_cons.mp h
    unfold matchChanges
    dsimp only
    split_ifs with hdone hwhole
    · exact hquantity
    · exact ih hchanges (by omega)
    · show 0 ≤ quantity - min quantity change.quantity
      omega

theorem positive_append {changes next : List QueueChange} (h : Positive changes) {time quantity : ℤ}
    (hquantity : 0 ≤ quantity) (hnext : append changes time quantity = some next) :
    Positive next := by
  unfold append at hnext
  split_ifs at hnext with hzero
  · exact Option.some.inj hnext ▸ h
  · obtain rfl := Option.some.inj hnext
    refine List.forall_mem_append.mpr ⟨h, List.forall_mem_singleton.mpr ?_⟩
    dsimp only
    omega

theorem Positive.dropWhile {changes : List QueueChange} (h : Positive changes)
    (condition : QueueChange → Bool) : Positive (changes.dropWhile condition) :=
  fun change hchange => h change ((List.dropWhile_sublist condition).subset hchange)

/-- The reductions that are kept do not depend on the scenario. -/
theorem expireReductions_snd (favorable : Bool) (window time ahead : ℤ)
    (changes : List QueueChange) :
    (expireReductions favorable window time ahead changes).2 =
      changes.dropWhile (outdated window time) := by
  induction changes generalizing ahead with
  | nil => rfl
  | cons change changes ih =>
    unfold expireReductions
    split_ifs with hold hfavorable
    · rw [ih, List.dropWhile_cons_of_pos hold]
    · rw [ih, List.dropWhile_cons_of_pos hold]
    · rw [List.dropWhile_cons_of_neg hold]

/-- Without cancellations ahead nothing moves the queue but trades. -/
theorem expireReductions_conservative (window time ahead : ℤ) (changes : List QueueChange) :
    (expireReductions false window time ahead changes).1 = ahead := by
  induction changes with
  | nil => rfl
  | cons change changes ih =>
    rw [expireReductions, if_neg Bool.false_ne_true]
    split_ifs with hold
    · exact ih
    · rfl

/-- With cancellations ahead the queue only shrinks. -/
theorem expireReductions_bounds {favorable : Bool} {window time ahead : ℤ}
    {changes : List QueueChange} (hpositive : Positive changes) (hahead : 0 ≤ ahead) :
    0 ≤ (expireReductions favorable window time ahead changes).1 ∧
      (expireReductions favorable window time ahead changes).1 ≤ ahead := by
  induction changes generalizing ahead with
  | nil => exact ⟨hahead, le_rfl⟩
  | cons change changes ih =>
    obtain ⟨hchange, hchanges⟩ := List.forall_mem_cons.mp hpositive
    unfold expireReductions
    split_ifs with hold hfavorable
    · obtain ⟨hnonneg, hle⟩ := ih hchanges (le_max_left 0 (ahead - change.quantity))
      exact ⟨hnonneg, by omega⟩
    · exact ih hchanges hahead
    · exact ⟨hahead, le_rfl⟩

/-! ### Operations -/

@[simp] theorem advance_reductions (queue : PassiveQueue) (time : ℤ) :
    (queue.advance time).reductions = queue.reductions.dropWhile (outdated queue.window time) :=
  expireReductions_snd ..

@[simp] theorem advance_credits (queue : PassiveQueue) (time : ℤ) :
    (queue.advance time).credits = queue.credits.dropWhile (outdated queue.window time) := rfl

@[simp] theorem advance_displayed (queue : PassiveQueue) (time : ℤ) :
    (queue.advance time).displayed = queue.displayed := rfl

@[simp] theorem advance_window (queue : PassiveQueue) (time : ℤ) :
    (queue.advance time).window = queue.window := rfl

@[simp] theorem advance_favorable (queue : PassiveQueue) (time : ℤ) :
    (queue.advance time).favorable = queue.favorable := rfl

/-- **Depth changes.** The reduction is matched with credits, and what is left is pending. -/
theorem depth_spec {queue next : PassiveQueue} {time displayed : ℤ}
    (h : queue.depth time displayed = some next) :
    next.ahead = (queue.advance time).ahead ∧ next.displayed = displayed ∧
      next.window = queue.window ∧ next.favorable = queue.favorable ∧
      next.credits = (matchChanges (queue.advance time).credits
        (max 0 (queue.displayed - displayed))).1 ∧
      append (queue.advance time).reductions time (matchChanges (queue.advance time).credits
        (max 0 (queue.displayed - displayed))).2 = some next.reductions := by
  obtain ⟨reductions, hreductions, rfl⟩ := Option.map_eq_some_iff.mp h
  exact ⟨rfl, rfl, rfl, rfl, rfl, hreductions⟩

/-- **Trades.** The trade is matched with reductions, and what is left is a credit; it consumes
the queue ahead, and the excess fills the order. -/
theorem trade_spec {queue next : PassiveQueue} {time quantity remaining fill : ℤ}
    (h : queue.trade time quantity remaining = some (next, fill)) :
    next.ahead = (queue.advance time).ahead - min (queue.advance time).ahead quantity ∧
      fill = min remaining (quantity - min (queue.advance time).ahead quantity) ∧
      next.displayed = queue.displayed ∧ next.window = queue.window ∧
      next.favorable = queue.favorable ∧
      next.reductions = (matchChanges (queue.advance time).reductions quantity).1 ∧
      append (queue.advance time).credits time
        (matchChanges (queue.advance time).reductions quantity).2 = some next.credits := by
  obtain ⟨credits, hcredits, hnext⟩ := Option.map_eq_some_iff.mp h
  obtain ⟨rfl, rfl⟩ := Prod.mk.inj hnext
  exact ⟨rfl, rfl, rfl, rfl, rfl, rfl, hcredits⟩

end PassiveQueue

namespace QueueRun

open PassiveQueue

/-! ### One scenario -/

/-- What holds in each scenario after some trades. -/
structure Fair (order traded : ℕ) (run : QueueRun) : Prop where
  reductions : Positive run.queue.reductions
  credits : Positive run.queue.credits
  ahead : 0 ≤ run.queue.ahead
  filled_nonneg : 0 ≤ run.filled
  filled_le_order : run.filled ≤ order
  filled_le_traded : run.filled ≤ traded

/-- How an event moves the queue and the fills. -/
structure Moves (event : QueueEvent) (run next : QueueRun) : Prop where
  ahead : next.queue.ahead ≤ run.queue.ahead
  filled : run.filled ≤ next.filled
  traded : next.filled ≤ run.filled + event.traded

variable {order traded : ℕ} {run next : QueueRun}

theorem Fair.advance (h : run.Fair order traded) (time : ℤ) :
    0 ≤ (run.queue.advance time).ahead ∧ (run.queue.advance time).ahead ≤ run.queue.ahead ∧
      Positive (run.queue.advance time).reductions ∧ Positive (run.queue.advance time).credits := by
  obtain ⟨hnonneg, hle⟩ : 0 ≤ (run.queue.advance time).ahead ∧
      (run.queue.advance time).ahead ≤ run.queue.ahead :=
    expireReductions_bounds h.reductions h.ahead
  refine ⟨hnonneg, hle, ?_, ?_⟩
  · rw [advance_reductions]
    exact h.reductions.dropWhile _
  · rw [advance_credits]
    exact h.credits.dropWhile _

/-- **Every event is fair.** -/
theorem Fair.apply (h : run.Fair order traded) {event : QueueEvent}
    (hnext : run.apply order event = some next) :
    next.Fair order (traded + event.traded) ∧ Moves event run next := by
  cases event with
  | advance time =>
    obtain rfl := Option.some.inj hnext
    obtain ⟨hahead, hle, hreductions, hcredits⟩ := h.advance time
    exact ⟨⟨hreductions, hcredits, hahead, h.filled_nonneg, h.filled_le_order,
      h.filled_le_traded⟩, ⟨hle, le_rfl, by simp [QueueEvent.traded]⟩⟩
  | depth time displayed =>
    obtain ⟨queue, hqueue, rfl⟩ := Option.map_eq_some_iff.mp hnext
    obtain ⟨hahead, hle, hreductions, hcredits⟩ := h.advance time
    obtain ⟨hkept, -, -, -, hmatched, happended⟩ := depth_spec hqueue
    refine ⟨⟨?_, ?_, ?_, h.filled_nonneg, h.filled_le_order, h.filled_le_traded⟩,
      ⟨?_, le_rfl, by simp [QueueEvent.traded]⟩⟩
    · exact positive_append hreductions (matchChanges_nonneg hcredits (le_max_left _ _)) happended
    · rw [hmatched]
      exact positive_matchChanges hcredits _
    · rwa [hkept]
    · rwa [hkept]
  | trade time quantity =>
    obtain ⟨⟨queue, fill⟩, hqueue, rfl⟩ := Option.map_eq_some_iff.mp hnext
    obtain ⟨hahead, hle, hreductions, hcredits⟩ := h.advance time
    obtain ⟨hconsumed, hfill, -, -, -, hmatched, happended⟩ := trade_spec hqueue
    have horder := h.filled_le_order
    have htraded := h.filled_le_traded
    have hfilled := h.filled_nonneg
    refine ⟨⟨?_, ?_, ?_, ?_, ?_, ?_⟩, ⟨?_, ?_, ?_⟩⟩
    · rw [hmatched]
      exact positive_matchChanges hreductions _
    · exact positive_append hcredits (matchChanges_nonneg hreductions (by omega)) happended
    all_goals simp only [QueueEvent.traded, Nat.cast_add]; omega

theorem fair_replay {displayed order : ℕ} {favorable : Bool} {window : ℤ}
    {events : List QueueEvent} {run : QueueRun}
    (h : replay displayed order favorable window events = some run) :
    run.Fair order (tradedIn events) := by
  induction events using List.reverseRecOn generalizing run with
  | nil =>
    obtain rfl := Option.some.inj h
    exact ⟨nofun, nofun, Int.natCast_nonneg _, le_rfl, Int.natCast_nonneg _, le_rfl⟩
  | append_singleton events event ih =>
    rw [replay_append] at h
    obtain ⟨before, hbefore, hrun⟩ := Option.bind_eq_some_iff.mp h
    rw [tradedIn_append]
    exact ((ih hbefore).apply hrun).1

/-! ### The conservative scenario -/

/-- The conservative queue is exactly what was not traded yet. -/
structure Conservative (displayed traded : ℕ) (run : QueueRun) : Prop where
  favorable : run.queue.favorable = false
  ahead : run.queue.ahead = max 0 ((displayed : ℤ) - traded)
  filled : run.filled ≤ max 0 ((traded : ℤ) - displayed)

theorem Conservative.advance_ahead {displayed : ℕ} (h : run.Conservative displayed traded)
    (time : ℤ) : (run.queue.advance time).ahead = run.queue.ahead := by
  unfold PassiveQueue.advance
  rw [h.favorable]
  exact expireReductions_conservative ..

theorem Conservative.apply {displayed : ℕ} (h : run.Conservative displayed traded)
    {event : QueueEvent} (hnext : run.apply order event = some next) :
    next.Conservative displayed (traded + event.traded) := by
  cases event with
  | advance time =>
    obtain rfl := Option.some.inj hnext
    exact ⟨h.favorable, (h.advance_ahead time).trans h.ahead, h.filled⟩
  | depth time displayed =>
    obtain ⟨queue, hqueue, rfl⟩ := Option.map_eq_some_iff.mp hnext
    obtain ⟨hkept, -, -, hfavorable, -⟩ := depth_spec hqueue
    exact ⟨hfavorable.trans h.favorable, hkept.trans ((h.advance_ahead time).trans h.ahead),
      h.filled⟩
  | trade time quantity =>
    obtain ⟨⟨queue, fill⟩, hqueue, rfl⟩ := Option.map_eq_some_iff.mp hnext
    obtain ⟨hconsumed, hfill, -, -, hfavorable, -⟩ := trade_spec hqueue
    have hahead := h.ahead
    have hfilled := h.filled
    rw [h.advance_ahead time] at hconsumed hfill
    refine ⟨hfavorable.trans h.favorable, ?_, ?_⟩ <;>
      simp only [QueueEvent.traded, Nat.cast_add] <;> omega

theorem conservative_replay {displayed order : ℕ} {window : ℤ} {events : List QueueEvent}
    {run : QueueRun} (h : replay displayed order false window events = some run) :
    run.Conservative displayed (tradedIn events) := by
  induction events using List.reverseRecOn generalizing run with
  | nil =>
    obtain rfl := Option.some.inj h
    exact ⟨rfl, by simp [PassiveQueue.start], le_max_left _ _⟩
  | append_singleton events event ih =>
    rw [replay_append] at h
    obtain ⟨before, hbefore, hrun⟩ := Option.bind_eq_some_iff.mp h
    rw [tradedIn_append]
    exact (ih hbefore).apply hrun

/-! ### Two scenarios -/

/-- The favorable run dominates the conservative one; what is pending is the same. -/
structure Dominates (favorable conservative : QueueRun) : Prop where
  reductions : favorable.queue.reductions = conservative.queue.reductions
  credits : favorable.queue.credits = conservative.queue.credits
  displayed : favorable.queue.displayed = conservative.queue.displayed
  window : favorable.queue.window = conservative.queue.window
  ahead : favorable.queue.ahead ≤ conservative.queue.ahead
  filled : conservative.filled ≤ favorable.filled

theorem rel_map {α β γ : Type*} {r : β → γ → Prop} {f : α → β} {g : α → γ} {item : Option α}
    (h : ∀ value, r (f value) (g value)) : Option.Rel r (item.map f) (item.map g) := by
  cases item with
  | none => exact .none
  | some value => exact .some (h value)

variable {favorable conservative : QueueRun}

theorem Dominates.advance (h : Dominates favorable conservative)
    (hfair : favorable.Fair order traded)
    {displayed : ℕ} (hconservative : conservative.Conservative displayed traded) (time : ℤ) :
    Dominates { favorable with queue := favorable.queue.advance time }
      { conservative with queue := conservative.queue.advance time } where
  reductions := by
    rw [advance_reductions, advance_reductions, h.reductions, h.window]
  credits := by
    rw [advance_credits, advance_credits, h.credits, h.window]
  displayed := h.displayed
  window := h.window
  ahead := by
    show (favorable.queue.advance time).ahead ≤ (conservative.queue.advance time).ahead
    rw [hconservative.advance_ahead]
    exact (hfair.advance time).2.1.trans h.ahead
  filled := h.filled

/-- **Every event keeps the dominance**, and exceeds the history of both scenarios or of none. -/
theorem Dominates.apply (h : Dominates favorable conservative) (hfair : favorable.Fair order traded)
    {displayed : ℕ} (hconservative : conservative.Conservative displayed traded)
    (event : QueueEvent) :
    Option.Rel Dominates (favorable.apply order event) (conservative.apply order event) := by
  cases event with
  | advance time => exact .some (h.advance hfair hconservative time)
  | depth time quantity =>
    have hadvance := h.advance hfair hconservative time
    unfold QueueRun.apply PassiveQueue.depth
    dsimp only
    rw [← hadvance.credits, ← hadvance.reductions, ← hadvance.displayed, Option.map_map,
      Option.map_map]
    exact rel_map fun reductions =>
      ⟨rfl, rfl, rfl, hadvance.window, hadvance.ahead, hadvance.filled⟩
  | trade time quantity =>
    have hadvance := h.advance hfair hconservative time
    have hahead := hadvance.ahead
    have hfilled := hadvance.filled
    unfold QueueRun.apply PassiveQueue.trade
    dsimp only at hahead hfilled ⊢
    rw [← hadvance.credits, ← hadvance.reductions, Option.map_map, Option.map_map]
    refine rel_map fun credits =>
      ⟨rfl, rfl, hadvance.displayed, hadvance.window, ?_, ?_⟩ <;>
      dsimp only [Function.comp_apply] <;> omega

theorem dominates_replay (displayed order : ℕ) (window : ℤ) (events : List QueueEvent) :
    Option.Rel Dominates (replay displayed order true window events)
      (replay displayed order false window events) := by
  induction events using List.reverseRecOn with
  | nil => exact .some ⟨rfl, rfl, rfl, rfl, le_rfl, le_rfl⟩
  | append_singleton events event ih =>
    rw [replay_append, replay_append]
    cases hfavorable : replay displayed order true window events with
    | none =>
      rw [hfavorable] at ih
      cases hconservative : replay displayed order false window events with
      | none => exact .none
      | some run =>
        rw [hconservative] at ih
        cases ih
    | some favorable =>
      rw [hfavorable] at ih
      cases hconservative : replay displayed order false window events with
      | none =>
        rw [hconservative] at ih
        cases ih
      | some conservative =>
        rw [hconservative] at ih
        cases ih with
        | some h =>
          exact h.apply (fair_replay hfavorable) (conservative_replay hconservative) event

end QueueRun

/-- **The favorable scenario dominates the conservative one.** Both scenarios stay within the
history or none does. The favorable queue is never longer and fills at least as much; the
conservative queue is what was displayed and not traded yet, and it fills at most what was traded
beyond that. In each scenario the queue is not negative and only shrinks, the fills grow only by
trades, and they never exceed the order or what was traded. -/
theorem replay_dominates (displayed order : ℕ) (window : ℤ) (events : List QueueEvent) :
    Option.Rel (fun favorable conservative : QueueRun =>
        favorable.queue.ahead ≤ conservative.queue.ahead ∧
        conservative.filled ≤ favorable.filled ∧
        conservative.filled ≤ max 0 ((tradedIn events : ℤ) - displayed) ∧
        conservative.queue.ahead = max 0 ((displayed : ℤ) - tradedIn events))
      (replay displayed order true window events) (replay displayed order false window events) ∧
    ∀ favorable run, replay displayed order favorable window events = some run →
      0 ≤ run.queue.ahead ∧ 0 ≤ run.filled ∧ run.filled ≤ order ∧ run.filled ≤ tradedIn events ∧
      ∀ event next, run.apply order event = some next →
        next.queue.ahead ≤ run.queue.ahead ∧ run.filled ≤ next.filled ∧
        next.filled ≤ run.filled + event.traded := by
  constructor
  · have hrel := QueueRun.dominates_replay displayed order window events
    generalize hfavorable : replay displayed order true window events = favorable at hrel ⊢
    generalize hconservative : replay displayed order false window events = conservative at hrel ⊢
    cases hrel with
    | none => exact .none
    | some h =>
      have hbounds := QueueRun.conservative_replay hconservative
      exact .some ⟨h.ahead, h.filled, hbounds.filled, hbounds.ahead⟩
  · intro favorable run hrun
    have hfair := QueueRun.fair_replay hrun
    refine ⟨hfair.ahead, hfair.filled_nonneg, hfair.filled_le_order, hfair.filled_le_traded, ?_⟩
    intro event next hnext
    have hmoves := (hfair.apply hnext).2
    exact ⟨hmoves.ahead, hmoves.filled, hmoves.traded⟩

end EventMarket.Core
