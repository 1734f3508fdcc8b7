import EventMarket.Market.MarketState
import EventMarket.Session.ReadOnlyFeed

/-!
# Observers of a replay

A replay calls its observers before every input, with the books of the earlier inputs, and after
it, with the frame of the input and the books that include it.

## Main definitions

* `ReplayFrame`: one input as the observers see it.
* `ObserverCall`: one call of an observer.
* `replayCalls`: the calls of a replay of market updates.
* `InOrder`: the calls come in the order of their times.

## Main results

* `upTo_eq_past`: the calls up to a time between two consecutive ones are those of the past.
-/

namespace EventMarket.Session

open Core Market

/-- One input. The wall clock is the recorded local one. -/
structure ReplayFrame where
  timeNs : ℤ
  marketId : Option MarketId
  applied : Bool
  trade : Option PublicTrade := none
  observedWallNs : Option ℤ := none

/-- A call of an observer. -/
inductive ObserverCall where
  | before (time : ℤ) (state : MarketState)
  | after (frame : ReplayFrame) (state : MarketState)

namespace ObserverCall

def time : ObserverCall → ℤ
  | before time _ => time
  | after frame _ => frame.timeNs

end ObserverCall

/-- The calls of a replay of market updates, each before and after it. -/
def replayCalls : MarketState → List (ℤ × MarketId × NormalizedMarketEvent) → List ObserverCall
  | _, [] => []
  | state, (time, marketId, update) :: updates =>
    let (next, result) := state.apply update
    let frame : ReplayFrame :=
      { timeNs := time, marketId := some marketId, applied := decide (result = .book .applied),
        observedWallNs := some time }
    .before time state :: .after frame next :: replayCalls next updates

/-- Times are not negative, and do not decrease. -/
def InOrder (calls : List ObserverCall) : Prop :=
  (∀ call ∈ calls, 0 ≤ call.time) ∧ calls.Pairwise fun call next => call.time ≤ next.time

/-- The calls up to a time. -/
def upTo (calls : List ObserverCall) (time : ℤ) : List ObserverCall :=
  calls.filter fun call => decide (call.time ≤ time)

/-- **The past.** Up to a time before the next call, the calls are those of the past. -/
theorem upTo_eq_past {past later : List ObserverCall} {time : ℤ}
    (hpast : ∀ call ∈ past, call.time ≤ time) (hlater : ∀ call ∈ later, time < call.time) :
    upTo (past ++ later) time = past := by
  have hnone : later.filter (fun call => decide (call.time ≤ time)) = [] :=
    List.filter_eq_nil_iff.mpr fun call hcall => by simpa using hlater call hcall
  have hall : past.filter (fun call => decide (call.time ≤ time)) = past :=
    List.filter_eq_self.mpr fun call hcall => by simpa using hpast call hcall
  rw [upTo, List.filter_append, hnone, hall, List.append_nil]

namespace InOrder

variable {past later : List ObserverCall} {call : ObserverCall}

theorem time_nonneg (h : InOrder (past ++ call :: later)) : 0 ≤ call.time :=
  h.1 call (by simp)

theorem past_le (h : InOrder (past ++ call :: later)) : ∀ earlier ∈ past,
    earlier.time ≤ call.time :=
  fun earlier hearlier => (List.pairwise_append.mp h.2).2.2 earlier hearlier call List.mem_cons_self

theorem le_later (h : InOrder (past ++ call :: later)) : ∀ next ∈ later, call.time ≤ next.time :=
  (List.pairwise_cons.mp (List.pairwise_append.mp h.2).2.1).1

/-- The calls in order split at every time. -/
theorem exists_split {calls : List ObserverCall} (h : InOrder calls) (time : ℤ) :
    ∃ past later, calls = past ++ later ∧ (∀ call ∈ past, call.time ≤ time) ∧
      ∀ call ∈ later, time < call.time := by
  obtain ⟨-, hpairwise⟩ := h
  induction calls with
  | nil => exact ⟨[], [], rfl, by simp, by simp⟩
  | cons call calls ih =>
    obtain ⟨hfirst, hrest⟩ := List.pairwise_cons.mp hpairwise
    by_cases hcall : call.time ≤ time
    · obtain ⟨past, later, rfl, hpast, hlater⟩ := ih hrest
      exact ⟨call :: past, later, rfl, List.forall_mem_cons.mpr ⟨hcall, hpast⟩, hlater⟩
    · refine ⟨[], call :: calls, rfl, by simp, List.forall_mem_cons.mpr ⟨not_le.mp hcall, ?_⟩⟩
      exact fun other hother => (not_le.mp hcall).trans_le (hfirst other hother)

theorem of_append (h : InOrder (past ++ later)) : InOrder past :=
  ⟨fun call hcall => h.1 call (List.mem_append_left _ hcall), (List.pairwise_append.mp h.2).1⟩

end InOrder

end EventMarket.Session
