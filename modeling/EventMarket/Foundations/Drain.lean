import EventMarket.Foundations.Yields

/-!
# Handling the events that are due

A machine handles its events one after the other as long as the next one is due. The number of
events is bounded by a fuel, which the users show to be enough.

## Main definitions

* `drain`: handle the events that are due.
* `Visits`: the states in which an event is about to be handled, or none is due.

## Main results

* `Yields.drain`: what every event preserves holds afterwards.
* `drain_not_due`: with enough fuel no event is left due.
* `drain_eq_of_le`: more fuel than enough changes nothing.
-/

namespace EventMarket.Foundations

variable {σ ε : Type*} {due : σ → Bool} {event : σ → Except ε σ} {raises : ε → Prop}

/-- Handle the events that are due. -/
def drain (due : σ → Bool) (event : σ → Except ε σ) : ℕ → σ → Except ε σ
  | 0, state => .ok state
  | fuel + 1, state =>
    if due state then (event state).bind (drain due event fuel) else .ok state

/-- A state is visited from another one when handling due events leads there. -/
def Visits (due : σ → Bool) (event : σ → Except ε σ) : σ → σ → Prop :=
  Relation.ReflTransGen fun state next => due state = true ∧ event state = .ok next

theorem drain_of_not_due {fuel : ℕ} {state : σ} (h : due state = false) :
    drain due event fuel state = .ok state := by
  cases fuel with
  | zero => rfl
  | succ fuel => rw [drain, h, if_neg Bool.false_ne_true]

/-- **What every event preserves holds afterwards.** The rule may assume of a state that it is
visited. -/
theorem Yields.drain {P : σ → Prop} {start : σ} (hstart : P start) (fuel : ℕ)
    (hevent : ∀ state, Visits due event start state → due state = true → P state →
      Yields raises P (event state)) :
    Yields raises P (Foundations.drain due event fuel start) := by
  suffices h : ∀ state, Visits due event start state → P state →
      Yields raises P (Foundations.drain due event fuel state) from
    h start Relation.ReflTransGen.refl hstart
  induction fuel with
  | zero => exact fun _ _ h => h
  | succ fuel ih =>
    intro state hvisits h
    rw [Foundations.drain]
    split_ifs with hdue
    · exact Yields.bind (hevent state hvisits hdue h) fun next hnext hP =>
        ih next (hvisits.tail ⟨hdue, hnext⟩) hP
    · exact h

/-- **With enough fuel no event is left due**, when every event lowers a measure. -/
theorem drain_not_due {measure : σ → ℕ} {P : σ → Prop}
    (hevent : ∀ state next, P state → due state = true → event state = .ok next →
      P next ∧ measure next < measure state)
    {fuel : ℕ} {state final : σ} (hstate : P state) (hfuel : measure state ≤ fuel)
    (hzero : ∀ state, P state → measure state = 0 → due state = false)
    (h : drain due event fuel state = .ok final) : due final = false := by
  induction fuel generalizing state with
  | zero =>
    obtain rfl := Except.ok.inj h
    exact hzero state hstate (Nat.le_zero.mp hfuel)
  | succ fuel ih =>
    rw [drain] at h
    split_ifs at h with hdue
    · obtain ⟨next, hnext, hrest⟩ := bind_eq_ok h
      obtain ⟨hP, hlt⟩ := hevent state next hstate hdue hnext
      exact ih hP (by omega) hrest
    · obtain rfl := Except.ok.inj h
      simpa using hdue

/-- **More fuel than enough changes nothing**, when every event lowers a measure. -/
theorem drain_eq_of_le {measure : σ → ℕ} {P : σ → Prop}
    (hevent : ∀ state next, P state → due state = true → event state = .ok next →
      P next ∧ measure next < measure state)
    (hzero : ∀ state, P state → measure state = 0 → due state = false)
    {fuel more : ℕ} {state : σ} (hstate : P state) (hfuel : measure state ≤ fuel)
    (hmore : fuel ≤ more) : drain due event more state = drain due event fuel state := by
  induction fuel generalizing state more with
  | zero =>
    have hdone := hzero state hstate (Nat.le_zero.mp hfuel)
    rw [drain_of_not_due hdone, drain_of_not_due hdone]
  | succ fuel ih =>
    obtain ⟨rest, rfl⟩ := Nat.exists_eq_add_of_le' (Nat.pos_of_ne_zero (by omega) : 0 < more)
    rw [drain, drain]
    split_ifs with hdue
    · cases hnext : event state with
      | error failure => rfl
      | ok next =>
        obtain ⟨hP, hlt⟩ := hevent state next hstate hdue hnext
        exact ih hP (by omega) (by omega)
    · rfl

end EventMarket.Foundations
