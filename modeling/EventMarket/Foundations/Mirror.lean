import EventMarket.Foundations.Drain

/-!
# Computations that mirror one another

Two machines run side by side when a translation of the states takes every step of the one to the
step of the other: they end with the same errors, and with states that correspond. What the one
does is then read off the other.

## Main definitions

* `Mirrors`: one computation ends as another one does, up to a translation of the values.

## Main results

* `Mirrors.bind`, `Mirrors.after`, `Mirrors.ite`: the rules for a sequence and for a branch.
* `Mirrors.runExcept`, `Mirrors.drain`: the rules for a run and for the events that are due.
* `drain_split`: to handle what is due, what is due first can be handled first.
-/

namespace EventMarket.Foundations

variable {ε α β γ δ σ τ ι : Type*}

/-- The second computation ends as the first one does, up to a translation of the values. -/
def Mirrors (translate : α → β) (x : Except ε α) (y : Except ε β) : Prop := y = x.map translate

namespace Mirrors

variable {translate : α → β} {relate : γ → δ} {x : Except ε α} {y : Except ε β}

theorem ok (value : α) : Mirrors (ε := ε) translate (.ok value) (.ok (translate value)) := rfl

theorem error (failure : ε) : Mirrors translate (.error failure) (.error failure) := rfl

theorem of_ok (h : Mirrors translate x y) {value : α} (hvalue : x = .ok value) :
    y = .ok (translate value) := by
  rw [h, hvalue]
  rfl

/-- **A sequence** of parts that mirror one another. -/
theorem bind {f : α → Except ε γ} {g : β → Except ε δ} (h : Mirrors translate x y)
    (hnext : ∀ value, Mirrors relate (f value) (g (translate value))) :
    Mirrors relate (x.bind f) (y.bind g) := by
  rw [h]
  cases x with
  | error failure => exact error failure
  | ok value => exact hnext value

/-- **A sequence** whose first part both sides share. -/
theorem after {f : α → Except ε γ} {g : α → Except ε δ}
    (hnext : ∀ value, Mirrors relate (f value) (g value)) :
    Mirrors relate (x.bind f) (x.bind g) := by
  cases x with
  | error failure => exact error failure
  | ok value => exact hnext value

/-- **A branch** on a condition that both sides share. -/
theorem ite {condition : Prop} [Decidable condition] {x' : Except ε α} {y' : Except ε β}
    (hthen : Mirrors translate x y) (helse : Mirrors translate x' y') :
    Mirrors translate (if condition then x else x') (if condition then y else y') := by
  split
  · exact hthen
  · exact helse

/-- **A run** whose steps mirror one another. -/
theorem runExcept {translate : σ → τ} {step : σ → ι → Except ε σ} {step' : τ → ι → Except ε τ}
    {inputs : List ι}
    (hstep : ∀ state, ∀ input ∈ inputs,
      Mirrors translate (step state input) (step' (translate state) input)) (start : σ) :
    Mirrors translate (runExcept step start inputs) (runExcept step' (translate start) inputs) := by
  induction inputs generalizing start with
  | nil => exact ok start
  | cons input inputs ih =>
    exact bind (hstep start input List.mem_cons_self) fun next =>
      ih (fun state later hmem => hstep state later (List.mem_cons_of_mem _ hmem)) next

/-- **The events that are due**, when the same ones are due on both sides. -/
theorem drain {translate : σ → τ} {due : σ → Bool} {due' : τ → Bool} {event : σ → Except ε σ}
    {event' : τ → Except ε τ} (hdue : ∀ state, due' (translate state) = due state)
    (hevent : ∀ state, Mirrors translate (event state) (event' (translate state)))
    (fuel : ℕ) (start : σ) :
    Mirrors translate (drain due event fuel start) (drain due' event' fuel (translate start)) := by
  induction fuel generalizing start with
  | zero => exact ok start
  | succ fuel ih =>
    rw [Foundations.drain, Foundations.drain, hdue]
    exact ite (bind (hevent start) ih) (ok start)

end Mirrors

/-- **What is due first can be handled first.** Some of the events that are due come before the
others, and every event lowers a measure. -/
theorem drain_split {due first : σ → Bool} {event event' : σ → Except ε σ} {measure : σ → ℕ}
    {P : σ → Prop}
    (hevent : ∀ state next, P state → due state = true → event state = .ok next →
      P next ∧ measure next < measure state)
    (hzero : ∀ state, P state → measure state = 0 → due state = false)
    (hfirst : ∀ state, first state = true → due state = true ∧ event' state = event state)
    {fuel more : ℕ} {state : σ} (hstate : P state) (hfuel : measure state ≤ fuel)
    (hmore : fuel ≤ more) :
    drain due event more state =
      (drain first event' fuel state).bind (drain due event more) := by
  induction fuel generalizing state with
  | zero => rfl
  | succ fuel ih =>
    rw [drain.eq_2 first]
    split_ifs with hdue
    · obtain ⟨hall, hsame⟩ := hfirst state hdue
      rw [hsame]
      cases hnext : event state with
      | error failure =>
        obtain ⟨rest, rfl⟩ := Nat.exists_eq_add_of_le' (Nat.pos_of_ne_zero (by omega) : 0 < more)
        rw [drain, if_pos hall, hnext]
        rfl
      | ok next =>
        obtain ⟨hP, hlt⟩ := hevent state next hstate hall hnext
        obtain ⟨rest, rfl⟩ := Nat.exists_eq_add_of_le' (Nat.pos_of_ne_zero (by omega) : 0 < more)
        have hfewer : drain due event (rest + 1) state = drain due event (rest + 1) next := by
          have hrest : drain due event (rest + 1) next = drain due event rest next :=
            drain_eq_of_le hevent hzero hP (by omega) (Nat.le_succ rest)
          rw [hrest, drain, if_pos hall, hnext]
          rfl
        rw [hfewer]
        exact ih hP (by omega) (by omega)
    · rfl

end EventMarket.Foundations
