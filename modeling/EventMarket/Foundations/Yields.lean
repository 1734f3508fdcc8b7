import EventMarket.Foundations.Run

/-!
# What a computation that may fail yields

`Yields raises P x` says that `x` ends with a value that has the property `P`, or with an error
that it may raise. The rules follow the structure of the computation.

## Main definitions

* `Yields`: the triple of a computation, its errors and its values.

## Main results

* `Yields.bind`, `Yields.foldlM`, `Yields.runExcept`: the rules for a sequence, for a loop and for
  a run.
-/

namespace EventMarket.Foundations

variable {ε α β σ ι : Type*} {raises : ε → Prop}

/-- A computation ends with a value of this kind, or with one of these errors. -/
def Yields (raises : ε → Prop) (P : α → Prop) : Except ε α → Prop
  | .ok value => P value
  | .error error => raises error

namespace Yields

variable {P : α → Prop} {Q : β → Prop}

theorem of_ok {x : Except ε α} (h : Yields raises P x) {value : α} (hvalue : x = .ok value) :
    P value := by
  rw [hvalue] at h
  exact h

theorem of_error {x : Except ε α} (h : Yields raises P x) {error : ε} (herror : x = .error error) :
    raises error := by
  rw [herror] at h
  exact h

theorem mono {P' : α → Prop} {x : Except ε α} (h : Yields raises P x)
    (himp : ∀ value, P value → P' value) : Yields raises P' x := by
  cases x with
  | ok value => exact himp value h
  | error error => exact h

/-- **A sequence.** The second part may use what the first one yields. -/
theorem bind {x : Except ε α} {f : α → Except ε β} (h : Yields raises P x)
    (hf : ∀ value, x = .ok value → P value → Yields raises Q (f value)) :
    Yields raises Q (x.bind f) := by
  cases x with
  | ok value => exact hf value rfl h
  | error error => exact h

theorem map {x : Except ε α} {f : α → β} (h : Yields raises (fun value => Q (f value)) x) :
    Yields raises Q (x.map f) := by
  cases x with
  | ok value => exact h
  | error error => exact h

/-- **A loop**, with an invariant that knows which items are done. -/
theorem foldlM {step : σ → ι → Except ε σ} {I : List ι → σ → Prop} {start : σ} {items : List ι}
    (hstart : I [] start)
    (hstep : ∀ done, ∀ item ∈ items, ∀ state, I done state →
      Yields raises (I (done ++ [item])) (step state item)) :
    Yields raises (I items) (items.foldlM step start) := by
  suffices h : ∀ rest done state, (∀ item ∈ rest, item ∈ items) → I done state →
      Yields raises (I (done ++ rest)) (rest.foldlM step state) from
    h items [] start (fun _ hmem => hmem) hstart
  intro rest
  induction rest with
  | nil =>
    intro done state _ h
    rw [List.append_nil]
    exact h
  | cons item rest ih =>
    intro done state hmem h
    rw [List.foldlM_cons]
    refine bind (hstep done item (hmem item List.mem_cons_self) state h) fun next _ hnext => ?_
    rw [List.append_cons]
    exact ih _ _ (fun other hother => hmem other (List.mem_cons_of_mem _ hother)) hnext

/-- **A run**, with an invariant that knows the inputs taken. -/
theorem runExcept {step : σ → ι → Except ε σ} {I : List ι → σ → Prop} {start : σ}
    {inputs : List ι} (hstart : I [] start)
    (hstep : ∀ past input later state, inputs = past ++ input :: later →
      Foundations.runExcept step start past = .ok state → I past state →
      Yields raises (I (past ++ [input])) (step state input)) :
    Yields raises (I inputs) (Foundations.runExcept step start inputs) := by
  suffices h : ∀ later past state, inputs = past ++ later →
      Foundations.runExcept step start past = .ok state → I past state →
      Yields raises (I inputs) (Foundations.runExcept step state later) from
    h inputs [] start rfl rfl hstart
  intro later
  induction later with
  | nil =>
    intro past state hinputs _ h
    rw [hinputs, List.append_nil]
    exact h
  | cons input later ih =>
    intro past state hinputs hpast h
    rw [runExcept_cons]
    refine bind (hstep past input later state hinputs hpast h) fun next hnext hI => ?_
    refine ih _ next (by rw [hinputs, List.append_cons]) ?_ hI
    rw [runExcept_append, hpast]
    exact (bind_pure (step state input)).trans hnext

end Yields

end EventMarket.Foundations
