import Mathlib.Data.List.Induction
import Mathlib.Data.List.Infix
import Mathlib.Logic.Relation

/-!
# Runs of a state machine

A state machine takes inputs one after the other. What every step preserves holds after every run,
for machines that always succeed and for machines that may stop with an error.

## Main definitions

* `run`: the state after a list of inputs.
* `runExcept`: the same for a step that may fail.

## Main results

* `run_invariant`, `runExcept_invariant`: a preserved property holds after every run.
* `run_relation`: a reflexive and transitive relation that every step satisfies holds along runs.
* `run_last_change`: the input after which a property holds for the rest of a run.
-/

namespace EventMarket.Foundations

variable {σ ι ε : Type*}

/-- The state after a list of inputs. -/
def run (step : σ → ι → σ) (start : σ) (inputs : List ι) : σ := inputs.foldl step start

@[simp] theorem run_nil (step : σ → ι → σ) (start : σ) : run step start [] = start := rfl

@[simp] theorem run_cons (step : σ → ι → σ) (start : σ) (input : ι) (inputs : List ι) :
    run step start (input :: inputs) = run step (step start input) inputs := rfl

theorem run_append (step : σ → ι → σ) (start : σ) (inputs more : List ι) :
    run step start (inputs ++ more) = run step (run step start inputs) more :=
  List.foldl_append

/-- **A preserved property holds after every run.** The step only has to preserve it on the inputs
of the run. -/
theorem run_invariant {step : σ → ι → σ} {P : σ → Prop} {inputs : List ι}
    (hstep : ∀ state, ∀ input ∈ inputs, P state → P (step state input)) {start : σ}
    (hstart : P start) : P (run step start inputs) := by
  induction inputs generalizing start with
  | nil => exact hstart
  | cons input inputs ih =>
    refine ih (fun state next hmem => hstep state next (List.mem_cons_of_mem _ hmem)) ?_
    exact hstep start input List.mem_cons_self hstart

/-- **A relation that every step satisfies holds along every run.** -/
theorem run_relation {step : σ → ι → σ} {R : σ → σ → Prop} (hrefl : ∀ state, R state state)
    (htrans : ∀ a b c, R a b → R b c → R a c) (hstep : ∀ state input, R state (step state input))
    (start : σ) (inputs : List ι) : R start (run step start inputs) := by
  induction inputs generalizing start with
  | nil => exact hrefl start
  | cons input inputs ih => exact htrans _ _ _ (hstep start input) (ih _)

/-- **The last change.** When a property does not hold at the start and holds at the end of a run,
some input made it hold for the rest of the run. -/
theorem run_last_change {step : σ → ι → σ} {P : σ → Prop} {start : σ} {inputs : List ι}
    (hstart : ¬P start) (hend : P (run step start inputs)) :
    ∃ past input later, inputs = past ++ input :: later ∧ ¬P (run step start past) ∧
      ∀ more, more <+: later → P (run step start (past ++ input :: more)) := by
  induction inputs using List.reverseRecOn with
  | nil => exact absurd hend hstart
  | append_singleton inputs last ih =>
    by_cases hbefore : P (run step start inputs)
    · obtain ⟨past, input, later, rfl, hpast, hlater⟩ := ih hbefore
      refine ⟨past, input, later ++ [last], by simp, hpast, fun more hmore => ?_⟩
      rcases List.prefix_concat_iff.mp hmore with rfl | hmore
      · simpa using hend
      · exact hlater more hmore
    · refine ⟨inputs, last, [], by simp, hbefore, fun more hmore => ?_⟩
      rw [List.prefix_nil.mp hmore]
      exact hend

/-- The state after a list of inputs, unless a step fails. -/
def runExcept (step : σ → ι → Except ε σ) (start : σ) (inputs : List ι) : Except ε σ :=
  inputs.foldlM step start

/-- A computation that succeeds has succeeded in its first part. -/
theorem bind_eq_ok {α β : Type*} {x : Except ε α} {f : α → Except ε β} {b : β}
    (h : x.bind f = .ok b) : ∃ a, x = .ok a ∧ f a = .ok b := by
  cases x with
  | error e => cases h
  | ok a => exact ⟨a, rfl, h⟩

/-- Items that all pass pass together. -/
theorem exists_mapM_eq_ok {α β : Type*} {f : α → Except ε β} {items : List α}
    (h : ∀ item ∈ items, ∃ result, f item = .ok result) :
    ∃ results, items.mapM f = .ok results := by
  induction items with
  | nil => exact ⟨[], rfl⟩
  | cons item items ih =>
    obtain ⟨⟨result, hresult⟩, hrest⟩ := List.forall_mem_cons.mp h
    obtain ⟨results, hresults⟩ := ih hrest
    exact ⟨result :: results, by rw [List.mapM_cons, hresult, hresults]; rfl⟩

@[simp] theorem runExcept_nil (step : σ → ι → Except ε σ) (start : σ) :
    runExcept step start [] = .ok start := rfl

theorem runExcept_cons (step : σ → ι → Except ε σ) (start : σ) (input : ι) (inputs : List ι) :
    runExcept step start (input :: inputs) =
      (step start input).bind fun next => runExcept step next inputs := rfl

theorem runExcept_append (step : σ → ι → Except ε σ) (start : σ) (inputs more : List ι) :
    runExcept step start (inputs ++ more) =
      (runExcept step start inputs).bind fun state => runExcept step state more :=
  List.foldlM_append

/-- **A preserved property holds after every run that does not fail.** -/
theorem runExcept_invariant {step : σ → ι → Except ε σ} {P : σ → Prop}
    (hstep : ∀ state input next, P state → step state input = .ok next → P next) {start final : σ}
    {inputs : List ι} (hstart : P start) (h : runExcept step start inputs = .ok final) :
    P final := by
  induction inputs generalizing start with
  | nil =>
    obtain rfl := Except.ok.inj h
    exact hstart
  | cons input inputs ih =>
    rw [runExcept_cons] at h
    cases hnext : step start input with
    | error failure => rw [hnext] at h; exact absurd h (by simp [Except.bind])
    | ok next =>
      rw [hnext] at h
      exact ih (hstep start input next hstart hnext) h

/-- A run whose steps each add one item adds as many as there are inputs. -/
theorem runExcept_length {α : Type*} {step : List α → ι → Except ε (List α)}
    (hstep : ∀ items input next, step items input = .ok next → next.length = items.length + 1)
    {start final : List α} {inputs : List ι} (h : runExcept step start inputs = .ok final) :
    final.length = start.length + inputs.length := by
  induction inputs generalizing start with
  | nil =>
    obtain rfl := Except.ok.inj h
    rfl
  | cons input inputs ih =>
    obtain ⟨next, hnext, hrest⟩ := bind_eq_ok h
    rw [ih hrest, hstep _ _ _ hnext, List.length_cons]
    omega

/-- **Reading a list of written items.** When a step takes exactly the written items that are
admitted after those before, a run takes exactly the lists whose items are all admitted. -/
theorem runExcept_reads_iff {α : Type*} {step : σ → ι → Except ε σ} {state : List α → σ}
    {write : α → ι} {admits : List α → α → Prop} {good : ι → Prop}
    (hstep : ∀ done input next, good input → (step (state done) input = .ok next ↔
      ∃ item, input = write item ∧ admits done item ∧ next = state (done ++ [item])))
    {done : List α} {inputs : List ι} {final : σ} (hgood : ∀ input ∈ inputs, good input) :
    runExcept step (state done) inputs = .ok final ↔
      ∃ items, inputs = items.map write ∧
        (∀ before item after, items = before ++ item :: after → admits (done ++ before) item) ∧
        final = state (done ++ items) := by
  induction inputs generalizing done with
  | nil =>
    constructor
    · intro h
      exact ⟨[], rfl, by simp, by simpa using (Except.ok.inj h).symm⟩
    · rintro ⟨items, hitems, -, rfl⟩
      obtain rfl := List.map_eq_nil_iff.mp hitems.symm
      simp
  | cons input inputs ih =>
    have hfirst := hgood input List.mem_cons_self
    have hothers := fun other hother => hgood other (List.mem_cons_of_mem _ hother)
    constructor
    · intro h
      obtain ⟨next, hnext, hrest⟩ := bind_eq_ok h
      obtain ⟨item, rfl, hadmits, rfl⟩ := (hstep done input next hfirst).mp hnext
      obtain ⟨items, rfl, hitems, rfl⟩ := (ih hothers).mp hrest
      refine ⟨item :: items, rfl, fun before other after heq => ?_, by simp⟩
      cases before with
      | nil =>
        obtain ⟨rfl, -⟩ := List.cons.inj heq
        simpa using hadmits
      | cons first before =>
        obtain ⟨rfl, rfl⟩ := List.cons.inj heq
        simpa using hitems before other after rfl
    · rintro ⟨items, hitems, hadmits, rfl⟩
      obtain ⟨item, rest, rfl, rfl, rfl⟩ := List.map_eq_cons_iff.mp hitems.symm
      have hnext : step (state done) (write item) = .ok (state (done ++ [item])) :=
        (hstep done _ _ hfirst).mpr ⟨item, rfl, by simpa using hadmits [] item rest rfl, rfl⟩
      rw [runExcept_cons, hnext]
      refine (ih hothers).mpr ⟨rest, rfl, fun before other after heq => ?_, by simp⟩
      simpa using hadmits (item :: before) other after (by rw [heq]; rfl)

/-- The values of a list are distinct when each of them is new after those before it. -/
theorem nodup_map_iff_fresh {α β : Type*} {f : α → β} {items : List α} :
    (items.map f).Nodup ↔
      ∀ before item after, items = before ++ item :: after → f item ∉ before.map f := by
  constructor
  · rintro h before item after rfl hmem
    rw [List.map_append, List.map_cons, List.nodup_append] at h
    exact h.2.2 _ hmem _ List.mem_cons_self rfl
  · intro h
    induction items using List.reverseRecOn with
    | nil => exact List.nodup_nil
    | append_singleton items last ih =>
      rw [List.map_append, List.nodup_append]
      refine ⟨ih fun before item after heq => h before item (after ++ [last]) (by simp [heq]),
        List.pairwise_singleton _ _, ?_⟩
      rintro value hvalue _ hlast rfl
      obtain rfl := List.mem_singleton.mp hlast
      exact h items last [] rfl hvalue

end EventMarket.Foundations
