import EventMarket.Foundations.Run

/-!
# Durable operations and interruptions

A program changes a store by durable operations, each of which happens as a whole or not at all. It
may be interrupted between two of them and started again on the store that it left behind. What
holds after every beginning of its operations survives any number of interruptions.

## Main definitions

* `Survives`: a property holds after every beginning of some operations.
* `interrupted`: the store after a number of the operations of a program.

## Main results

* `survives_append`: operations after each other.
* `survives_interruptions`: what a program preserves at every point survives interruptions.
-/

namespace EventMarket.Foundations

variable {σ ω : Type*} {apply : σ → ω → σ} {P : σ → Prop} {start : σ}

/-- A property holds before, between and after some operations. -/
def Survives (apply : σ → ω → σ) (P : σ → Prop) (start : σ) (operations : List ω) : Prop :=
  ∀ done, done <+: operations → P (run apply start done)

theorem survives_nil : Survives apply P start [] ↔ P start := by
  constructor
  · exact fun h => h [] List.prefix_rfl
  · intro h done hdone
    rw [List.prefix_nil.mp hdone]
    exact h

theorem survives_cons {operation : ω} {operations : List ω} :
    Survives apply P start (operation :: operations) ↔
      P start ∧ Survives apply P (apply start operation) operations := by
  constructor
  · exact fun h => ⟨h [] List.nil_prefix,
      fun done hdone => h (operation :: done) (List.cons_prefix_cons.mpr ⟨rfl, hdone⟩)⟩
  · rintro ⟨hstart, hrest⟩ done hdone
    cases done with
    | nil => exact hstart
    | cons first done =>
      obtain ⟨rfl, htail⟩ := List.cons_prefix_cons.mp hdone
      exact hrest done htail

/-- **Operations after each other.** -/
theorem survives_append {operations more : List ω} :
    Survives apply P start (operations ++ more) ↔
      Survives apply P start operations ∧ Survives apply P (run apply start operations) more := by
  induction operations generalizing start with
  | nil =>
    rw [List.nil_append, survives_nil, run_nil]
    exact ⟨fun h => ⟨h [] List.nil_prefix, h⟩, fun h => h.2⟩
  | cons operation operations ih =>
    rw [List.cons_append, survives_cons, survives_cons, ih, run_cons, and_assoc]

theorem Survives.last {operations : List ω} (h : Survives apply P start operations) :
    P (run apply start operations) := h operations List.prefix_rfl

/-- The store after a number of the operations of a program. -/
def interrupted (apply : σ → ω → σ) (program : σ → List ω) (store : σ) (count : ℕ) : σ :=
  run apply store ((program store).take count)

/-- **Interruptions.** What a program preserves at every point survives interruptions. -/
theorem survives_interruptions {program : σ → List ω}
    (hprogram : ∀ store, P store → Survives apply P store (program store)) (hstart : P start)
    (counts : List ℕ) : P (run (interrupted apply program) start counts) :=
  run_invariant (fun store count _ h => hprogram store h _ (List.take_prefix count _)) hstart

end EventMarket.Foundations
