import Mathlib.Logic.Function.Basic
import Mathlib.Algebra.Order.Group.Nat

/-!
# Rings of slots

A queue in a ring of slots is described by the list of everything that was ever pushed: item `i`
of the list is in slot `i` modulo the size, as long as it was not removed. Positions of the ring
are numbers below the size and wrap around.

## Main definitions

* `ringNext`: the position after a position.
* `RingHolds`: the slots hold the items of a list from an index on.

## Main results

* `ringNext_mod`: positions follow the counters.
* `mod_eq_mod_iff`: two positions of counters that are less than the size apart are equal exactly
  when the counters are.
* `RingHolds.push`, `RingHolds.pop`: writing and removing.
-/

namespace EventMarket.Foundations

variable {α : Type*} {size : ℕ} {slots : ℕ → α} {items : List α} {first : ℕ}

/-- The position after a position. -/
def ringNext (size index : ℕ) : ℕ := if index + 1 = size then 0 else index + 1

/-- Positions follow the counters. -/
theorem ringNext_mod (hsize : 0 < size) (count : ℕ) :
    ringNext size (count % size) = (count + 1) % size := by
  have hlt := Nat.mod_lt count hsize
  unfold ringNext
  split_ifs with h
  · rw [Nat.add_mod, ← Nat.mod_eq_of_lt hlt]
    rcases Nat.lt_or_ge 1 size with hone | hone
    · rw [Nat.mod_mod, Nat.mod_eq_of_lt hone, h, Nat.mod_self]
    · obtain rfl : size = 1 := by omega
      simp [Nat.mod_one]
  · rw [Nat.add_mod, Nat.mod_eq_of_lt (show 1 < size by omega),
      Nat.mod_eq_of_lt (show count % size + 1 < size by omega)]

/-- Two positions of counters that are less than the size apart are equal exactly when the
counters are. -/
theorem mod_eq_mod_iff {less more : ℕ} (hle : less ≤ more) (hlt : more < less + size) :
    less % size = more % size ↔ less = more := by
  constructor
  · intro h
    have hgap := Nat.sub_mod_eq_zero_of_mod_eq h.symm
    rw [Nat.mod_eq_of_lt (by omega)] at hgap
    omega
  · rintro rfl
    rfl

/-- The slots hold the items of the list from an index on. -/
def RingHolds (size : ℕ) (slots : ℕ → α) (items : List α) (first : ℕ) : Prop :=
  ∀ i, first ≤ i → i < items.length → items[i]? = some (slots (i % size))

/-- A pushed item is written behind the others, when there is room. -/
theorem RingHolds.push (h : RingHolds size slots items first) (item : α)
    (hroom : items.length < first + size) :
    RingHolds size (Function.update slots (items.length % size) item) (items ++ [item]) first := by
  intro i hfirst hlast
  rw [List.length_append, List.length_singleton] at hlast
  rcases Nat.lt_or_ge i items.length with hold | hnew
  · have hne : i % size ≠ items.length % size := fun heq =>
      Nat.ne_of_lt hold ((mod_eq_mod_iff (Nat.le_of_lt hold) (by omega)).1 heq)
    rw [List.getElem?_append_left hold, Function.update_of_ne hne]
    exact h i hfirst hold
  · obtain rfl : i = items.length := by omega
    simp

/-- The slot of the first item may be overwritten when the item is removed. -/
theorem RingHolds.pop (h : RingHolds size slots items first) (item : α)
    (hroom : items.length ≤ first + size) :
    RingHolds size (Function.update slots (first % size) item) items (first + 1) := by
  intro i hfirst hlast
  have hne : i % size ≠ first % size := fun heq =>
    Nat.ne_of_lt hfirst ((mod_eq_mod_iff (by omega) (by omega)).1 heq.symm)
  rw [Function.update_of_ne hne]
  exact h i (by omega) hlast

end EventMarket.Foundations
