import Mathlib.Data.Nat.Notation
import Mathlib.Tactic.SplitIfs
import Mathlib.Data.Int.Notation

/-!
# Checked arithmetic

A program on machine words and the same program on unbounded numbers agree as long as no result
leaves the range of the words. Here every operation checks that: it has no value when its result
is out of range, when an unsigned difference is negative or when a divisor is zero. A program
written with these operations that has a value has therefore neither wrapped nor divided by zero
on the way.

The programs may also stop with an error of their own, which is no fault of the arithmetic: they
are computations in `ExceptT ε Option`, and `Computes` says that such a computation has no fault
and does what its unchecked counterpart in `Except ε` does.

## Main definitions

* `addIn`, `subIn`, `mulIn`, `divIn`, `modIn`: operations on naturals up to a bound.
* `inRange`: an integer in a range.
* `Computes`: a checked computation has a value, the one of the unchecked computation.

## Main results

* `Computes.bind`: the checked parts of a program can be taken one after the other.
-/

namespace EventMarket.Foundations

/-! ### Operations -/

section Operations

variable {bound a b : ℕ}

/-- A sum within the bound. -/
def addIn (bound a b : ℕ) : Option ℕ := if a + b ≤ bound then some (a + b) else none

/-- A difference that is not negative. -/
def subIn (a b : ℕ) : Option ℕ := if b ≤ a then some (a - b) else none

/-- A product within the bound. -/
def mulIn (bound a b : ℕ) : Option ℕ := if a * b ≤ bound then some (a * b) else none

/-- A quotient by a nonzero divisor. -/
def divIn (a b : ℕ) : Option ℕ := if b = 0 then none else some (a / b)

/-- A remainder by a nonzero divisor. -/
def modIn (a b : ℕ) : Option ℕ := if b = 0 then none else some (a % b)

/-- An integer in a range. -/
def inRange (low high x : ℤ) : Option ℤ := if low ≤ x ∧ x ≤ high then some x else none

theorem addIn_eq (h : a + b ≤ bound) : addIn bound a b = some (a + b) := if_pos h

theorem subIn_eq (h : b ≤ a) : subIn a b = some (a - b) := if_pos h

theorem mulIn_eq (h : a * b ≤ bound) : mulIn bound a b = some (a * b) := if_pos h

theorem divIn_eq (h : 0 < b) : divIn a b = some (a / b) := if_neg (Nat.ne_of_gt h)

theorem modIn_eq (h : 0 < b) : modIn a b = some (a % b) := if_neg (Nat.ne_of_gt h)

theorem inRange_eq {low high x : ℤ} (h : low ≤ x) (h' : x ≤ high) :
    inRange low high x = some x := if_pos ⟨h, h'⟩

end Operations

/-! ### Computations -/

section Computes

variable {ε α β : Type}

/-- **A checked computation without a fault.** It has a value, and it is the value of the
unchecked computation. -/
def Computes (x : ExceptT ε Option α) (y : Except ε α) : Prop := x.run = some y

namespace Computes

theorem pure (a : α) : Computes (Pure.pure a : ExceptT ε Option α) (.ok a) := rfl

theorem throw (e : ε) : Computes (MonadExcept.throw e : ExceptT ε Option α) (.error e) := rfl

/-- **One part after the other.** The second part only has to be free of faults on what the first
part returns. -/
theorem bind {x : ExceptT ε Option α} {y : Except ε α} {f : α → ExceptT ε Option β}
    {g : α → Except ε β} (hx : Computes x y) (hf : ∀ a, y = .ok a → Computes (f a) (g a)) :
    Computes (x >>= f) (y >>= g) := by
  unfold Computes at hx ⊢
  rw [ExceptT.run_bind, hx]
  cases y with
  | error e => rfl
  | ok a => exact hf a rfl

/-- An operation within its range. -/
theorem lift {o : Option α} {a : α} {f : α → ExceptT ε Option β} {y : Except ε β}
    (ho : o = some a) (hf : Computes (f a) y) :
    Computes ((liftM o : ExceptT ε Option α) >>= f) y := by
  subst ho
  exact hf

theorem ite {p : Prop} [Decidable p] {x x' : ExceptT ε Option α} {y y' : Except ε α}
    (h : p → Computes x y) (h' : ¬p → Computes x' y') :
    Computes (if p then x else x') (if p then y else y') := by
  split_ifs with hp
  · exact h hp
  · exact h' hp

end Computes

end Computes

end EventMarket.Foundations
