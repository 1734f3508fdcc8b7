import Mathlib.Algebra.BigOperators.Group.Finset.Basic
import Mathlib.Algebra.Order.BigOperators.Group.Finset
import Mathlib.Data.Int.ConditionallyCompleteOrder
import Mathlib.Data.Int.Interval
import Mathlib.Order.Interval.Finset.Basic
import Mathlib.Tactic

/-!
# The time during which something holds

Time passes in whole ticks. A counter that is brought up to date only now and then, with a flag
that says whether the time since the last update counts, measures how long a predicate has held.

## Main definitions

* `heldTime`: the number of ticks of an interval at which a predicate holds.
* `Measures`: a lazy counter measures a predicate.

## Main results

* `heldTime_append`: consecutive intervals add up.
* `sum_heldTime_eq`: the times of the values of a function fill the interval.
* `Measures.advance`, `Measures.account`: the clock moves on, and the counter catches up.
-/

namespace EventMarket.Foundations

open Finset

open scoped Classical in
/-- The number of ticks of `[first, last)` at which a predicate holds. -/
noncomputable def heldTime (holds : ℤ → Prop) (first last : ℤ) : ℕ :=
  #{t ∈ Ico first last | holds t}

section HeldTime

variable {holds other : ℤ → Prop} {first middle last : ℤ}

@[simp] theorem heldTime_self : heldTime holds first first = 0 := by
  simp [heldTime]

theorem heldTime_congr (h : ∀ t, first ≤ t → t < last → (holds t ↔ other t)) :
    heldTime holds first last = heldTime other first last := by
  classical
  unfold heldTime
  congr 1
  refine filter_congr fun t ht => ?_
  rw [mem_Ico] at ht
  exact h t ht.1 ht.2

theorem heldTime_mono (h : ∀ t, first ≤ t → t < last → holds t → other t) :
    heldTime holds first last ≤ heldTime other first last := by
  classical
  refine card_le_card fun t ht => ?_
  rw [mem_filter, mem_Ico] at ht ⊢
  exact ⟨ht.1, h t ht.1.1 ht.1.2 ht.2⟩

/-- **Consecutive intervals add up.** -/
theorem heldTime_append (hfirst : first ≤ middle) (hlast : middle ≤ last) :
    heldTime holds first last = heldTime holds first middle + heldTime holds middle last := by
  classical
  unfold heldTime
  rw [← Ico_union_Ico_eq_Ico hfirst hlast, filter_union, card_union_of_disjoint]
  exact disjoint_filter_filter (Ico_disjoint_Ico_consecutive first middle last)

/-- What always holds is held for the whole interval. -/
theorem heldTime_of_forall (h : ∀ t, first ≤ t → t < last → holds t) :
    heldTime holds first last = (last - first).toNat := by
  classical
  rw [heldTime, filter_true_of_mem, Int.card_Ico]
  intro t ht
  rw [mem_Ico] at ht
  exact h t ht.1 ht.2

theorem heldTime_of_forall_not (h : ∀ t, first ≤ t → t < last → ¬holds t) :
    heldTime holds first last = 0 := by
  classical
  rw [heldTime, card_eq_zero, filter_eq_empty_iff]
  intro t ht
  rw [mem_Ico] at ht
  exact h t ht.1 ht.2

theorem heldTime_le : heldTime holds first last ≤ (last - first).toNat := by
  classical
  rw [← Int.card_Ico]
  exact card_filter_le _ _

/-- **The values of a function fill the interval.** -/
theorem sum_heldTime_eq {ι : Type*} [Fintype ι] (value : ℤ → ι) :
    ∑ i, heldTime (fun t => value t = i) first last = (last - first).toNat := by
  classical
  rw [← Int.card_Ico, card_eq_sum_card_fiberwise (f := value) (t := univ) (fun t _ => mem_univ _)]
  exact sum_congr rfl fun i _ => by simp [heldTime]

/-- One of several holds for at most the sum of their times. -/
theorem heldTime_exists_le_sum {ι : Type*} [Fintype ι] (family : ι → ℤ → Prop) :
    heldTime (fun t => ∃ i, family i t) first last ≤ ∑ i, heldTime (family i) first last := by
  classical
  unfold heldTime
  refine le_trans (card_le_card fun t ht => ?_) card_biUnion_le
  obtain ⟨hmem, i, hi⟩ := (@mem_filter _ _ (Classical.decPred _) _ _).mp ht
  exact mem_biUnion.mpr ⟨i, mem_univ i, mem_filter.mpr ⟨hmem, hi⟩⟩

end HeldTime

/-! ### Lazy counters -/

/-- **A lazy counter measures a predicate.** The total is the time before `since`; from `since` to
`now` the predicate holds exactly when the counter is running. -/
structure Measures (holds : ℤ → Prop) (first since now : ℤ) (running : Prop) (total : ℕ) :
    Prop where
  first_le : first ≤ since
  le_now : since ≤ now
  total_eq : total = heldTime holds first since
  running_iff : ∀ t, since ≤ t → t < now → (holds t ↔ running)

namespace Measures

variable {holds : ℤ → Prop} {first since now later : ℤ} {running next : Prop} {total : ℕ}

theorem start (holds : ℤ → Prop) (first : ℤ) (running : Prop) :
    Measures holds first first first running 0 :=
  ⟨le_rfl, le_rfl, by simp, fun t hfirst hlast => absurd hlast (not_lt.mpr hfirst)⟩

/-- **The clock moves on** while the predicate does not change. -/
theorem advance (h : Measures holds first since now running total) (hlater : now ≤ later)
    (hrunning : ∀ t, now ≤ t → t < later → (holds t ↔ running)) :
    Measures holds first since later running total where
  first_le := h.first_le
  le_now := h.le_now.trans hlater
  total_eq := h.total_eq
  running_iff t hsince ht := by
    rcases lt_or_ge t now with hnow | hnow
    · exact h.running_iff t hsince hnow
    · exact hrunning t hnow ht

/-- **The counter catches up** with the clock, and may be started or stopped then. -/
theorem account [Decidable running] (h : Measures holds first since now running total)
    (next : Prop) :
    Measures holds first now now next (if running then total + (now - since).toNat else total) where
  first_le := h.first_le.trans h.le_now
  le_now := le_rfl
  total_eq := by
    rw [heldTime_append h.first_le h.le_now, ← h.total_eq]
    split_ifs with hrun
    · rw [heldTime_of_forall fun t hsince hnow => (h.running_iff t hsince hnow).mpr hrun]
    · rw [heldTime_of_forall_not fun t hsince hnow hholds =>
        hrun ((h.running_iff t hsince hnow).mp hholds), Nat.add_zero]
  running_iff t hnow hlast := absurd hlast (not_lt.mpr hnow)

/-- A counter that has just caught up may be started or stopped. -/
theorem restart (h : Measures holds first now now running total) (next : Prop) :
    Measures holds first now now next total :=
  ⟨h.first_le, le_rfl, h.total_eq, fun _ hnow hlast => absurd hlast (not_lt.mpr hnow)⟩

end Measures

end EventMarket.Foundations
