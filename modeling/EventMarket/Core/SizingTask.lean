import EventMarket.Core.OrderBuilding
import EventMarket.Foundations.BestOn
import Mathlib.Algebra.BigOperators.Fin
import Mathlib.Algebra.Order.BigOperators.Group.Finset
import Mathlib.Data.Prod.Lex

/-!
# What a sizing search is asked

Equal quantities are bought on several legs, each at the cost of an order built from scratch, and
together they pay a fixed amount a centicontract. A search looks for the funded grid quantity with
the largest net margin; ties go to the smaller reservation and then to the smaller quantity.

## Main definitions

* `SizingTask`, `LegOrder`: the task and the orders it ranges over.
* `SizingTask.Built`, `SizingTask.Candidate`: an order that can be built, one that may be quoted.
* `LegOrder.Beats`, `SizingTask.Optimal`: the preference, and the best candidate.
* `LegOrder.key`: the preference as a lexicographic key.

## Main results

* `LegOrder.key_lt_iff`: the key orders as the preference does.
* `SizingTask.optimal_of_bestOn`: the best of all candidates by key is optimal.
* `SizingTask.Built.reserve_mono`: an order at least as large reserves at least as much.
-/

namespace EventMarket.Core

open Foundations

/-- The depth of each leg and the constraints on the quantity. Quantities are multiples of `step`,
fills are multiples of `fillStep`. -/
structure SizingTask (n : ℕ) where
  depth : Fin n → BuyDepth
  payout : ℕ
  step : ℕ
  fillStep : ℕ
  cap : ℕ
  available : ℕ
  minimumMargin : ℕ

/-- Equal quantities bought on several legs. -/
@[ext]
structure LegOrder (n : ℕ) where
  quantity : ℕ
  legs : Fin n → SizedLeg

variable {n : ℕ} {task : SizingTask n} {order other : LegOrder n}

namespace LegOrder

/-- The payout less all debits. -/
def margin (payout : ℕ) (order : LegOrder n) : ℤ :=
  order.quantity * payout - ∑ leg, ((order.legs leg).debit : ℤ)

/-- The cash reserved for all legs. -/
def reserve (order : LegOrder n) : ℕ := ∑ leg, (order.legs leg).reservation

/-- The preference among orders: a larger margin, then a smaller reservation, then a smaller
quantity. -/
def Beats (payout : ℕ) (order other : LegOrder n) : Prop :=
  other.margin payout < order.margin payout ∨
    other.margin payout = order.margin payout ∧
      (order.reserve < other.reserve ∨
        order.reserve = other.reserve ∧ order.quantity < other.quantity)

/-- The preference as a key; the better order has the larger key. -/
def key (payout : ℕ) (order : LegOrder n) : ℤ ×ₗ ℤ ×ₗ ℤ :=
  toLex (order.margin payout, toLex (-(order.reserve : ℤ), -(order.quantity : ℤ)))

theorem key_lt_iff {payout : ℕ} :
    other.key payout < order.key payout ↔ order.Beats payout other := by
  simp only [key, Beats, Prod.Lex.toLex_lt_toLex, neg_lt_neg_iff, neg_inj, Nat.cast_lt,
    Nat.cast_inj]
  rw [eq_comm (a := other.reserve)]

theorem quantity_eq_of_key_eq {payout : ℕ} (h : other.key payout = order.key payout) :
    other.quantity = order.quantity := by
  simp only [key, toLex_inj, Prod.mk.injEq, neg_inj, Nat.cast_inj] at h
  exact h.2.2

end LegOrder

namespace SizingTask

/-- An order on the grid and within the cap, built from scratch on each leg. -/
structure Built (task : SizingTask n) (order : LegOrder n) : Prop where
  pos : 0 < order.quantity
  dvd : task.step ∣ order.quantity
  le_cap : order.quantity ≤ task.cap
  built : ∀ leg, buildOrder (task.depth leg) task.fillStep order.quantity = some (order.legs leg)

/-- An order that may be quoted: built, funded, and with more than the minimum margin. -/
structure Candidate (task : SizingTask n) (order : LegOrder n) : Prop extends task.Built order where
  funded : order.reserve ≤ task.available
  margin_lt : task.minimumMargin < order.margin task.payout

/-- The candidate that beats all others. -/
structure Optimal (task : SizingTask n) (order : LegOrder n) : Prop where
  candidate : task.Candidate order
  beats : ∀ other, task.Candidate other → other ≠ order → order.Beats task.payout other

/-- The assumptions of the searches on their input. -/
structure Valid (task : SizingTask n) : Prop where
  fillStep_eq : task.fillStep = 1 ∨ task.fillStep = 100
  fillStep_dvd : task.fillStep ∣ task.step
  step_pos : 0 < task.step
  cap_le : task.cap ≤ quantityBound
  fees_valid : ∀ leg, (task.depth leg).fees.Valid
  ascending : ∀ leg, Ascending (task.depth leg).levels

theorem Valid.reservable (h : task.Valid) (leg : Fin n) {quantity : ℕ} (hdvd : task.step ∣ quantity)
    (hcap : quantity ≤ task.cap) : Reservable quantity task.fillStep (task.depth leg).fees where
  le_bound := hcap.trans h.cap_le
  step_eq := h.fillStep_eq
  dvd := h.fillStep_dvd.trans hdvd
  fee_valid := h.fees_valid leg

/-- A built order is determined by its quantity. -/
theorem Built.eq_of_quantity (h : task.Built order) (h' : task.Built other)
    (hq : order.quantity = other.quantity) : order = other := by
  refine LegOrder.ext hq (funext fun leg => ?_)
  have := h.built leg
  rw [hq, h'.built leg] at this
  exact (Option.some.inj this).symm

/-- **Funding is monotone in the quantity.** -/
theorem Built.reserve_mono (hv : task.Valid) (h : task.Built order) (h' : task.Built other)
    (hle : order.quantity ≤ other.quantity) : order.reserve ≤ other.reserve :=
  Finset.sum_le_sum fun leg _ => reservation_mono (hv.ascending leg)
    (hv.reservable leg h.dvd h.le_cap) (hv.reservable leg h'.dvd h'.le_cap) h.pos hle
    (h.built leg) (h'.built leg)

/-- The candidates with a quantity of interest. -/
def candidates (task : SizingTask n) (P : ℕ → Prop) : Set (LegOrder n) :=
  {order | task.Candidate order ∧ P order.quantity}

theorem mem_candidates {P : ℕ → Prop} :
    order ∈ task.candidates P ↔ task.Candidate order ∧ P order.quantity := Iff.rfl

/-- **The best by key is optimal.** -/
theorem optimal_of_bestOn (task : SizingTask n) {best : Option (LegOrder n)} {P : ℕ → Prop}
    (h : BestOn (LegOrder.key task.payout) (task.candidates P) best)
    (hP : ∀ order, task.Candidate order → P order.quantity) :
    (best.isSome ↔ ∃ order, task.Candidate order) ∧ ∀ order ∈ best, task.Optimal order := by
  constructor
  · rw [h.isSome_iff]
    exact ⟨fun ⟨order, horder, _⟩ => ⟨order, horder⟩, fun ⟨order, horder⟩ =>
      ⟨order, horder, hP order horder⟩⟩
  · intro order horder
    refine ⟨(h.mem order horder).1, fun other hother hne => ?_⟩
    obtain ⟨best, hbest, hle⟩ := h.dominates other ⟨hother, hP other hother⟩
    obtain rfl := Option.mem_unique horder hbest
    refine LegOrder.key_lt_iff.mp (lt_of_le_of_ne hle fun heq => hne ?_)
    exact hother.eq_of_quantity (h.mem order horder).1.toBuilt (LegOrder.quantity_eq_of_key_eq heq)

/-- Comparing one more order covers its quantity. -/
theorem bestOn_insert (task : SizingTask n) {best : Option (LegOrder n)} {P : ℕ → Prop}
    (h : BestOn (LegOrder.key task.payout) (task.candidates P) best)
    (horder : task.Candidate order) :
    BestOn (LegOrder.key task.payout) (task.candidates fun q => P q ∨ q = order.quantity)
      (keepBest (LegOrder.key task.payout) best order) := by
  refine (h.keepBest order).congr fun other => ?_
  simp only [Set.mem_insert_iff, mem_candidates]
  constructor
  · rintro (rfl | ⟨hother, hP⟩)
    · exact ⟨horder, Or.inr rfl⟩
    · exact ⟨hother, Or.inl hP⟩
  · rintro ⟨hother, hP | hq⟩
    · exact Or.inr ⟨hother, hP⟩
    · exact Or.inl (hother.eq_of_quantity horder.toBuilt hq)

/-- Quantities whose candidates are all dominated are covered. -/
theorem bestOn_union (task : SizingTask n) {best : Option (LegOrder n)} {P Q : ℕ → Prop}
    (h : BestOn (LegOrder.key task.payout) (task.candidates P) best)
    (hQ : ∀ order, task.Candidate order → Q order.quantity →
      ∃ b ∈ best, order.key task.payout ≤ b.key task.payout) :
    BestOn (LegOrder.key task.payout) (task.candidates fun q => P q ∨ Q q) best := by
  refine (h.union (t := task.candidates Q) fun order ⟨horder, hq⟩ => hQ order horder hq).congr
    fun order => ?_
  simp only [Set.mem_union, mem_candidates]
  tauto

/-- The quantities of interest only matter at candidates. -/
theorem bestOn_congr {best : Option (LegOrder n)} {P Q : ℕ → Prop}
    (h : BestOn (LegOrder.key task.payout) (task.candidates P) best)
    (hPQ : ∀ order, task.Candidate order → (P order.quantity ↔ Q order.quantity)) :
    BestOn (LegOrder.key task.payout) (task.candidates Q) best := by
  refine h.congr fun order => ?_
  simp only [mem_candidates]
  exact ⟨fun ⟨ho, hp⟩ => ⟨ho, (hPQ order ho).mp hp⟩, fun ⟨ho, hq⟩ => ⟨ho, (hPQ order ho).mpr hq⟩⟩

end SizingTask

end EventMarket.Core
