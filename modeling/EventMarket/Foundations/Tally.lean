import Mathlib.Algebra.BigOperators.Group.List.Basic
import Mathlib.Algebra.BigOperators.Intervals
import Mathlib.Algebra.Order.BigOperators.Group.List
import Mathlib.Data.List.GetD

/-!
# Tallies

The items of a list have weights, and the tally is their sum. A machine that changes one item at a
time changes its tallies by the weights of that item, which turns counts, balances and measures of
progress into arithmetic.

## Main definitions

* `tally`: the total weight of some items.

## Main results

* `tally_set`, `tally_append_singleton`: the tally after one item changed, or came to the others.
* `sum_tally`: the tallies of the kinds add up to the whole.
* `tally_getD`, `tally_range_pairs`: the tallies of the positions.
-/

namespace EventMarket.Foundations

variable {α : Type*} {weight weight' : α → ℕ} {items : List α} {index : ℕ} {old item : α}

/-- The total weight of some items. -/
def tally (weight : α → ℕ) (items : List α) : ℕ := (items.map weight).sum

@[simp] theorem tally_nil (weight : α → ℕ) : tally weight [] = 0 := rfl

@[simp] theorem tally_cons (weight : α → ℕ) (item : α) (items : List α) :
    tally weight (item :: items) = weight item + tally weight items := List.sum_cons

theorem tally_append_singleton (weight : α → ℕ) (items : List α) (item : α) :
    tally weight (items ++ [item]) = tally weight items + weight item := by
  simp [tally]

/-- **One item changes.** -/
theorem tally_set (h : items[index]? = some old) (weight : α → ℕ) (new : α) :
    tally weight (items.set index new) + weight old = tally weight items + weight new := by
  induction items generalizing index with
  | nil => cases h
  | cons first items ih =>
    cases index with
    | zero =>
      obtain rfl := Option.some.inj h
      rw [List.set_cons_zero, tally_cons, tally_cons]
      omega
    | succ index =>
      have hrest := ih (h : items[index]? = some old)
      rw [List.set_cons_succ, tally_cons, tally_cons]
      omega

/-- A change that keeps the weight keeps the tally. -/
theorem tally_set_of_eq (h : items[index]? = some old) {new : α}
    (hweight : weight new = weight old) :
    tally weight (items.set index new) = tally weight items := by
  have hset := tally_set h weight new
  omega

theorem tally_congr (h : ∀ item ∈ items, weight item = weight' item) :
    tally weight items = tally weight' items := congrArg List.sum (List.map_congr_left h)

theorem tally_add (weight weight' : α → ℕ) (items : List α) :
    tally (fun item => weight item + weight' item) items =
      tally weight items + tally weight' items := List.sum_map_add

theorem tally_append (weight : α → ℕ) (items more : List α) :
    tally weight (items ++ more) = tally weight items + tally weight more :=
  (congrArg List.sum List.map_append).trans List.sum_append

theorem tally_perm (weight : α → ℕ) {more : List α} (h : items.Perm more) :
    tally weight items = tally weight more := (h.map weight).sum_eq

theorem tally_map {β : Type*} (weight : α → ℕ) (f : β → α) (items : List β) :
    tally weight (items.map f) = tally (weight ∘ f) items := by
  rw [tally, tally, List.map_map]

theorem tally_one (items : List α) : tally (fun _ => 1) items = items.length := by
  induction items with
  | nil => rfl
  | cons item items ih => rw [tally_cons, ih, List.length_cons, Nat.add_comm]

theorem le_tally (weight : α → ℕ) (h : item ∈ items) : weight item ≤ tally weight items :=
  List.single_le_sum (fun _ _ => Nat.zero_le _) _ (List.mem_map_of_mem h)

theorem tally_le_length_mul {bound : ℕ} (h : ∀ item ∈ items, weight item ≤ bound) :
    tally weight items ≤ items.length * bound := by
  induction items with
  | nil => exact Nat.zero_le _
  | cons item items ih =>
    obtain ⟨hfirst, hrest⟩ := List.forall_mem_cons.mp h
    have hle := ih hrest
    rw [tally_cons, List.length_cons, Nat.succ_mul]
    omega

theorem tally_le_mul {bound : ℕ} (h : ∀ item ∈ items, weight item ≤ weight' item * bound) :
    tally weight items ≤ tally weight' items * bound := by
  induction items with
  | nil => exact Nat.zero_le _
  | cons item items ih =>
    obtain ⟨hfirst, hrest⟩ := List.forall_mem_cons.mp h
    have hle := ih hrest
    rw [tally_cons, tally_cons, Nat.add_mul]
    omega

theorem tally_eq_zero (h : ∀ item ∈ items, weight item = 0) : tally weight items = 0 := by
  have hle := tally_le_length_mul fun item hitem => (h item hitem).le
  omega

/-- Items without weight leave nothing. -/
theorem weight_eq_zero (h : tally weight items = 0) : ∀ item ∈ items, weight item = 0 :=
  fun _ hitem => Nat.le_zero.mp ((le_tally weight hitem).trans_eq h)

/-- **The kinds add up.** -/
theorem sum_tally {kind : α → ℕ} {kinds : ℕ} (weight : α → ℕ)
    (h : ∀ item ∈ items, kind item < kinds) :
    ∑ index ∈ Finset.range kinds, tally (fun item => if kind item = index then weight item else 0)
      items = tally weight items := by
  induction items with
  | nil => simp
  | cons item items ih =>
    have hrest := ih fun other hother => h other (List.mem_cons_of_mem _ hother)
    have hfirst := Finset.mem_range.mpr (h item List.mem_cons_self)
    simp only [tally_cons, Finset.sum_add_distrib, hrest]
    rw [Finset.sum_ite_eq, if_pos hfirst]

/-! ### Tallies of ranges -/

/-- The items that are left out weigh nothing. -/
theorem tally_filter (weight : α → ℕ) (keep : α → Bool) (items : List α) :
    tally weight (items.filter keep) = tally (fun item => if keep item then weight item else 0)
      items := by
  induction items with
  | nil => rfl
  | cons item items ih =>
    rw [List.filter_cons, tally_cons, ← ih]
    split
    · rw [tally_cons]
    · rw [Nat.zero_add]

theorem tally_range_succ (weight : ℕ → ℕ) (count : ℕ) :
    tally weight (List.range (count + 1)) = tally weight (List.range count) + weight count := by
  rw [List.range_succ, tally_append_singleton]

/-- Two positions at a time. -/
theorem tally_range_pairs (weight : ℕ → ℕ) (count : ℕ) :
    tally weight (List.range (count * 2)) =
      tally (fun index => weight (index * 2) + weight (index * 2 + 1)) (List.range count) := by
  induction count with
  | zero => rfl
  | succ count ih =>
    rw [tally_range_succ, ← ih, Nat.succ_mul, tally_range_succ, tally_range_succ, Nat.add_assoc]

/-- Positions without weight can be added. -/
theorem tally_range_of_le {weight : ℕ → ℕ} {count more : ℕ} (hle : count ≤ more)
    (hzero : ∀ index, count ≤ index → weight index = 0) :
    tally weight (List.range more) = tally weight (List.range count) := by
  induction more, hle using Nat.le_induction with
  | base => rfl
  | succ more hle ih => rw [tally_range_succ, ih, hzero more hle, Nat.add_zero]

end EventMarket.Foundations
