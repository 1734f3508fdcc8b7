import Mathlib.Data.Set.Insert
import Mathlib.Order.Lattice

/-!
# A running optimum over a covered set

A search visits some elements of a set, keeps the best one seen and skips the others for a
reason. It is correct when the element it keeps has the largest key over everything it covered,
visited or skipped. `BestOn key s best` says so, and the rules below extend the covered set: by
an element that was compared with the best one, and by a set that the best one dominates.

## Main definitions

* `BestOn`: the kept element is the best of the covered set.
* `keepBest`: the kept element after one more comparison.

## Main results

* `BestOn.keepBest`: one more comparison covers one more element.
* `BestOn.union`: skipping a dominated set covers it.
* `BestOn.isSome_iff`: something is kept exactly when the covered set is not empty.
-/

namespace EventMarket.Foundations

variable {α κ : Type*} [LinearOrder κ] {key : α → κ}

/-- The kept element, if there is one, lies in the covered set and its key is the largest there;
without one, the covered set is empty. -/
structure BestOn (key : α → κ) (s : Set α) (best : Option α) : Prop where
  mem : ∀ b ∈ best, b ∈ s
  dominates : ∀ x ∈ s, ∃ b ∈ best, key x ≤ key b

/-- Keep the better of the kept element and a new one; on a tie the kept element stays. -/
def keepBest (key : α → κ) (best : Option α) (x : α) : Option α :=
  match best with
  | none => some x
  | some b => if key b < key x then some x else some b

namespace BestOn

variable {s t : Set α} {best : Option α}

theorem empty (key : α → κ) : BestOn key ∅ none where
  mem := by simp
  dominates := by simp

/-- After a comparison the kept element dominates the new one and whatever was dominated. -/
theorem keepBest_dominates (key : α → κ) (best : Option α) (x : α) :
    (∃ b ∈ Foundations.keepBest key best x, key x ≤ key b) ∧
      ∀ y, (∃ b ∈ best, key y ≤ key b) → ∃ b ∈ Foundations.keepBest key best x, key y ≤ key b := by
  cases best with
  | none => exact ⟨⟨x, rfl, le_rfl⟩, fun y ⟨b, hb, _⟩ => absurd hb (by simp)⟩
  | some b =>
    unfold Foundations.keepBest
    by_cases h : key b < key x
    · simp only [if_pos h]
      refine ⟨⟨x, rfl, le_rfl⟩, fun y ⟨b', hb', hle⟩ => ⟨x, rfl, ?_⟩⟩
      obtain rfl := Option.some.inj hb'
      exact hle.trans h.le
    · simp only [if_neg h]
      exact ⟨⟨b, rfl, not_lt.mp h⟩, fun y hy => hy⟩

/-- **A compared element is covered.** -/
theorem keepBest (h : BestOn key s best) (x : α) :
    BestOn key (insert x s) (Foundations.keepBest key best x) where
  mem := by
    intro b hb
    cases best with
    | none =>
      obtain rfl := Option.some.inj hb
      exact Set.mem_insert _ _
    | some c =>
      unfold Foundations.keepBest at hb
      by_cases hlt : key c < key x
      · simp only [if_pos hlt] at hb
        obtain rfl := Option.some.inj hb
        exact Set.mem_insert _ _
      · simp only [if_neg hlt] at hb
        exact Set.mem_insert_of_mem _ (h.mem b hb)
  dominates := by
    obtain ⟨hx, hold⟩ := keepBest_dominates key best x
    rintro y (rfl | hy)
    · exact hx
    · exact hold y (h.dominates y hy)

/-- **A dominated set is covered.** -/
theorem union (h : BestOn key s best) (ht : ∀ x ∈ t, ∃ b ∈ best, key x ≤ key b) :
    BestOn key (s ∪ t) best where
  mem := fun b hb => Or.inl (h.mem b hb)
  dominates := by
    rintro x (hx | hx)
    · exact h.dominates x hx
    · exact ht x hx

/-- The covered set may be described otherwise. -/
theorem congr (h : BestOn key s best) (hst : ∀ x, x ∈ s ↔ x ∈ t) : BestOn key t best where
  mem := fun b hb => (hst b).mp (h.mem b hb)
  dominates := fun x hx => h.dominates x ((hst x).mpr hx)

theorem isSome_iff (h : BestOn key s best) : best.isSome ↔ s.Nonempty := by
  constructor
  · intro hb
    obtain ⟨b, rfl⟩ := Option.isSome_iff_exists.mp hb
    exact ⟨b, h.mem b rfl⟩
  · rintro ⟨x, hx⟩
    obtain ⟨b, hb, -⟩ := h.dominates x hx
    exact Option.isSome_iff_exists.mpr ⟨b, hb⟩

end BestOn

end EventMarket.Foundations
