import EventMarket.Core.BasketSizing

/-!
# Ladders that agree up to a quantity

The searches never look at a ladder beyond the cap. Two ladders agree up to a quantity when they
offer the same levels until it is reached, and the level that reaches it may offer any more than
what is needed. A basket search cannot tell two such ladders apart: its cursors are on the same
level after the same charges.

## Main definitions

* `Agrees`: two ladders agree up to a quantity.
* `CostCursor.Alike`, `BasketSearch.Alike`: the same charges so far, on ladders that agree.

## Main results

* `Agrees.saturatedDepth_eq`: such ladders offer the same quantity within the cap.
* `sizeBuyBasket_congr`: a basket is sized alike on such ladders.
-/

namespace EventMarket.Core

/-- **Two ladders agree up to a quantity.** -/
inductive Agrees : ℕ → List BuyLevel → List BuyLevel → Prop
  /-- Both ladders end before the quantity. -/
  | nil (needed : ℕ) : Agrees needed [] []
  /-- The first level of both reaches the quantity. -/
  | reached {needed : ℕ} {level other : BuyLevel} (rest rest' : List BuyLevel)
      (hprice : level.price = other.price) (hle : needed ≤ level.quantity.raw)
      (hle' : needed ≤ other.quantity.raw) : Agrees needed (level :: rest) (other :: rest')
  /-- The first level is the same, and the quantity is not reached there. -/
  | cons {needed : ℕ} (level : BuyLevel) {rest rest' : List BuyLevel}
      (h : Agrees (needed - level.quantity.raw) rest rest') :
      Agrees needed (level :: rest) (level :: rest')

namespace Agrees

variable {needed : ℕ} {levels levels' : List BuyLevel}

theorem refl (needed : ℕ) (levels : List BuyLevel) : Agrees needed levels levels := by
  induction levels generalizing needed with
  | nil => exact .nil needed
  | cons level levels ih => exact .cons level (ih _)

/-- The saturated quantity is the sum within the cap. -/
theorem foldl_saturated (cap start : ℕ) (levels : List BuyLevel) (hstart : start ≤ cap) :
    levels.foldl (fun total level => min cap (total + min level.quantity.raw cap)) start =
      min cap (start + (levels.map fun level => level.quantity.raw).sum) := by
  induction levels generalizing start with
  | nil => simp [hstart]
  | cons level levels ih =>
    rw [List.foldl_cons, ih _ (min_le_left _ _), List.map_cons, List.sum_cons]
    omega

theorem saturatedDepth_eq_min (cap : ℕ) (levels : List BuyLevel) :
    saturatedDepth cap levels = min cap (levels.map fun level => level.quantity.raw).sum := by
  rw [saturatedDepth, foldl_saturated cap 0 levels (Nat.zero_le _), zero_add]

theorem min_sum_eq (h : Agrees needed levels levels') :
    min needed (levels.map fun level => level.quantity.raw).sum =
      min needed (levels'.map fun level => level.quantity.raw).sum := by
  induction h with
  | nil needed => rfl
  | reached rest rest' hprice hle hle' =>
    rw [List.map_cons, List.map_cons, List.sum_cons, List.sum_cons]
    omega
  | cons level h ih =>
    rw [List.map_cons, List.map_cons, List.sum_cons, List.sum_cons]
    omega

/-- **The quantity offered within the cap.** -/
theorem saturatedDepth_eq {cap : ℕ} (h : Agrees cap levels levels') :
    saturatedDepth cap levels = saturatedDepth cap levels' := by
  rw [saturatedDepth_eq_min, saturatedDepth_eq_min, h.min_sum_eq]

end Agrees

/-! ### Cursors -/

/-- **Cursors that cannot be told apart** up to a quantity. -/
structure CostCursor.Alike (bound : ℕ) (cursor other : CostCursor) : Prop where
  fees : cursor.fees = other.fees
  passed : cursor.passed = other.passed
  levels : Agrees (bound - cursor.passed.quantity) cursor.levels other.levels

namespace CostCursor

variable {bound quantity : ℕ} {cursor other : CostCursor}

/-- Completing levels fails on both ladders, or leaves them alike. -/
theorem complete_alike (fees : FeePolicy) (hle : quantity ≤ bound) {levels levels' : List BuyLevel}
    {passed : CostPrefix} (h : Agrees (bound - passed.quantity) levels levels') :
    (complete fees quantity levels passed = none ∧ complete fees quantity levels' passed = none) ∨
    ∃ rest rest' next, complete fees quantity levels passed = some (rest, next) ∧
      complete fees quantity levels' passed = some (rest', next) ∧
      Agrees (bound - next.quantity) rest rest' := by
  generalize hneeded : bound - passed.quantity = needed at h
  induction h generalizing passed with
  | nil needed => exact Or.inr ⟨[], [], passed, rfl, rfl, hneeded ▸ .nil _⟩
  | @reached needed level other rest rest' hprice hlevel hother =>
    have hstop (offered : ℕ) (hoffered : needed ≤ offered) :
        ¬offered < quantity - passed.quantity := by omega
    refine Or.inr ⟨_, _, passed, if_neg (hstop _ hlevel), if_neg (hstop _ hother), ?_⟩
    exact hneeded ▸ .reached rest rest' hprice hlevel hother
  | @cons needed level rest rest' h ih =>
    unfold complete
    by_cases hpass : level.quantity.raw < quantity - passed.quantity
    · rw [if_pos hpass, if_pos hpass]
      cases hcharge : chargeBuyFill level.quantity.raw level.price fees passed.accumulator with
      | none => exact Or.inl ⟨rfl, rfl⟩
      | some charged =>
        simp only [Option.bind_eq_bind, Option.bind_some]
        exact ih (by simp only [CostPrefix.pass]; omega)
    · rw [if_neg hpass, if_neg hpass]
      exact Or.inr ⟨_, _, passed, rfl, rfl, hneeded ▸ .cons level h⟩

/-- The leg that ends on a level of a price. -/
def lastLeg (fees : FeePolicy) (passed : CostPrefix) (quantity : ℕ) (price : Price) :
    Option SizedLeg := do
  let (charge, _) ← chargeBuyFill (quantity - passed.quantity) price fees passed.accumulator
  let reserve ← buyReservation quantity 1 price fees
  some ⟨price, passed.notional + charge.notional, passed.debit + charge.debit, reserve⟩

theorem at_eq (cursor : CostCursor) (quantity : ℕ) :
    cursor.at quantity =
      (complete cursor.fees quantity cursor.levels cursor.passed).bind fun completed =>
        (completed.1.head?.bind fun level =>
          lastLeg cursor.fees completed.2 quantity level.price).map fun leg =>
            (leg, { cursor with levels := completed.1, passed := completed.2 }) := by
  unfold CostCursor.at
  cases complete cursor.fees quantity cursor.levels cursor.passed with
  | none => rfl
  | some completed =>
    obtain ⟨levels, passed⟩ := completed
    cases levels with
    | nil => rfl
    | cons level levels =>
      simp only [Option.bind_eq_bind, Option.bind_some, List.head?_cons, lastLeg]
      cases chargeBuyFill (quantity - passed.quantity) level.price cursor.fees
          passed.accumulator with
      | none => rfl
      | some charged =>
        simp only [Option.bind_some]
        cases buyReservation quantity 1 level.price cursor.fees <;> rfl

/-- **The leg of both cursors is the same**, and they stay alike. -/
theorem Alike.«at» (h : cursor.Alike bound other) (hle : quantity ≤ bound) :
    (cursor.at quantity = none ∧ other.at quantity = none) ∨
    ∃ leg next next', cursor.at quantity = some (leg, next) ∧
      other.at quantity = some (leg, next') ∧ next.Alike bound next' := by
  rw [at_eq, at_eq, ← h.fees, ← h.passed]
  rcases complete_alike cursor.fees hle h.levels with
    ⟨hnone, hnone'⟩ | ⟨rest, rest', passed, hrest, hrest', hagrees⟩
  · rw [hnone, hnone']
    exact Or.inl ⟨rfl, rfl⟩
  rw [hrest, hrest', Option.bind_some, Option.bind_some]
  have hprices : rest.head?.map BuyLevel.price = rest'.head?.map BuyLevel.price := by
    cases hagrees with
    | nil => rfl
    | reached _ _ hprice => exact congrArg some hprice
    | cons => rfl
  have hlegs : (rest.head?.bind fun level => lastLeg cursor.fees passed quantity level.price) =
      rest'.head?.bind fun level => lastLeg cursor.fees passed quantity level.price := by
    have hmap (levels : List BuyLevel) :
        (levels.head?.bind fun level => lastLeg cursor.fees passed quantity level.price) =
          (levels.head?.map BuyLevel.price).bind (lastLeg cursor.fees passed quantity) := by
      rw [Option.bind_map]
      rfl
    rw [hmap, hmap, hprices]
  rw [hlegs]
  cases rest'.head?.bind fun level => lastLeg cursor.fees passed quantity level.price with
  | none => exact Or.inl ⟨rfl, rfl⟩
  | some leg => exact Or.inr ⟨leg, _, _, rfl, rfl, rfl, rfl, hagrees⟩

end CostCursor

/-! ### Searches -/

/-- **Searches that cannot be told apart** up to a quantity. -/
structure BasketSearch.Alike (bound : ℕ) (search other : BasketSearch) : Prop where
  fields : other = { search with cursors := other.cursors }
  cursors : ∀ leg, (search.cursors leg).Alike bound (other.cursors leg)

namespace BasketSearch

variable {bound q : ℕ} {search other : BasketSearch}

theorem Alike.evaluate (h : search.Alike bound other) (hle : q ≤ bound) :
    (search.evaluate q = none ∧ other.evaluate q = none) ∨
    ∃ legs next next', search.evaluate q = some (legs, next) ∧
      other.evaluate q = some (legs, next') ∧ ∀ leg, (next leg).Alike bound (next' leg) := by
  unfold BasketSearch.evaluate
  rcases (h.cursors 0).at hle with ⟨h0, h0'⟩ | ⟨leg0, next0, other0, h0, h0', halike0⟩
  · simp [h0, h0']
  rcases (h.cursors 1).at hle with ⟨h1, h1'⟩ | ⟨leg1, next1, other1, h1, h1', halike1⟩
  · simp [h0, h0', h1, h1']
  rcases (h.cursors 2).at hle with ⟨h2, h2'⟩ | ⟨leg2, next2, other2, h2, h2', halike2⟩
  · simp [h0, h0', h1, h1', h2, h2']
  refine Or.inr ⟨![leg0, leg1, leg2], ![next0, next1, next2], ![other0, other1, other2], ?_, ?_, ?_⟩
  · simp only [h0, h1, h2, Option.bind_eq_bind, Option.bind_some]
  · simp only [h0', h1', h2', Option.bind_eq_bind, Option.bind_some]
  · intro leg
    fin_cases leg
    · exact halike0
    · exact halike1
    · exact halike2

theorem Alike.finish (h : search.Alike bound other) : other.finish = search.finish := by
  rw [h.fields]
  rfl

theorem Alike.consider (h : search.Alike bound other) (value : SizedBasket) (reserve : ℕ) :
    (search.consider value reserve).Alike bound (other.consider value reserve) := by
  obtain ⟨cursors, rfl⟩ : ∃ cursors, other = { search with cursors } := ⟨_, h.fields⟩
  unfold BasketSearch.consider
  by_cases himproves : value.netMarginMicro > search.limits.minimumMargin.raw ∧
      search.improves value reserve = true
  · rw [if_pos himproves]
    exact (if_pos himproves).symm ▸ ⟨rfl, h.cursors⟩
  · rw [if_neg himproves]
    exact (if_neg himproves).symm ▸ ⟨rfl, h.cursors⟩

/-- **The enumerations of searches that are alike end alike.** -/
theorem Alike.loop (fuel : ℕ) {available : ℕ} (havailable : available ≤ bound)
    (h : search.Alike bound other) (q : ℕ) :
    (∃ result, search.loop fuel available q = .error result ∧
      other.loop fuel available q = .error result) ∨
    ∃ next next', search.loop fuel available q = .ok next ∧
      other.loop fuel available q = .ok next' ∧ next.Alike bound next' := by
  induction fuel generalizing search other q with
  | zero => exact Or.inr ⟨search, other, rfl, rfl, h⟩
  | succ fuel ih =>
    obtain ⟨cursors, hother⟩ : ∃ cursors, other = { search with cursors } := ⟨_, h.fields⟩
    have hcursors : ∀ leg, (search.cursors leg).Alike bound (cursors leg) := by
      have := h.cursors
      rwa [hother] at this
    subst hother
    unfold BasketSearch.loop
    by_cases hend : available < q
    · exact Or.inr ⟨_, _, if_pos hend, if_pos hend, h⟩
    rw [if_neg hend, if_neg hend]
    by_cases hbudget : search.evaluatedQuantities = search.limits.maxEvaluations
    · exact Or.inl ⟨_, if_pos hbudget, if_pos hbudget⟩
    rw [if_neg hbudget, if_neg hbudget]
    have hcounted : BasketSearch.Alike bound
        { search with evaluatedQuantities := search.evaluatedQuantities + 1 }
        { search with cursors, evaluatedQuantities := search.evaluatedQuantities + 1 } :=
      ⟨rfl, hcursors⟩
    rcases hcounted.evaluate ((not_lt.mp hend).trans havailable) with
      ⟨hnone, hnone'⟩ | ⟨legs, next, next', hlegs, hlegs', hnext⟩
    · simp only [hnone, hnone']
      exact Or.inl ⟨_, rfl, rfl⟩
    simp only [hlegs, hlegs']
    by_cases hunfunded : search.limits.available.raw <
        (legs 0).reservation + (legs 1).reservation + (legs 2).reservation
    · rw [if_pos hunfunded, if_pos hunfunded]
      exact Or.inr ⟨_, _, rfl, rfl, rfl, hnext⟩
    rw [if_neg hunfunded, if_neg hunfunded]
    exact ih (Alike.consider ⟨rfl, hnext⟩ _ _) _

end BasketSearch

theorem SizingLimits.ValidBasket.cap_pos {limits : SizingLimits} (h : limits.ValidBasket) :
    0 < limits.cap.raw :=
  lt_of_lt_of_le (Nat.succ_pos _) h.1

/-- **Baskets are sized alike on ladders that agree within the cap.** The whole result is the same:
the status, the quote, the diagnostic and the number of quantities evaluated. -/
theorem sizeBuyBasket_congr {depth depth' : Fin 3 → BuyDepth} {limits : SizingLimits}
    (hvalid : ∀ leg, (depth leg).ValidBasket) (hvalid' : ∀ leg, (depth' leg).ValidBasket)
    (hfees : ∀ leg, (depth leg).fees = (depth' leg).fees)
    (hagrees : limits.ValidBasket → ∀ leg,
      Agrees limits.cap.raw (depth leg).levels (depth' leg).levels) :
    sizeBuyBasket depth limits = sizeBuyBasket depth' limits := by
  unfold sizeBuyBasket
  by_cases hlimits : limits.ValidBasket
  · have hlevels := hagrees hlimits
    have havailable :
        basketAvailable depth limits.cap.raw = basketAvailable depth' limits.cap.raw := by
      simp only [basketAvailable, (hlevels _).saturatedDepth_eq]
    have hcap : basketAvailable depth' limits.cap.raw ≤ limits.cap.raw :=
      ((min_le_left _ _).trans (min_le_left _ _)).trans (min_le_left _ _)
    have hall : limits.ValidBasket ∧ (depth 0).ValidBasket ∧ (depth 1).ValidBasket ∧
        (depth 2).ValidBasket := ⟨hlimits, hvalid 0, hvalid 1, hvalid 2⟩
    have hall' : limits.ValidBasket ∧ (depth' 0).ValidBasket ∧ (depth' 1).ValidBasket ∧
        (depth' 2).ValidBasket := ⟨hlimits, hvalid' 0, hvalid' 1, hvalid' 2⟩
    rw [if_pos hall, if_pos hall', havailable]
    dsimp only
    by_cases hnone : basketAvailable depth' limits.cap.raw < basketQuantityStep
    · rw [if_pos hnone, if_pos hnone]
    rw [if_neg hnone, if_neg hnone]
    have hstart : BasketSearch.Alike limits.cap.raw
        { limits, cursors := fun leg => .start (depth leg) }
        { limits, cursors := fun leg => .start (depth' leg) } :=
      ⟨rfl, fun leg => ⟨hfees leg, rfl, hlevels leg⟩⟩
    rcases hstart.loop (basketAvailable depth' limits.cap.raw / basketQuantityStep) hcap
        basketQuantityStep with ⟨result, hloop, hloop'⟩ | ⟨next, next', hloop, hloop', hnext⟩
    · rw [hloop, hloop']
    · rw [hloop, hloop']
      exact hnext.finish.symm
  · rw [if_neg fun h => hlimits h.1, if_neg fun h => hlimits h.1]

end EventMarket.Core
