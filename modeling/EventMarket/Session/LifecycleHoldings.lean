import EventMarket.Session.LifecycleRun
import EventMarket.Session.PositionSequences

/-!
# The holdings of the lifecycle

A position holds what the orders of its leg bought and did not sell, until its market settles. An
exit sells only what one leg has in excess, so what both legs have stays paired.

## Main definitions

* `Order.boughtOn`, `Order.soldOn`: what an order bought and sold on a leg.
* `Leaves`: an exit sells from the excess of its leg.
* `Holds`, `Simulation.Held`: an attempt, and all of them, hold what the orders left.
* `Simulation.Residual`: what the exit of an attempt leaves.

## Main results

* `Simulation.Reached.held`: every state that is reached holds what the orders left.
* `residual_exits_safe`: no exit sells what is not owned or what is paired.
-/

namespace EventMarket.Session

open Constraint Core Foundations Market StudyPositions

namespace Lifecycle

/-! ### What the orders bought and sold -/

/-- What an order bought on a leg of an attempt. -/
def Order.boughtOn (index : ℕ) (leg : Fin 2) (order : Order) : ℕ :=
  if order.attempt = index ∧ order.leg = leg ∧ order.sell = false then order.fill.quantity else 0

/-- What an order sold on a leg of an attempt. -/
def Order.soldOn (index : ℕ) (leg : Fin 2) (order : Order) : ℕ :=
  if order.attempt = index ∧ order.leg = leg ∧ order.sell = true then order.fill.quantity else 0

section Orders

variable {order old new : Order} {orders : List Order} {index position : ℕ} {leg : Fin 2}
  {fill : Execution}

theorem Order.traded_other (h : order.attempt ≠ index) (leg : Fin 2) :
    order.boughtOn index leg = 0 ∧ order.soldOn index leg = 0 :=
  ⟨if_neg fun hboth => h hboth.1, if_neg fun hboth => h hboth.1⟩

theorem Order.traded_empty (h : order.fill = {}) (index : ℕ) (leg : Fin 2) :
    order.boughtOn index leg = 0 ∧ order.soldOn index leg = 0 := by
  unfold boughtOn soldOn
  rw [h]
  constructor <;> split <;> rfl

/-- An order that keeps its fill has traded the same. -/
theorem tally_traded_set (hold : orders[position]? = some old)
    (hattempt : new.attempt = old.attempt)
    (hleg : new.leg = old.leg) (hsell : new.sell = old.sell) (hfill : new.fill = old.fill)
    (index : ℕ) (leg : Fin 2) :
    tally (Order.boughtOn index leg) (orders.set position new) =
        tally (Order.boughtOn index leg) orders ∧
      tally (Order.soldOn index leg) (orders.set position new) =
        tally (Order.soldOn index leg) orders := by
  constructor <;> refine tally_set_of_eq hold ?_
  · simp only [Order.boughtOn, hattempt, hleg, hsell, hfill]
  · simp only [Order.soldOn, hattempt, hleg, hsell, hfill]

/-- Orders that filled nothing have traded nothing. -/
theorem tally_traded_append {more : List Order} (hmore : ∀ order ∈ more, order.fill = {})
    (index : ℕ) (leg : Fin 2) :
    tally (Order.boughtOn index leg) (orders ++ more) = tally (Order.boughtOn index leg) orders ∧
      tally (Order.soldOn index leg) (orders ++ more) = tally (Order.soldOn index leg) orders := by
  constructor
  · rw [tally_append, tally_eq_zero fun order horder =>
      (Order.traded_empty (hmore order horder) index leg).1, add_zero]
  · rw [tally_append, tally_eq_zero fun order horder =>
      (Order.traded_empty (hmore order horder) index leg).2, add_zero]

/-- A buy fills. -/
theorem tally_traded_buy (hold : orders[position]? = some old) (hbuy : old.sell = false)
    (hempty : old.fill = {}) (fill : Execution) (index : ℕ) (leg : Fin 2) :
    tally (Order.boughtOn index leg) (orders.set position { old with arrived := true, fill }) =
        tally (Order.boughtOn index leg) orders +
          (if old.attempt = index ∧ old.leg = leg then fill.quantity else 0) ∧
      tally (Order.soldOn index leg) (orders.set position { old with arrived := true, fill }) =
        tally (Order.soldOn index leg) orders := by
  have hset (weight : Order → ℕ) := tally_set hold weight { old with arrived := true, fill }
  have hbought := hset (Order.boughtOn index leg)
  have hsold := hset (Order.soldOn index leg)
  rw [(Order.traded_empty hempty index leg).1] at hbought
  rw [(Order.traded_empty hempty index leg).2] at hsold
  simp only [Order.boughtOn, Order.soldOn, hbuy, and_true, Bool.false_eq_true, and_false,
    if_false] at hbought hsold ⊢
  exact ⟨hbought, hsold⟩

/-- An exit fills. -/
theorem tally_traded_sale (hold : orders[position]? = some old) (hsell : old.sell = true)
    (hempty : old.fill = {}) (fill : Execution) (index : ℕ) (leg : Fin 2) :
    tally (Order.boughtOn index leg) (orders.set position { old with arrived := true, fill }) =
        tally (Order.boughtOn index leg) orders ∧
      tally (Order.soldOn index leg) (orders.set position { old with arrived := true, fill }) =
        tally (Order.soldOn index leg) orders +
          (if old.attempt = index ∧ old.leg = leg then fill.quantity else 0) := by
  have hset (weight : Order → ℕ) := tally_set hold weight { old with arrived := true, fill }
  have hbought := hset (Order.boughtOn index leg)
  have hsold := hset (Order.soldOn index leg)
  rw [(Order.traded_empty hempty index leg).1] at hbought
  rw [(Order.traded_empty hempty index leg).2] at hsold
  simp only [Order.boughtOn, Order.soldOn, hsell, and_true, Bool.true_eq_false, and_false,
    if_false] at hbought hsold ⊢
  exact ⟨hbought, hsold⟩

end Orders

/-! ### What an attempt holds -/

/-- The leg that is not the given one. -/
def otherLeg (leg : Fin 2) : Fin 2 := if leg = 0 then 1 else 0

/-- **An exit sells from the excess of its leg**, and no more than it was sent for. -/
structure Leaves (attempt : Attempt) (order : Order) : Prop where
  fill_le : order.fill.quantity ≤ order.quantity
  excess : (attempt.fills (otherLeg order.leg)).quantity + order.quantity ≤
    (attempt.fills order.leg).quantity

/-- **What an attempt holds**: until the market of a leg settles, what its orders bought and did not
sell, and nothing after it. -/
structure Holds (positions : StudyPositions) (settled : MarketId → Bool) (orders : List Order)
    (index : ℕ) (attempt : Attempt) : Prop where
  leg : ∀ leg : Fin 2, (positions.position (index * 2 + leg)).quantity ≠ 0 →
    (positions.position (index * 2 + leg)).leg = attempt.legs leg
  bought : ∀ leg, (attempt.fills leg).quantity = tally (Order.boughtOn index leg) orders
  owned : ∀ leg : Fin 2, settled (attempt.legs leg).marketId = false →
    (positions.position (index * 2 + leg)).quantity + tally (Order.soldOn index leg) orders =
      (attempt.fills leg).quantity
  closed : ∀ leg : Fin 2, settled (attempt.legs leg).marketId = true →
    (positions.position (index * 2 + leg)).quantity = 0
  exits : ∀ order ∈ orders, order.attempt = index → order.sell = true → Leaves attempt order

/-- What an acquisition adds to a position, and what it leaves alone. -/
structure Gained (index quantity : ℕ) (leg : PayoffLegTemplate) (time : ℕ)
    (before after : StudyPositions) : Prop where
  other : ∀ other, other ≠ index → after.position other = before.position other
  length : after.positions.length = before.positions.length
  sound : StudyPositions.Sound time after
  kept : quantity = 0 → after.position index = before.position index
  leg : quantity ≠ 0 → (after.position index).leg = leg
  quantity : (after.position index).quantity = (before.position index).quantity + quantity

theorem Gained.refl {before : StudyPositions} {time : ℕ} (h : StudyPositions.Sound time before)
    (index : ℕ) (leg : PayoffLegTemplate) : Gained index 0 leg time before before :=
  ⟨fun _ _ => rfl, rfl, h, fun _ => rfl, fun hne => absurd rfl hne, rfl⟩

/-- An acquisition sets the leg of its position. -/
theorem leg_acquire {before after : StudyPositions} {attempt legIndex time : ℕ}
    {leg : PayoffLegTemplate} {quantity debit : ℤ}
    (h : before.acquire attempt legIndex leg quantity debit time = .ok after) :
    (after.position (attempt * 2 + legIndex)).leg = leg := by
  unfold StudyPositions.acquire at h
  obtain ⟨index, hindex, hrest⟩ := bind_eq_ok h
  unfold StudyPositions.find at hindex
  dsimp only at hrest
  split at hindex
  · next hlt =>
    obtain rfl := Except.ok.inj hindex
    split at hrest
    · cases hrest
    · have hafter : before.afterAcquire (attempt * 2 + legIndex) leg quantity.toNat debit.toNat
          time = after := Except.ok.inj hrest
      rw [← hafter, position_afterAcquire hlt, if_pos rfl]
      rfl
  · cases hindex

/-- **An acquisition** adds to its position. -/
theorem gained_acquire {before after : StudyPositions} {now time attempt legIndex : ℕ}
    {leg : PayoffLegTemplate} {quantity debit : ℕ} (hsound : StudyPositions.Sound now before)
    (hle : now ≤ time) (hpos : quantity ≠ 0)
    (h : before.acquire attempt legIndex leg quantity debit time = .ok after) :
    Gained (attempt * 2 + legIndex) quantity leg time before after := by
  rcases acquire_spec hsound hle attempt legIndex leg quantity debit with
    hnone | hrefused | ⟨next, hok, hnext, hacquired⟩
  · exact absurd (h.symm.trans hnone) (by simp)
  · exact absurd (h.symm.trans hrefused) (by simp [StudyPositions.reject])
  · obtain rfl := Except.ok.inj (h.symm.trans hok)
    exact ⟨hacquired.position, hacquired.positions_length, hnext,
      fun hzero => absurd hzero hpos, fun _ => leg_acquire h, hacquired.quantity⟩

section Holds

variable {positions positions' : StudyPositions} {settled settled' : MarketId → Bool}
  {orders orders' : List Order} {index position : ℕ} {attempt attempt' : Attempt}
  {old new : Order} {leg leg' : Fin 2}

/-- Positions, fills and orders that stay. -/
theorem Holds.keeps (h : Holds positions settled orders index attempt)
    (hposition : ∀ leg : Fin 2, positions'.position (index * 2 + leg) =
      positions.position (index * 2 + leg))
    (hlegs : attempt'.legs = attempt.legs) (hfills : attempt'.fills = attempt.fills)
    (htraded : ∀ leg, tally (Order.boughtOn index leg) orders' =
        tally (Order.boughtOn index leg) orders ∧
      tally (Order.soldOn index leg) orders' = tally (Order.soldOn index leg) orders)
    (hexits : ∀ order ∈ orders', order.attempt = index → order.sell = true →
      Leaves attempt' order) : Holds positions' settled orders' index attempt' where
  leg := by
    intro leg
    rw [hposition, hlegs]
    exact h.leg leg
  bought := by
    intro leg
    rw [hfills, (htraded leg).1]
    exact h.bought leg
  owned := by
    intro leg
    rw [hposition, hlegs, hfills, (htraded leg).2]
    exact h.owned leg
  closed := by
    intro leg
    rw [hposition, hlegs]
    exact h.closed leg
  exits := hexits

/-- The exits of an attempt do not notice when its counters change. -/
theorem Leaves.congr {order : Order} (h : Leaves attempt order)
    (hfills : attempt'.fills = attempt.fills) : Leaves attempt' order := by
  refine ⟨h.fill_le, ?_⟩
  rw [hfills]
  exact h.excess

/-- An attempt is not touched by an order of another one. -/
theorem Holds.set_other (h : Holds positions settled orders index attempt)
    (hold : orders[position]? = some old) (hne : old.attempt ≠ index)
    (hsame : new.attempt = old.attempt)
    (hposition : ∀ leg : Fin 2, positions'.position (index * 2 + leg) =
      positions.position (index * 2 + leg)) :
    Holds positions' settled (orders.set position new) index attempt := by
  have hne' : new.attempt ≠ index := hsame ▸ hne
  refine h.keeps hposition rfl rfl (fun leg => ?_) fun order horder howner hsell => ?_
  · obtain ⟨hbought, hsold⟩ := Order.traded_other hne leg
    obtain ⟨hbought', hsold'⟩ := Order.traded_other hne' leg
    exact ⟨tally_set_of_eq hold (hbought'.trans hbought.symm),
      tally_set_of_eq hold (hsold'.trans hsold.symm)⟩
  · rcases List.mem_or_eq_of_mem_set horder with hmem | rfl
    · exact h.exits order hmem howner hsell
    · exact absurd howner hne'

theorem index_ne {other : ℕ} (h : index ≠ other) (leg leg' : Fin 2) :
    index * 2 + (leg : ℕ) ≠ other * 2 + (leg' : ℕ) := by
  have hleg := leg.isLt
  have hleg' := leg'.isLt
  omega

theorem leg_index_ne (h : leg ≠ leg') (index : ℕ) :
    index * 2 + (leg : ℕ) ≠ index * 2 + (leg' : ℕ) := by
  have hne := Fin.val_ne_of_ne h
  omega

/-- **A leg is bought** and its position acquires it. -/
theorem Holds.buy (h : Holds positions settled orders index attempt)
    (hold : orders[position]? = some old) (howner : old.attempt = index)
    (hbuy : old.sell = false) (hempty : old.fill = {}) (fill : Execution)
    (hnone : ∀ order ∈ orders, order.attempt = index → order.sell = false)
    (hopen : fill.quantity ≠ 0 → settled (attempt.legs old.leg).marketId = false)
    (hother : ∀ leg : Fin 2, leg ≠ old.leg →
      positions'.position (index * 2 + leg) = positions.position (index * 2 + leg))
    (hquantity : (positions'.position (index * 2 + old.leg)).quantity =
      (positions.position (index * 2 + old.leg)).quantity + fill.quantity)
    (hleg : (positions'.position (index * 2 + old.leg)).quantity ≠ 0 →
      (positions'.position (index * 2 + old.leg)).leg = attempt.legs old.leg) :
    Holds positions' settled (orders.set position { old with arrived := true, fill }) index
      (attempt.fill old.leg fill) := by
  have htraded := tally_traded_buy hold hbuy hempty fill index
  have hfilled (leg : Fin 2) : ((attempt.fill old.leg fill).fills leg).quantity =
      (attempt.fills leg).quantity + if old.leg = leg then fill.quantity else 0 := by
    by_cases heq : leg = old.leg
    · subst heq
      simp [Attempt.fill, aggregate]
    · rw [if_neg (Ne.symm heq), add_zero]
      exact congrArg Execution.quantity (Function.update_of_ne heq _ _)
  refine ⟨fun leg => ?_, fun leg => ?_, fun leg hsettled => ?_, fun leg hsettled => ?_, ?_⟩
  · by_cases heq : leg = old.leg
    · exact heq ▸ hleg
    · rw [hother leg heq]
      exact h.leg leg
  · rw [hfilled, (htraded leg).1, h.bought]
    simp [howner]
  · rw [hfilled, (htraded leg).2]
    have howned := h.owned leg hsettled
    by_cases heq : leg = old.leg
    · subst heq
      rw [hquantity, if_pos rfl]
      omega
    · rw [hother leg heq, if_neg (Ne.symm heq), add_zero]
      exact howned
  · have hclosed := h.closed leg hsettled
    by_cases heq : leg = old.leg
    · subst heq
      have hzero : fill.quantity = 0 := by
        by_contra hne
        exact absurd ((hopen hne).symm.trans hsettled) Bool.noConfusion
      rw [hquantity, hclosed, hzero]
    · rw [hother leg heq]
      exact hclosed
  · intro order horder horderOwner hsell
    rcases List.mem_or_eq_of_mem_set horder with hmem | rfl
    · exact absurd ((hnone order hmem horderOwner).symm.trans hsell) Bool.noConfusion
    · exact absurd (hbuy.symm.trans hsell) Bool.noConfusion

/-- **An exit sells** from the position of its leg. -/
theorem Holds.sell (h : Holds positions settled orders index attempt)
    (hold : orders[position]? = some old) (howner : old.attempt = index)
    (hsell : old.sell = true) (hempty : old.fill = {}) (fill : Execution)
    (hle : fill.quantity ≤ old.quantity)
    (hother : ∀ leg : Fin 2, leg ≠ old.leg →
      positions'.position (index * 2 + leg) = positions.position (index * 2 + leg))
    (hquantity : (positions'.position (index * 2 + old.leg)).quantity + fill.quantity =
      (positions.position (index * 2 + old.leg)).quantity)
    (hleg : (positions'.position (index * 2 + old.leg)).leg =
      (positions.position (index * 2 + old.leg)).leg) :
    Holds positions' settled (orders.set position { old with arrived := true, fill }) index
      attempt := by
  have htraded := tally_traded_sale hold hsell hempty fill index
  refine ⟨fun leg => ?_, fun leg => ?_, fun leg hsettled => ?_, fun leg hsettled => ?_, ?_⟩
  · by_cases heq : leg = old.leg
    · subst heq
      rw [hleg]
      intro hne
      exact h.leg old.leg (by omega)
    · rw [hother leg heq]
      exact h.leg leg
  · rw [(htraded leg).1]
    exact h.bought leg
  · rw [(htraded leg).2]
    have howned := h.owned leg hsettled
    by_cases heq : leg = old.leg
    · subst heq
      rw [if_pos ⟨howner, rfl⟩]
      omega
    · rw [hother leg heq, if_neg fun hboth => heq hboth.2.symm, add_zero]
      exact howned
  · have hclosed := h.closed leg hsettled
    by_cases heq : leg = old.leg
    · subst heq
      omega
    · rw [hother leg heq]
      exact hclosed
  · intro order horder horderOwner hexit
    rcases List.mem_or_eq_of_mem_set horder with hmem | rfl
    · exact h.exits order hmem horderOwner hexit
    · exact ⟨hle, (h.exits old (List.mem_of_getElem? hold) howner hsell).excess⟩

/-- **A settlement** empties the positions of its market. -/
theorem Holds.settle (h : Holds positions settled orders index attempt) {settlement : Settlement}
    {closed : SettlementResult} {indices : List ℕ} {result : SettlementResult}
    (hindex : ∀ leg : Fin 2, index * 2 + (leg : ℕ) ∈ indices)
    (hsettles : Settled settlement indices positions positions' result closed)
    (hmore : ∀ market, settled' market =
      (decide (market = settlement.marketId) || settled market)) :
    Holds positions' settled' orders index attempt := by
  have hempty (leg : Fin 2) (hmarket : (attempt.legs leg).marketId = settlement.marketId) :
      (positions'.position (index * 2 + leg)).quantity = 0 := by
    by_cases hzero : (positions.position (index * 2 + leg)).quantity = 0
    · rw [(hsettles.kept _ ?_).position, hzero]
      rintro ⟨-, hyes⟩
      simp [Position.settles, hzero] at hyes
    · refine (hsettles.emptied _ (hindex leg) ?_).quantity
      simp [Position.settles, hzero, h.leg leg hzero, hmarket]
  have hkept (leg : Fin 2) (hmarket : (attempt.legs leg).marketId ≠ settlement.marketId) :
      positions'.position (index * 2 + leg) = positions.position (index * 2 + leg) := by
    refine (hsettles.kept _ ?_).position
    rintro ⟨-, hyes⟩
    simp only [Position.settles, Bool.and_eq_true, bne_iff_ne, ne_eq, beq_iff_eq] at hyes
    exact hmarket (h.leg leg hyes.1 ▸ hyes.2)
  refine ⟨fun leg => ?_, h.bought, fun leg hsettled => ?_, fun leg hsettled => ?_, h.exits⟩
  · by_cases hmarket : (attempt.legs leg).marketId = settlement.marketId
    · exact fun hne => absurd (hempty leg hmarket) hne
    · rw [hkept leg hmarket]
      exact h.leg leg
  · rw [hmore, Bool.or_eq_false_iff, decide_eq_false_iff_not] at hsettled
    rw [hkept leg hsettled.1]
    exact h.owned leg hsettled.2
  · by_cases hmarket : (attempt.legs leg).marketId = settlement.marketId
    · exact hempty leg hmarket
    · rw [hmore, decide_eq_false hmarket, Bool.false_or] at hsettled
      rw [hkept leg hmarket]
      exact h.closed leg hsettled

end Holds

end Lifecycle

namespace Simulation

open Lifecycle

variable {study : LifecycleStudy} {self next : Simulation study} {event : Event}
  {order old new : Order} {attempt attempt' : Lifecycle.Attempt} {index owner position : ℕ}
  {now time : ℕ} {due : Due} {state : MarketState} {positions : StudyPositions}

/-! ### What the simulation holds -/

/-- **The positions hold what the orders left**, and the positions of no attempt hold nothing. -/
structure Held (current : Simulation study) : Prop where
  length : current.positions.positions.length = study.constraints.size * 2
  sound : ∃ time, StudyPositions.Sound time current.positions ∧
    (time = 0 ∨ time ∈ current.processedTimes)
  unused : ∀ index, current.attempts.length ≤ index → ∀ leg : Fin 2,
    (current.positions.position (index * 2 + leg)).quantity = 0
  holds : ∀ index attempt, current.attempts[index]? = some attempt →
    Holds current.positions current.settled current.orders index attempt

theorem held_initial : (initial study).Held where
  length := List.length_replicate
  sound := ⟨0, reserve_sound _, .inl rfl⟩
  unused := by
    intro index _ leg
    have hnone : (StudyPositions.reserve study.constraints.size).position (index * 2 +
      leg) = {} := by
      unfold StudyPositions.reserve StudyPositions.position
      rw [List.getD_eq_getElem?_getD, List.getElem?_replicate]
      split <;> rfl
    exact congrArg Position.quantity hnone
  holds := by rintro _ _ ⟨⟩

/-- **Steps that trade nothing**: the positions stay, and the orders that come have no fill. -/
theorem Held.keeps (h : self.Held) (hpositions : next.positions = self.positions)
    (hsettled : next.settledMarkets = self.settledMarkets)
    (hprocessed : ∀ time ∈ self.processedTimes, time ∈ next.processedTimes)
    (hlength : self.attempts.length ≤ next.attempts.length)
    (hholds : ∀ index attempt, next.attempts[index]? = some attempt →
      Holds self.positions self.settled next.orders index attempt) : next.Held where
  length := hpositions ▸ h.length
  sound := by
    obtain ⟨time, hsound, hzero | hmem⟩ := h.sound
    · exact ⟨time, hpositions ▸ hsound, .inl hzero⟩
    · exact ⟨time, hpositions ▸ hsound, .inr (hprocessed time hmem)⟩
  unused := fun index hindex => hpositions ▸ h.unused index (hlength.trans hindex)
  holds := by
    intro index attempt hattempt
    have hsame : next.settled = self.settled := by
      funext market
      rw [settled, settled, hsettled]
    rw [hpositions, hsame]
    exact hholds index attempt hattempt

/-- One attempt changes, but not what it holds. -/
theorem Held.setAttempt (h : self.Held) (hattempt : self.attempts[owner]? = some attempt)
    (attempt' : Lifecycle.Attempt) (hlegs : attempt'.legs = attempt.legs)
    (hfills : attempt'.fills = attempt.fills) (hpositions : next.positions = self.positions)
    (hsettled : next.settledMarkets = self.settledMarkets)
    (hprocessed : ∀ time ∈ self.processedTimes, time ∈ next.processedTimes)
    (hattempts : next.attempts = self.attempts.set owner attempt')
    (htraded : ∀ index leg, tally (Order.boughtOn index leg) next.orders =
        tally (Order.boughtOn index leg) self.orders ∧
      tally (Order.soldOn index leg) next.orders = tally (Order.soldOn index leg) self.orders)
    (hexits : ∀ order ∈ next.orders, order.sell = true →
      (∃ same ∈ self.orders, same.attempt = order.attempt ∧ same.sell = true ∧
        ∀ attempt : Lifecycle.Attempt, Leaves attempt same → Leaves attempt order) ∨
      order.attempt = owner ∧ Leaves attempt order) : next.Held := by
  refine h.keeps hpositions hsettled hprocessed (by rw [hattempts, List.length_set])
    fun index other hother => ?_
  have hleaves (known : Lifecycle.Attempt) (hknown : self.attempts[index]? = some known) :
      ∀ order ∈ next.orders, order.attempt = index → order.sell = true → Leaves known order := by
    intro order horder howner hsell
    rcases hexits order horder hsell with ⟨same, hmem, hsame, hsold, hkeeps⟩ | ⟨hindex, hnew⟩
    · exact hkeeps known ((h.holds index known hknown).exits same hmem (hsame.trans howner) hsold)
    · obtain rfl := Option.some.inj (hattempt.symm.trans (hindex ▸ howner ▸ hknown))
      exact hnew
  rw [hattempts, List.getElem?_set] at hother
  split_ifs at hother with heq hlt
  · obtain rfl := Option.some.inj hother
    subst heq
    refine (h.holds owner attempt hattempt).keeps (fun _ => rfl) hlegs hfills (htraded owner) ?_
    exact fun order horder howner hsell =>
      (hleaves attempt hattempt order horder howner hsell).congr hfills
  · exact (h.holds index other hother).keeps (fun _ => rfl) rfl rfl (htraded index)
      (hleaves other hother)

/-! ### Events -/

theorem Held.time_le (h : self.Held) (hpast : ∀ time ∈ self.processedTimes, time ≤ due.time) :
    ∃ clock ≤ due.time, StudyPositions.Sound clock self.positions := by
  obtain ⟨clock, hsound, rfl | hmem⟩ := h.sound
  · exact ⟨0, Nat.zero_le _, hsound⟩
  · exact ⟨clock, hpast clock hmem, hsound⟩

theorem index_lt (h : self.Held) (horderly : self.Orderly) (hindex : index < self.attempts.length)
    (leg : Fin 2) : index * 2 + (leg : ℕ) < self.positions.positions.length := by
  have hsize := horderly.within_bound.1
  have hleg := leg.isLt
  rw [h.length]
  omega

/-- A settlement. -/
theorem Held.settles (h : self.Held) (horderly : self.Orderly) {settlement : Settlement}
    {closed : SettlementResult} (hclock : time ≤ settlement.time)
    (hsound : StudyPositions.Sound time self.positions)
    (hsettle : self.positions.settle settlement = .ok (closed, positions))
    (hprocessed : settlement.time ∈ next.processedTimes)
    (hnext : next = self.advanceSettlement.recordSettlement settlement closed positions) :
    next.Held := by
  rcases settle_spec hsound hclock with ⟨left, hfull⟩ | ⟨error, left, -, -, hrefused⟩ |
    ⟨result, after, hok, hafter, hsettled⟩
  · exact absurd (hsettle.symm.trans hfull) (by simp)
  · exact absurd (hsettle.symm.trans hrefused) (by simp)
  obtain ⟨rfl, rfl⟩ := Prod.mk.inj (Except.ok.inj (hsettle.symm.trans hok))
  have hpositions : next.positions = positions := hnext ▸ rfl
  have hattempts : next.attempts = self.attempts := hnext ▸ rfl
  have horders : next.orders = self.orders := hnext ▸ rfl
  have hmarkets : next.settledMarkets = settlement.marketId :: self.settledMarkets := hnext ▸ rfl
  refine ⟨?_, ⟨settlement.time, hpositions ▸ hafter, .inr hprocessed⟩, ?_, ?_⟩
  · rw [hpositions, hsettled.positions_length, h.length]
  · rw [hattempts, hpositions]
    intro index hindex leg
    have hzero := h.unused index hindex leg
    rw [(hsettled.kept _ ?_).position, hzero]
    rintro ⟨-, hyes⟩
    simp [Position.settles, hzero] at hyes
  · rw [hattempts, hpositions, horders]
    intro index attempt hattempt
    have hlt := (List.getElem?_eq_some_iff.mp hattempt).1
    refine (h.holds index attempt hattempt).settle
      (fun leg => List.mem_range.mpr (index_lt h horderly hlt leg)) hsettled fun market => ?_
    rw [Simulation.settled, hmarkets, Simulation.settled]
    simp

section Front

variable (hfront : self.Front event order attempt)

include hfront

/-- The order of the event trades on its leg; the others do not notice. -/
theorem Held.trades (h : self.Held) (new : Order) (attempt' : Lifecycle.Attempt)
    (hsame : new.attempt = order.attempt)
    (hother : ∀ other, other ≠ order.attempt * 2 + order.leg →
      next.positions.position other = self.positions.position other)
    (hlength : next.positions.positions.length = self.positions.positions.length)
    (hsound : StudyPositions.Sound time next.positions) (hprocessed : time ∈ next.processedTimes)
    (hattempts : next.attempts = self.attempts.set order.attempt attempt')
    (horders : next.orders = self.orders.set event.order new)
    (hsettled : next.settledMarkets = self.settledMarkets)
    (hholds : Holds next.positions self.settled next.orders order.attempt attempt') :
    next.Held := by
  have hlt := (List.getElem?_eq_some_iff.mp hfront.attemptAt).1
  refine ⟨hlength.trans h.length, ⟨time, hsound, .inr hprocessed⟩, fun index hindex leg => ?_,
    fun index known hknown => ?_⟩
  · rw [hattempts, List.length_set] at hindex
    rw [hother _ (index_ne (hlt.trans_le hindex).ne' leg order.leg)]
    exact h.unused index hindex leg
  · have hmarkets : next.settled = self.settled := by
      funext market
      rw [Simulation.settled, Simulation.settled, hsettled]
    rw [hattempts, List.getElem?_set] at hknown
    rw [hmarkets]
    split_ifs at hknown with heq
    · obtain rfl := Option.some.inj hknown
      exact heq ▸ hholds
    · rw [horders]
      exact (h.holds index known hknown).set_other hfront.orderAt heq hsame fun leg =>
        hother _ (index_ne (Ne.symm heq) leg order.leg)

/-- A buy arrives, and its position acquires what it filled. -/
theorem Held.buys (h : self.Held) (horderly : self.Orderly) (hbalanced : self.Balanced)
    (harrival : event.response = false) (hbuy : order.sell = false) (fill : Execution)
    (hopen : fill.quantity ≠ 0 → self.settled (attempt.legs order.leg).marketId = false)
    (hgained : Gained (order.attempt * 2 + order.leg) fill.quantity (attempt.legs order.leg)
      event.time self.positions next.positions)
    (hprocessed : event.time ∈ next.processedTimes)
    (hattempts : next.attempts = self.attempts.set order.attempt (attempt.fill order.leg fill))
    (horders : next.orders = self.orders.set event.order { order with arrived := true, fill })
    (hsettled : next.settledMarkets = self.settledMarkets) : next.Held := by
  have hempty := hbalanced.unfilled order hfront.mem (hfront.arrived.trans harrival)
  have hnone : ∀ other ∈ self.orders, other.attempt = order.attempt → other.sell = false := by
    intro other hother howner
    have haccounts := horderly.accounts _ _ hfront.attemptAt
    have hfirst := (haccounts.not_considered hfront.mem rfl hbuy hfront.unanswered).2
    have hexits := haccounts.exits
    rw [hfirst, if_neg Bool.false_ne_true] at hexits
    have hone := weight_eq_zero (Nat.le_zero.mp hexits) other hother
    by_contra hsell
    rw [Order.isExit, if_pos ⟨howner, Bool.not_eq_false _ ▸ hsell⟩] at hone
    exact Nat.one_ne_zero hone
  have hheld := h.holds _ _ hfront.attemptAt
  refine h.trades hfront { order with arrived := true, fill } (attempt.fill order.leg fill) rfl
    hgained.other hgained.length hgained.sound hprocessed hattempts horders hsettled ?_
  rw [horders]
  refine hheld.buy hfront.orderAt rfl hbuy hempty fill hnone hopen
    (fun leg hne => hgained.other _ (leg_index_ne hne _)) hgained.quantity fun hne => ?_
  by_cases hzero : fill.quantity = 0
  · rw [hgained.kept hzero] at hne ⊢
    exact hheld.leg order.leg hne
  · exact hgained.leg hzero

/-- An exit arrives, and sells from its position. -/
theorem Held.sells (h : self.Held) (hbalanced : self.Balanced) (harrival : event.response = false)
    (hsell : order.sell = true) (fill : Execution) (hle : fill.quantity ≤ order.quantity)
    {basis : ℕ} (hclosed : StudyPositions.Closed (order.attempt * 2 + order.leg) fill.quantity basis
      self.positions next.positions)
    (hsound : StudyPositions.Sound event.time next.positions)
    (hprocessed : event.time ∈ next.processedTimes) (hattempts : next.attempts = self.attempts)
    (horders : next.orders = self.orders.set event.order { order with arrived := true, fill })
    (hsettled : next.settledMarkets = self.settledMarkets) : next.Held := by
  have hempty := hbalanced.unfilled order hfront.mem (hfront.arrived.trans harrival)
  refine h.trades hfront { order with arrived := true, fill } attempt rfl
    hclosed.position hclosed.positions_length hsound hprocessed
    (hattempts.trans (set_same hfront.attemptAt).symm) horders hsettled ?_
  rw [horders]
  exact (h.holds _ _ hfront.attemptAt).sell hfront.orderAt rfl hsell hempty fill hle
    (fun leg hne => hclosed.position _ (leg_index_ne hne _)) hclosed.quantity hclosed.leg

/-- The response to the order of the event. -/
theorem Held.responds (h : self.Held) (attempt' : Lifecycle.Attempt)
    (hlegs : attempt'.legs = attempt.legs) (hfills : attempt'.fills = attempt.fills)
    (hpositions : next.positions = self.positions)
    (hsettled : next.settledMarkets = self.settledMarkets)
    (hprocessed : ∀ time ∈ self.processedTimes, time ∈ next.processedTimes)
    (hattempts : next.attempts = self.attempts.set order.attempt attempt')
    (horders : next.orders = self.orders.set event.order { order with responded := true }) :
    next.Held := by
  refine h.setAttempt hfront.attemptAt attempt' hlegs hfills hpositions hsettled hprocessed
    hattempts (fun index leg => ?_) fun other hother hsell => .inl ?_
  · rw [horders]
    exact @tally_traded_set order { order with responded := true } self.orders event.order
      hfront.orderAt rfl rfl rfl rfl index leg
  · rw [horders] at hother
    rcases List.mem_or_eq_of_mem_set hother with hmem | rfl
    · exact ⟨other, hmem, rfl, hsell, fun _ => id⟩
    · exact ⟨order, hfront.mem, rfl, hsell, fun known hleaves =>
        ⟨hleaves.fill_le, hleaves.excess⟩⟩

end Front

/-! ### Leaving and completing -/

/-- What an exit is sent for is what its leg has in excess. -/
theorem ExitOffer.leaves {leg : Fin 2} {quantity : ℕ}
    (h : self.ExitOffer index leg quantity) (hattempt : self.attempts[index]? = some attempt)
    (order : Order) (hfill : order.fill = {}) (hleg : order.leg = leg)
      (hquantity : order.quantity = quantity) :
    Leaves attempt order := by
  refine ⟨by rw [hfill]; exact Nat.zero_le _, ?_⟩
  have hunbalanced := h.unbalanced
  have hle := h.le_difference
  have hside := h.leg_eq
  rw [attempt_eq hattempt] at hunbalanced hle hside
  unfold Lifecycle.Attempt.difference at hunbalanced hle hside
  rw [hleg, hquantity, hside]
  split
  · change (attempt.fills 1).quantity + _ ≤ _
    omega
  · change (attempt.fills 0).quantity + _ ≤ _
    omega

/-- **Considering the exit** keeps what is held. -/
theorem Held.exit (h : self.Held) (hattempt : self.attempts[index]? = some attempt)
    (hexit : self.ExitOutcome index time next) : next.Held := by
  have hprocessed : next.processedTimes = self.processedTimes :=
    hexit.schedules.processed.trans (List.append_nil _)
  have hattempts : (self.markExit index).attempts =
      self.attempts.set index { attempt with exitConsidered := true } :=
    congrArg (fun old : Lifecycle.Attempt =>
      self.attempts.set index { old with exitConsidered := true }) (attempt_eq hattempt)
  cases hexit with
  | held _ => exact h
  | declined reason _ =>
    exact h.setAttempt hattempt { attempt with exitConsidered := true } rfl rfl rfl rfl
      (fun _ hmem => hprocessed ▸ hmem) hattempts (fun _ _ => ⟨rfl, rfl⟩)
      fun order hmem hsell => .inl ⟨order, hmem, rfl, hsell, fun _ => id⟩
  | sent config leg quote _ hoffer =>
    refine h.setAttempt hattempt { attempt with exitConsidered := true } rfl rfl rfl rfl
      (fun _ hmem => hprocessed ▸ hmem) hattempts (fun index leg => ?_)
      fun order horder hsell => ?_
    · refine tally_traded_append (fun order horder => ?_) index leg
      rw [List.mem_singleton.mp horder]
    · rcases List.mem_append.mp horder with hmem | hmem
      · exact .inl ⟨order, hmem, rfl, hsell, fun _ => id⟩
      · obtain rfl := List.mem_singleton.mp hmem
        have hmarked : (self.markExit index).attempts[index]? =
            some { attempt with exitConsidered := true } := by
          rw [hattempts, getElem?_set_same hattempt]
        have hleaves := hoffer.leaves hmarked
          { attempt := index, leg, quantity := quote.quantity, limit := quote.worstPrice
            reserve := 0, sell := true } rfl rfl rfl
        exact .inr ⟨rfl, hleaves.fill_le, hleaves.excess⟩

/-- What follows the response to a buy keeps what is held. -/
theorem Held.buy (h : self.Held) (hattempt : self.attempts[index]? = some attempt)
    (hbuy : self.BuyOutcome index time next) : next.Held := by
  cases hbuy with
  | waits _ _ => exact h
  | leaves _ _ hexit => exact h.exit hattempt hexit
  | stops reason _ hexit =>
    have hattempts := attempts_stopAcquisition hattempt reason
    have hstopped : (self.stopAcquisition index reason).attempts[index]? = some attempt.stop := by
      rw [hattempts, getElem?_set_same hattempt]
    have hprocessed : (self.stopAcquisition index reason).processedTimes = self.processedTimes :=
      (@schedules_stopAcquisition _ self time index reason).processed.trans (List.append_nil _)
    have hheld : (self.stopAcquisition index reason).Held :=
      h.setAttempt hattempt attempt.stop rfl rfl rfl rfl (fun _ hmem => hprocessed ▸ hmem)
        hattempts (fun _ _ => ⟨rfl, rfl⟩)
        fun order hmem hsell => .inl ⟨order, hmem, rfl, hsell, fun _ => id⟩
    exact hheld.exit hstopped hexit
  | completes quote needed _ _ =>
    have hprocessed : (self.sendCompletion index quote needed
        (time + study.policy.latency 1)).processedTimes = self.processedTimes :=
      List.filterMap_append.trans (List.append_nil _)
    refine h.setAttempt hattempt (attempt.complete needed) rfl rfl rfl rfl
      (fun _ hmem => hprocessed ▸ hmem) (congrArg (fun old : Lifecycle.Attempt =>
        self.attempts.set index (old.complete needed)) (attempt_eq hattempt))
      (fun index leg => ?_) fun order horder hsell => ?_
    · refine tally_traded_append (fun order horder => ?_) index leg
      rw [List.mem_singleton.mp horder]
    · rcases List.mem_append.mp horder with hmem | hmem
      · exact .inl ⟨order, hmem, rfl, hsell, fun _ => id⟩
      · obtain rfl := List.mem_singleton.mp hmem
        cases hsell

/-! ### Events and decisions -/

/-- **Every event** keeps what is held. -/
theorem Held.handle (h : self.Held) (hsound : self.Sound now) (hearliest : self.Earliest now due)
    (houtcome : self.EventOutcome state due next) : next.Held := by
  have hschedules := houtcome.schedules.processed
  have hprocessed : due.time ∈ next.processedTimes := by
    rw [hschedules]
    exact List.mem_append_right _ (List.mem_singleton_self _)
  have hpast : ∀ time ∈ self.processedTimes, time ∈ next.processedTimes := by
    intro time hmem
    rw [hschedules]
    exact List.mem_append_left _ hmem
  obtain ⟨clock, hclock, hpositions⟩ := h.time_le (hsound.timed.le_due hearliest)
  cases houtcome with
  | settles settlement closed positions hsettle =>
    exact h.settles hsound.orderly hclock hpositions hsettle hprocessed rfl
  | sells event config arrived walked basis positions harrival harrived hsell _ hsold hclose =>
    obtain ⟨order, attempt, hfront⟩ := hsound.orderly.front (hearliest.event event rfl)
    rw [hfront.order_markArrived] at harrived
    subst harrived
    rcases close_spec hpositions order.attempt order.leg walked.execution.quantity hclock with
      hnone | hunowned | ⟨left, hfull⟩ | ⟨released, after, hok, hafter, hclosed⟩
    · exact absurd (hclose.symm.trans hnone) (by simp)
    · exact absurd (hclose.symm.trans hunowned) (by simp [StudyPositions.reject])
    · exact absurd (hclose.symm.trans hfull) (by simp)
    obtain ⟨rfl, rfl⟩ := Prod.mk.inj (Except.ok.inj (hclose.symm.trans hok))
    exact h.sells hfront hsound.balanced harrival hsell walked.execution hsold.fill_le.1
      hclosed hafter hprocessed rfl (List.set_set _) rfl
  | buys event arrived walked positions harrival harrived hbuy hbought _ hacquire =>
    obtain ⟨order, attempt, hfront⟩ := hsound.orderly.front (hearliest.event event rfl)
    rw [hfront.order_markArrived] at harrived
    subst harrived
    have hattempt : self.attempt order.attempt = attempt := attempt_eq hfront.attemptAt
    have hopen (hne : walked.execution.quantity ≠ 0) :
        self.settled (attempt.legs order.leg).marketId = false := hattempt ▸ hbought.opened hne
    have hgained : Gained (order.attempt * 2 + order.leg) walked.execution.quantity
        (attempt.legs order.leg) event.time self.positions positions := by
      unfold acquireFill at hacquire
      split at hacquire
      · next hzero =>
        rw [hzero, ← Except.ok.inj hacquire]
        exact Gained.refl (hpositions.mono hclock) _ _
      · next hne =>
        have hlegs : (((self.pop.markArrived event).recordBuy event.order
            { order with arrived := true } walked).attempt order.attempt).legs = attempt.legs := by
          have hfilled := @attempt_setAttempt _ self order.attempt order.attempt
            ((self.attempt order.attempt).fill order.leg walked.execution)
            (List.getElem?_eq_some_iff.mp hfront.attemptAt).1
          rw [if_pos rfl] at hfilled
          have hsame : (self.attempt order.attempt).legs = attempt.legs :=
            congrArg Lifecycle.Attempt.legs hattempt
          exact (congrArg Lifecycle.Attempt.legs hfilled).trans hsame
        rw [hlegs] at hacquire
        exact gained_acquire hpositions hclock hne (onPositions_eq_ok hacquire)
    exact h.buys hfront hsound.orderly hsound.balanced harrival hbuy walked.execution hopen hgained
      hprocessed (congrArg (fun old : Lifecycle.Attempt => self.attempts.set order.attempt
        (old.fill order.leg walked.execution)) hattempt) (List.set_set _) rfl
  | confirmsSale event hresponse hsell =>
    obtain ⟨order, attempt, hfront⟩ := hsound.orderly.front (hearliest.event event rfl)
    rw [order_eq hfront.orderAt] at hpast ⊢
    exact h.responds hfront attempt rfl rfl rfl rfl hpast (set_same hfront.attemptAt).symm
      hfront.orders_markResponded
  | confirmsBuy event hresponse hbuy hnext =>
    obtain ⟨order, attempt, hfront⟩ := hsound.orderly.front (hearliest.event event rfl)
    rw [order_eq hfront.orderAt] at hbuy hnext
    have hconfirmed : ((self.pop.markResponded event).confirmBuy event order).attempts[
        order.attempt]? = some (attempt.confirm order.leg) := by
      rw [hfront.attempts_confirmBuy, getElem?_set_same hfront.attemptAt]
    have hanswered : ((self.pop.markResponded event).confirmBuy event order).processedTimes =
        self.processedTimes ++ [event.time] := List.filterMap_append
    have hheld : ((self.pop.markResponded event).confirmBuy event order).Held := by
      refine h.responds hfront (attempt.confirm order.leg) rfl rfl rfl rfl (fun time hmem => ?_)
        hfront.attempts_confirmBuy hfront.orders_markResponded
      rw [hanswered]
      exact List.mem_append_left _ hmem
    exact hheld.buy hconfirmed hnext

/-- What entering an attempt leaves alone. -/
theorem entered_frame (attempt : Lifecycle.Attempt) (self : Simulation study) :
    (self.entered attempt).positions = self.positions ∧
      (self.entered attempt).settledMarkets = self.settledMarkets ∧
      (self.entered attempt).processedTimes = self.processedTimes := by
  have hkept (current : Simulation study) (leg : Fin 2) (arrival : ℕ) :
      (reserveLeg attempt current leg arrival).positions = current.positions ∧
        (reserveLeg attempt current leg arrival).settledMarkets = current.settledMarkets := by
    unfold reserveLeg
    dsimp only
    split <;> exact ⟨rfl, rfl⟩
  have hprocessed (current : Simulation study) (leg : Fin 2) (arrival : ℕ) :
      (reserveLeg attempt current leg arrival).processedTimes = current.processedTimes :=
    (schedules_reserveLeg attempt leg arrival (Nat.zero_le _)).processed.trans (List.append_nil _)
  exact ⟨(hkept _ 1 _).1.trans (hkept self 0 _).1, (hkept _ 1 _).2.trans (hkept self 0 _).2,
    (hprocessed _ 1 _).trans (hprocessed self 0 _)⟩

theorem sell_firstOrders (attempt : Lifecycle.Attempt) (index : ℕ) :
    ∀ order ∈ firstOrders study attempt index, order.sell = false := by
  intro order horder
  unfold firstOrders at horder
  split at horder
  · obtain rfl := List.mem_singleton.mp horder
    rfl
  · rcases List.mem_pair.mp horder with rfl | rfl <;> rfl

/-- **A new attempt** holds nothing. -/
theorem Held.entered (h : self.Held) (horderly : self.Orderly)
    (hfills : attempt.fills = fun _ => {}) : (self.entered attempt).Held := by
  obtain ⟨hpositions, hmarkets, hprocessed⟩ := entered_frame attempt self
  obtain ⟨hattempts, -⟩ := attempts_entered attempt self
  obtain ⟨horders, -⟩ := orders_entered attempt self horderly.matched
  have htraded (index : ℕ) (leg : Fin 2) :=
    @tally_traded_append self.orders (firstOrders study attempt self.attempts.length)
      (unfilled_firstOrders attempt self.attempts.length) index leg
  refine h.keeps hpositions hmarkets (fun _ hmem => hprocessed ▸ hmem) ?_ fun index known hknown =>
    ?_
  · rw [hattempts, List.length_append]
    exact Nat.le_add_right _ _
  rw [hattempts] at hknown
  rw [horders]
  rcases Nat.lt_or_ge index self.attempts.length with hlt | hge
  · rw [List.getElem?_append_left hlt] at hknown
    have hheld := h.holds index known hknown
    refine hheld.keeps (fun _ => rfl) rfl rfl (htraded index) fun order horder howner hsell => ?_
    rcases List.mem_append.mp horder with hmem | hmem
    · exact hheld.exits order hmem howner hsell
    · exact absurd (howner.symm.trans (owner_firstOrders attempt _ order hmem)) hlt.ne
  · rw [List.getElem?_append_right hge, List.getElem?_singleton] at hknown
    split_ifs at hknown with hzero
    obtain rfl := Option.some.inj hknown
    obtain rfl : index = self.attempts.length := by omega
    have hnothing (leg : Fin 2) :
        tally (Order.boughtOn self.attempts.length leg) self.orders = 0 ∧
          tally (Order.soldOn self.attempts.length leg) self.orders = 0 :=
      ⟨tally_eq_zero fun order horder =>
          (Order.traded_other (horderly.owner order horder).ne leg).1,
        tally_eq_zero fun order horder =>
          (Order.traded_other (horderly.owner order horder).ne leg).2⟩
    have hempty (leg : Fin 2) : ((sentAttempt study attempt).fills leg).quantity = 0 :=
      congrArg (fun fills : Fin 2 → Execution => (fills leg).quantity) hfills
    refine ⟨fun leg hne => absurd (h.unused _ le_rfl leg) hne, fun leg => ?_, fun leg _ => ?_,
      fun leg _ => h.unused _ le_rfl leg, fun order horder howner hsell => ?_⟩
    · rw [hempty, (htraded _ leg).1, (hnothing leg).1]
    · rw [hempty, (htraded _ leg).2, (hnothing leg).2, h.unused _ le_rfl leg]
    · rcases List.mem_append.mp horder with hmem | hmem
      · exact absurd howner (horderly.owner order hmem).ne
      · exact absurd ((sell_firstOrders attempt _ order hmem).symm.trans hsell) Bool.noConfusion

/-- **Every decision** keeps what is held. -/
theorem Held.decide {id : ConstraintId} (h : self.Held) (horderly : self.Orderly)
    (houtcome : self.DecideOutcome id now state next) : next.Held := by
  cases houtcome with
  | declined _ _ =>
    exact h.keeps rfl rfl (fun _ hmem => hmem) le_rfl h.holds
  | enters legs quote counters _ _ hquote =>
    have hprocessed : (({ self with evaluated := self.evaluated + 1, counters } :
        Simulation study).announce (attemptOf id legs quote now state) quote).processedTimes =
          self.processedTimes := List.filterMap_append.trans (List.append_nil _)
    have hannounced : (({ self with evaluated := self.evaluated + 1, counters } :
        Simulation study).announce (attemptOf id legs quote now state) quote).Held :=
      h.keeps rfl rfl (fun _ hmem => hprocessed ▸ hmem) le_rfl h.holds
    exact hannounced.entered (horderly.congr rfl rfl rfl rfl) rfl

/-- **What is held** in every state that is reached is what the orders left. -/
theorem Reached.held (h : Reached study now self) : self.Held := by
  refine (h.induct (P := fun _ current => current.Held) held_initial (fun _ _ _ _ => id)
    (fun _ _ _ hheld => ?_) (fun now current hheld => ?_) ?_ ?_).2
  · exact hheld.keeps rfl rfl (fun _ => id) le_rfl hheld.holds
  · have hprocessed : (current.markUnobserved now).processedTimes = current.processedTimes := by
      refine (List.filterMap_append).trans ?_
      rw [filterMap_unobserved, List.append_nil]
      rfl
    exact hheld.keeps rfl rfl (fun _ hmem => hprocessed ▸ hmem) le_rfl hheld.holds
  · exact fun _ _ _ _ _ hsound hearliest hheld houtcome =>
      hheld.handle hsound hearliest houtcome
  · exact fun _ _ _ _ _ hsound _ hheld houtcome => hheld.decide hsound.orderly houtcome

/-! ### The results -/

/-- **What the exits leave.** Until the market of a leg settles its position is what was bought and
not sold, and afterwards nothing. An attempt has at most one exit, which sells from the excess of
one leg alone: what both legs bought stays. -/
structure Residual (current : Simulation study) (index : ℕ) (attempt : Lifecycle.Attempt) :
    Prop where
  bought : ∀ leg, (attempt.fills leg).quantity =
    tally (Order.boughtOn index leg) current.orders
  owned : ∀ leg : Fin 2, (current.positions.position (index * 2 + leg)).quantity =
    if current.settled (attempt.legs leg).marketId then 0
    else (attempt.fills leg).quantity - tally (Order.soldOn index leg) current.orders
  once : tally (Order.isExit index) current.orders ≤ 1
  within : ∀ order ∈ current.orders, order.attempt = index → order.sell = true →
    order.fill.quantity ≤ order.quantity
  paired : ∀ leg : Fin 2,
    min (attempt.fills 0).quantity (attempt.fills 1).quantity +
      tally (Order.soldOn index leg) current.orders ≤ (attempt.fills leg).quantity

theorem min_le_other (attempt : Lifecycle.Attempt) (leg : Fin 2) :
    min (attempt.fills 0).quantity (attempt.fills 1).quantity =
      min (attempt.fills (otherLeg leg)).quantity (attempt.fills leg).quantity := by
  unfold otherLeg
  by_cases hleg : leg = 0
  · rw [if_pos hleg, hleg, min_comm]
  · have hsecond : leg = 1 := by omega
    rw [if_neg hleg, hsecond]

/-- **Every attempt** of a state that is reached. -/
theorem Reached.residual (h : Reached study now self)
    (hattempt : self.attempts[index]? = some attempt) : self.Residual index attempt := by
  have hheld := h.held.holds index attempt hattempt
  have honce := (h.sound.orderly.accounts index attempt hattempt).exits_le
  have hexit : tally (Order.isExit index) self.orders ≤ 1 :=
    honce.trans (by split <;> decide)
  have hpaired (leg : Fin 2) : tally (Order.soldOn index leg) self.orders ≤
      (attempt.fills leg).quantity - (attempt.fills (otherLeg leg)).quantity := by
    have hone := (Nat.mul_le_mul_right ((attempt.fills leg).quantity -
      (attempt.fills (otherLeg leg)).quantity) hexit).trans_eq (Nat.one_mul _)
    refine (tally_le_mul fun order horder => ?_).trans hone
    unfold Order.soldOn Order.isExit
    by_cases hsold : order.attempt = index ∧ order.leg = leg ∧ order.sell = true
    · obtain ⟨howner, rfl, hsell⟩ := hsold
      have hleaves := hheld.exits order horder howner hsell
      rw [if_pos ⟨howner, rfl, hsell⟩, if_pos ⟨howner, hsell⟩, Nat.one_mul]
      have hfill := hleaves.fill_le
      have hexcess := hleaves.excess
      omega
    · rw [if_neg hsold]
      exact Nat.zero_le _
  refine ⟨hheld.bought, fun leg => ?_, hexit,
    fun order horder howner hsell => (hheld.exits order horder howner hsell).fill_le,
    fun leg => ?_⟩
  · split
    · next hsettled => exact hheld.closed leg hsettled
    · next hopen =>
      have howned := hheld.owned leg (Bool.not_eq_true _ ▸ hopen)
      omega
  · have hsold := hpaired leg
    rw [min_le_other attempt leg]
    omega

end Simulation

end EventMarket.Session
