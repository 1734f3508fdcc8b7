import EventMarket.Session.LifecycleSteps

/-!
# The orders of the lifecycle

Every order that has not been responded to has exactly one event before it, its arrival or its
response. An attempt counts the buys without a response, sends the orders of its policy and at most
one exit, and considers the exit once, after the last response.

## Main definitions

* `Lifecycle.Matched`: the events fit the orders.
* `Lifecycle.Accounts`: the orders of an attempt fit its counters.
* `Simulation.Orderly`: both, and one attempt for each constraint.

## Main results

* `Simulation.Orderly.expected`: the next event fits its order.
* `Simulation.Orderly.handle`, `Simulation.Orderly.decide`: every step keeps the orders in order.
* `Simulation.Orderly.stages_lt`: every event uses up a stage.
* `Simulation.Orderly.orders_le`: the orders stay within their bound.
-/

namespace EventMarket.Session

open Constraint Core Foundations Market StudyPositions

namespace Lifecycle

/-! ### Counting orders -/

/-- Whether an order buys for an attempt. -/
def Order.isBuy (index : ℕ) (order : Order) : ℕ :=
  if order.attempt = index ∧ order.sell = false then 1 else 0

/-- Whether an order buys for an attempt and was not responded to. -/
def Order.isOpenBuy (index : ℕ) (order : Order) : ℕ :=
  if order.attempt = index ∧ order.sell = false ∧ order.responded = false then 1 else 0

/-- Whether an order sells for an attempt. -/
def Order.isExit (index : ℕ) (order : Order) : ℕ :=
  if order.attempt = index ∧ order.sell = true then 1 else 0

/-- An order of another attempt counts for nothing. -/
theorem Order.counts_other {order : Order} {index : ℕ} (h : order.attempt ≠ index) :
    order.isBuy index = 0 ∧ order.isOpenBuy index = 0 ∧ order.isExit index = 0 :=
  ⟨if_neg fun hboth => h hboth.1, if_neg fun hboth => h hboth.1, if_neg fun hboth => h hboth.1⟩

/-! ### Events and orders -/

/-- **The events fit the orders**: each is the next one of its order, and an order has only one. -/
structure Matched (orders : List Order) (events : List Event) : Prop where
  fits : ∀ event ∈ events, ∃ order, orders[event.order]? = some order ∧
    order.arrived = event.response ∧ order.responded = false
  distinct : (events.map Event.order).Nodup
  arrived : ∀ order ∈ orders, order.responded = true → order.arrived = true

theorem mem_push {event other : Event} {events : List Event} :
    other ∈ push event events ↔ other = event ∨ other ∈ events := by
  unfold push
  rw [List.mem_orderedInsert]

theorem push_perm (event : Event) (events : List Event) :
    (push event events).Perm (event :: events) := List.perm_orderedInsert _ _ _

section Matched

variable {orders : List Order} {event : Event} {events : List Event} {old new : Order}

theorem Matched.lt_length (h : Matched orders events) (hmem : event ∈ events) :
    event.order < orders.length := by
  obtain ⟨order, horder, -⟩ := h.fits event hmem
  exact (List.getElem?_eq_some_iff.mp horder).1

/-- The other events do not notice that the order of the first one changes. -/
theorem Matched.fits_set (h : Matched orders (event :: events)) (new : Order) :
    ∀ other ∈ events, ∃ order, (orders.set event.order new)[other.order]? = some order ∧
      order.arrived = other.response ∧ order.responded = false := by
  intro other hother
  have hne : event.order ≠ other.order := fun heq =>
    (List.nodup_cons.mp h.distinct).1 (heq ▸ List.mem_map_of_mem hother)
  rw [List.getElem?_set_ne hne]
  exact h.fits other (List.mem_cons_of_mem _ hother)

theorem arrived_set (h : ∀ order ∈ orders, order.responded = true → order.arrived = true)
    (hnew : new.arrived = true) (index : ℕ) :
    ∀ order ∈ orders.set index new, order.responded = true → order.arrived = true := by
  intro order horder hresponded
  rcases List.mem_or_eq_of_mem_set horder with hmem | rfl
  · exact h order hmem hresponded
  · exact hnew

/-- An order arrives, and awaits the response. -/
theorem Matched.arrive (h : Matched orders (event :: events)) (new : Order)
    (harrived : new.arrived = true)
    (hresponded : new.responded = false) (time : ℕ) :
    Matched (orders.set event.order new) (push ⟨time, event.order, true⟩ events) where
  fits := by
    intro other hother
    rcases mem_push.mp hother with rfl | hother
    · exact ⟨new, List.getElem?_set_self (h.lt_length List.mem_cons_self), harrived, hresponded⟩
    · exact h.fits_set new other hother
  distinct := ((push_perm _ events).map Event.order).nodup_iff.mpr h.distinct
  arrived := arrived_set h.arrived harrived _

/-- The response to an order is its last event. -/
theorem Matched.respond (h : Matched orders (event :: events)) (harrived : new.arrived = true) :
    Matched (orders.set event.order new) events where
  fits := h.fits_set new
  distinct := (List.nodup_cons.mp h.distinct).2
  arrived := arrived_set h.arrived harrived _

/-- A new order awaits its arrival. -/
theorem Matched.submit (h : Matched orders events) (harrived : new.arrived = false)
    (hresponded : new.responded = false) (time : ℕ) :
    Matched (orders ++ [new]) (push ⟨time, orders.length, false⟩ events) where
  fits := by
    intro other hother
    rcases mem_push.mp hother with rfl | hother
    · exact ⟨new, List.getElem?_concat_length, harrived, hresponded⟩
    · obtain ⟨order, horder, hfits⟩ := h.fits other hother
      exact ⟨order, (List.getElem?_append_left (h.lt_length hother)).trans horder, hfits⟩
  distinct := by
    refine ((push_perm _ events).map Event.order).nodup_iff.mpr
      (List.nodup_cons.mpr ⟨?_, h.distinct⟩)
    intro hmem
    obtain ⟨other, hother, heq⟩ := List.mem_map.mp hmem
    exact (h.lt_length hother).ne heq
  arrived := by
    intro order horder hyes
    rcases List.mem_append.mp horder with hmem | hmem
    · exact h.arrived order hmem hyes
    · obtain rfl := List.mem_singleton.mp hmem
      rw [hresponded] at hyes
      cases hyes

end Matched

/-! ### The accounts of an attempt -/

/-- **The orders of an attempt fit its counters.** -/
structure Accounts (study : LifecycleStudy) (orders : List Order) (index : ℕ) (attempt : Attempt) :
    Prop where
  pending : attempt.pendingBuys = tally (Order.isOpenBuy index) orders
  buys : tally (Order.isBuy index) orders =
    if study.lifecycle.sequential then 1 + attempt.completionOrders else 2
  exits : tally (Order.isExit index) orders ≤ if attempt.exitConsidered then 1 else 0
  considered : attempt.exitConsidered = true →
    attempt.pendingBuys = 0 ∧ study.policy.residualExit.isSome = true
  alone : study.lifecycle.sequential = true → attempt.pendingBuys ≤ 1
  budget : attempt.completionOrders ≤ study.lifecycle.maximumCompletionOrders

section Accounts

variable {study : LifecycleStudy} {orders orders' : List Order} {index : ℕ} {attempt : Attempt}
  {old new : Order} {position : ℕ}

/-- The accounts only depend on the counts. -/
theorem Accounts.congr (h : Accounts study orders index attempt)
    (hopen : tally (Order.isOpenBuy index) orders' = tally (Order.isOpenBuy index) orders)
    (hbuys : tally (Order.isBuy index) orders' = tally (Order.isBuy index) orders)
    (hexits : tally (Order.isExit index) orders' = tally (Order.isExit index) orders) :
    Accounts study orders' index attempt where
  pending := h.pending.trans hopen.symm
  buys := hbuys.trans h.buys
  exits := hexits.trans_le h.exits
  considered := h.considered
  alone := h.alone
  budget := h.budget

/-- A change of an order of another attempt. -/
theorem Accounts.set_other (h : Accounts study orders index attempt)
    (hold : orders[position]? = some old) (hattempt : new.attempt = old.attempt)
    (hne : old.attempt ≠ index) : Accounts study (orders.set position new) index attempt := by
  obtain ⟨hbuy, hopen, hexit⟩ := Order.counts_other hne
  obtain ⟨hbuy', hopen', hexit'⟩ := Order.counts_other (hattempt ▸ hne : new.attempt ≠ index)
  exact h.congr (tally_set_of_eq hold (hopen'.trans hopen.symm))
    (tally_set_of_eq hold (hbuy'.trans hbuy.symm)) (tally_set_of_eq hold (hexit'.trans hexit.symm))

/-- A new order of another attempt. -/
theorem Accounts.append_other (h : Accounts study orders index attempt)
    (hne : new.attempt ≠ index) :
    Accounts study (orders ++ [new]) index attempt := by
  obtain ⟨hbuy, hopen, hexit⟩ := Order.counts_other hne
  refine h.congr ?_ ?_ ?_
  · rw [tally_append_singleton, hopen, add_zero]
  · rw [tally_append_singleton, hbuy, add_zero]
  · rw [tally_append_singleton, hexit, add_zero]

/-- New orders of another attempt. -/
theorem Accounts.append_orders {orders more : List Order} (h : Accounts study orders index attempt)
    (hmore : ∀ order ∈ more, order.attempt ≠ index) :
    Accounts study (orders ++ more) index attempt := by
  induction more using List.reverseRecOn with
  | nil => rwa [List.append_nil]
  | append_singleton more last ih =>
    rw [← List.append_assoc]
    exact (ih fun order horder => hmore order (List.mem_append_left _ horder)).append_other
      (hmore last (by simp))

/-- An order that was not responded to changes otherwise. -/
theorem Accounts.set_same (h : Accounts study orders index attempt)
    (hold : orders[position]? = some old) (new : Order) (hattempt : new.attempt = old.attempt)
    (hsell : new.sell = old.sell) (hresponded : new.responded = old.responded) :
    Accounts study (orders.set position new) index attempt := by
  refine h.congr (tally_set_of_eq hold ?_) (tally_set_of_eq hold ?_) (tally_set_of_eq hold ?_)
  · simp only [Order.isOpenBuy, hattempt, hsell, hresponded]
  · simp only [Order.isBuy, hattempt, hsell]
  · simp only [Order.isExit, hattempt, hsell]

/-- The fills and the reserves do not enter the accounts. -/
theorem Accounts.fields {attempt' : Attempt} (h : Accounts study orders index attempt)
    (hpending : attempt'.pendingBuys = attempt.pendingBuys)
    (hcompletion : attempt'.completionOrders = attempt.completionOrders)
    (hconsidered : attempt'.exitConsidered = attempt.exitConsidered) :
    Accounts study orders index attempt' where
  pending := hpending.trans h.pending
  buys := hcompletion ▸ h.buys
  exits := hconsidered ▸ h.exits
  considered := by
    rw [hpending, hconsidered]
    exact h.considered
  alone := by
    rw [hpending]
    exact h.alone
  budget := hcompletion ▸ h.budget

/-- The response to an exit. -/
theorem Accounts.respondExit (h : Accounts study orders index attempt)
    (hold : orders[position]? = some old) (hattempt : new.attempt = old.attempt)
    (hsell : new.sell = old.sell) (hexit : old.sell = true) :
    Accounts study (orders.set position new) index attempt := by
  refine h.congr (tally_set_of_eq hold ?_) (tally_set_of_eq hold ?_) (tally_set_of_eq hold ?_)
  · simp [Order.isOpenBuy, hsell, hexit]
  · simp only [Order.isBuy, hattempt, hsell]
  · simp only [Order.isExit, hattempt, hsell]

/-- **The response to a buy** lowers the count of those that are open. -/
theorem Accounts.respondBuy (h : Accounts study orders index attempt)
    (hold : orders[position]? = some old) (new : Order) (attempt' : Attempt)
    (hattempt : new.attempt = old.attempt)
    (hsell : new.sell = old.sell) (howner : old.attempt = index) (hbuy : old.sell = false)
    (hopen : old.responded = false) (hresponded : new.responded = true)
    (hpending : attempt'.pendingBuys = attempt.pendingBuys - 1)
    (hcompletion : attempt'.completionOrders = attempt.completionOrders)
    (hconsidered : attempt'.exitConsidered = attempt.exitConsidered) :
    Accounts study (orders.set position new) index attempt' where
  pending := by
    have hset := tally_set hold (Order.isOpenBuy index) new
    have hone : old.isOpenBuy index = 1 := if_pos ⟨howner, hbuy, hopen⟩
    have hzero : new.isOpenBuy index = 0 := if_neg (by simp [hresponded])
    have hbefore := h.pending
    omega
  buys := by
    rw [hcompletion, tally_set_of_eq hold (by simp only [Order.isBuy, hattempt, hsell])]
    exact h.buys
  exits := by
    rw [hconsidered, tally_set_of_eq hold (by simp only [Order.isExit, hattempt, hsell])]
    exact h.exits
  considered := by
    rw [hconsidered, hpending]
    exact fun hyes => ⟨by rw [(h.considered hyes).1], (h.considered hyes).2⟩
  alone := fun hsequential => by
    have hbefore := h.alone hsequential
    omega
  budget := hcompletion ▸ h.budget

/-- **The exit** is considered once, and may be sent then. -/
theorem Accounts.considerExit (h : Accounts study orders index attempt)
    (hfirst : attempt.exitConsidered = false) (hpending : attempt.pendingBuys = 0)
    (hsome : study.policy.residualExit.isSome = true)
    (hopen : tally (Order.isOpenBuy index) orders' = tally (Order.isOpenBuy index) orders)
    (hbuys : tally (Order.isBuy index) orders' = tally (Order.isBuy index) orders)
    (hexits : tally (Order.isExit index) orders' ≤ tally (Order.isExit index) orders + 1) :
    Accounts study orders' index { attempt with exitConsidered := true } where
  pending := h.pending.trans hopen.symm
  buys := hbuys.trans h.buys
  exits := by
    have hbefore := h.exits
    rw [hfirst, if_neg Bool.false_ne_true] at hbefore
    rw [if_pos rfl]
    omega
  considered := fun _ => ⟨hpending, hsome⟩
  alone := h.alone
  budget := h.budget

/-- The next order for the second leg, when no buy is open. -/
theorem Accounts.complete (h : Accounts study orders index attempt) (needed : ℕ)
    (hsequential : study.lifecycle.sequential = true) (hpending : attempt.pendingBuys = 0)
    (hfirst : attempt.exitConsidered = false)
    (hbudget : attempt.completionOrders < study.lifecycle.maximumCompletionOrders)
    (hopen : tally (Order.isOpenBuy index) orders' = tally (Order.isOpenBuy index) orders + 1)
    (hbuys : tally (Order.isBuy index) orders' = tally (Order.isBuy index) orders + 1)
    (hexits : tally (Order.isExit index) orders' = tally (Order.isExit index) orders) :
    Accounts study orders' index (attempt.complete needed) where
  pending := (congrArg (· + 1) h.pending).trans hopen.symm
  buys := by
    have hbefore := h.buys
    rw [if_pos hsequential] at hbefore ⊢
    rw [hbuys, hbefore, Attempt.complete, add_assoc]
  exits := hexits.trans_le h.exits
  considered := fun hyes => absurd (hfirst.symm.trans hyes) Bool.false_ne_true
  alone := fun _ => (congrArg (· + 1) hpending).le
  budget := hbudget

/-- No attempt sends more than it may. -/
theorem Accounts.buys_le (h : Accounts study orders index attempt) :
    tally (Order.isBuy index) orders ≤
      if study.lifecycle.sequential then 1 + study.lifecycle.maximumCompletionOrders else 2 := by
  rw [h.buys]
  split
  · exact Nat.add_le_add_left h.budget 1
  · exact le_rfl

theorem Accounts.exits_le (h : Accounts study orders index attempt) :
    tally (Order.isExit index) orders ≤ if study.policy.residualExit.isSome then 1 else 0 := by
  have hexits := h.exits
  cases hconsidered : attempt.exitConsidered with
  | true =>
    rw [hconsidered, if_pos rfl] at hexits
    rwa [if_pos (h.considered hconsidered).2]
  | false =>
    rw [hconsidered, if_neg Bool.false_ne_true] at hexits
    exact hexits.trans (Nat.zero_le _)

/-- An attempt with an open buy has not considered its exit. -/
theorem Accounts.not_considered (h : Accounts study orders index attempt) (hmem : old ∈ orders)
    (howner : old.attempt = index) (hbuy : old.sell = false) (hopen : old.responded = false) :
    0 < attempt.pendingBuys ∧ attempt.exitConsidered = false := by
  have hone : old.isOpenBuy index = 1 := if_pos ⟨howner, hbuy, hopen⟩
  have hle := le_tally (Order.isOpenBuy index) hmem
  have hpending := h.pending
  refine ⟨by omega, ?_⟩
  by_contra hconsidered
  have hzero := (h.considered (by simpa using hconsidered)).1
  omega

end Accounts

end Lifecycle

namespace Simulation

open Lifecycle

variable {study : LifecycleStudy} {self next : Simulation study} {event : Event} {rest : List Event}
  {order : Order} {attempt attempt' : Lifecycle.Attempt} {index owner time : ℕ}
    {state : MarketState}

theorem set_same {α : Type*} {items : List α} {item : α} (h : items[index]? = some item) :
    items.set index item = items := by
  obtain ⟨hlt, rfl⟩ := List.getElem?_eq_some_iff.mp h
  exact List.set_getElem_self hlt

/-! ### The orders of the simulation -/

/-- **The orders are in order**: one attempt for each constraint, each with its accounts, and the
events fit the orders. -/
structure Orderly (current : Simulation study) : Prop where
  attempted : current.attempted = current.attempts.map Lifecycle.Attempt.id
  nodup : current.attempted.Nodup
  known : ∀ id ∈ current.attempted, id ∈ study.constraints.sortedIds
  owner : ∀ order ∈ current.orders, order.attempt < current.attempts.length
  matched : Matched current.orders current.events
  accounts : ∀ index attempt, current.attempts[index]? = some attempt →
    Lifecycle.Accounts study current.orders index attempt

/-- Steps that touch neither orders nor attempts. -/
theorem Orderly.congr (h : self.Orderly) (hattempted : next.attempted = self.attempted)
    (hattempts : next.attempts = self.attempts) (horders : next.orders = self.orders)
    (hevents : next.events = self.events) : next.Orderly where
  attempted := by rw [hattempted, hattempts, h.attempted]
  nodup := hattempted ▸ h.nodup
  known := hattempted ▸ h.known
  owner := by rw [horders, hattempts]; exact h.owner
  matched := by rw [horders, hevents]; exact h.matched
  accounts := by rw [horders, hattempts]; exact h.accounts

/-- **One attempt changes**, with its orders. -/
theorem Orderly.update (h : self.Orderly) (hattempt : self.attempts[owner]? = some attempt)
    (attempt' : Lifecycle.Attempt) (hid : attempt'.id = attempt.id)
      (hattempted : next.attempted = self.attempted)
    (hattempts : next.attempts = self.attempts.set owner attempt')
    (howner : ∀ order ∈ next.orders, order.attempt < self.attempts.length)
    (hmatched : Matched next.orders next.events)
    (haccounts : Lifecycle.Accounts study next.orders owner attempt')
    (hothers : ∀ index other, owner ≠ index → self.attempts[index]? = some other →
      Lifecycle.Accounts study next.orders index other) : next.Orderly where
  attempted := by
    have hsame : (self.attempts.map Lifecycle.Attempt.id)[owner]? = some attempt'.id := by
      rw [List.getElem?_map, hattempt, hid]
      rfl
    rw [hattempted, hattempts, h.attempted, List.map_set, set_same hsame]
  nodup := hattempted ▸ h.nodup
  known := hattempted ▸ h.known
  owner := by
    rw [hattempts, List.length_set]
    exact howner
  matched := hmatched
  accounts := by
    intro index other hother
    rw [hattempts, List.getElem?_set] at hother
    split_ifs at hother with heq hlt
    · obtain rfl := Option.some.inj hother
      exact heq ▸ haccounts
    · exact hothers index other heq hother

theorem order_eq (h : self.orders[index]? = some order) : self.order index = order := by
  rw [Simulation.order, List.getD_eq_getElem?_getD, h, Option.getD_some]

theorem attempt_eq (h : self.attempts[index]? = some attempt) : self.attempt index = attempt := by
  rw [Simulation.attempt, List.getD_eq_getElem?_getD, h, Option.getD_some]

theorem getElem?_set_same {α : Type*} {items : List α} {item : α} (h : items[index]? = some item)
    (new : α) : (items.set index new)[index]? = some new :=
  List.getElem?_set_self (List.getElem?_eq_some_iff.mp h).1

theorem attempts_stopAcquisition (h : self.attempts[index]? = some attempt) (reason : String) :
    (self.stopAcquisition index reason).attempts = self.attempts.set index attempt.stop :=
  congrArg (fun old : Lifecycle.Attempt => self.attempts.set index old.stop) (attempt_eq h)

theorem exists_attempt (h : index < self.attempts.length) :
    ∃ attempt, self.attempts[index]? = some attempt := ⟨_, List.getElem?_eq_getElem h⟩

/-- The next event, with its order and its attempt. -/
structure Front (current : Simulation study) (event : Event) (order : Order)
    (attempt : Lifecycle.Attempt) :
    Prop where
  events : current.events = event :: current.events.tail
  orderAt : current.orders[event.order]? = some order
  arrived : order.arrived = event.response
  unanswered : order.responded = false
  attemptAt : current.attempts[order.attempt]? = some attempt

theorem Orderly.front (h : self.Orderly) (hhead : self.events.head? = some event) :
    ∃ order attempt, self.Front event order attempt := by
  have hevents := List.eq_cons_of_mem_head? hhead
  obtain ⟨order, horder, harrived, hunanswered⟩ :=
    h.matched.fits event (List.mem_of_mem_head? hhead)
  obtain ⟨attempt, hattempt⟩ := exists_attempt (h.owner order (List.mem_of_getElem? horder))
  exact ⟨order, attempt, hevents, horder, harrived, hunanswered, hattempt⟩

section Front

variable (hfront : self.Front event order attempt)

include hfront

theorem Front.mem : order ∈ self.orders := List.mem_of_getElem? hfront.orderAt

theorem Front.matched (h : self.Orderly) : Matched self.orders (event :: self.events.tail) :=
  hfront.events ▸ h.matched

/-- The owners stay when the order of the event changes. -/
theorem Front.owner_set (h : self.Orderly) {new : Order} (hnew : new.attempt = order.attempt) :
    ∀ other ∈ self.orders.set event.order new, other.attempt < self.attempts.length := by
  intro other hother
  rcases List.mem_or_eq_of_mem_set hother with hmem | rfl
  · exact h.owner other hmem
  · exact hnew ▸ h.owner order hfront.mem

/-- The other attempts do not notice. -/
theorem Front.others_set (h : self.Orderly) {new : Order} (hnew : new.attempt = order.attempt) :
    ∀ index other, order.attempt ≠ index → self.attempts[index]? = some other →
      Lifecycle.Accounts study (self.orders.set event.order new) index other :=
  fun index other hne hother => (h.accounts index other hother).set_other hfront.orderAt hnew hne

/-- **The next event is expected.** -/
theorem Orderly.expected (h : self.Orderly) : self.Expected event := by
  have horder := order_eq hfront.orderAt
  have hattempt := attempt_eq hfront.attemptAt
  have haccounts := h.accounts _ _ hfront.attemptAt
  refine ⟨?_, ?_, ?_, fun _ hbuy => ?_⟩
  · rw [horder, hfront.arrived]
  · rw [horder, hfront.unanswered]
  · rw [horder]
    exact h.owner order hfront.mem
  rw [horder] at hbuy ⊢
  rw [hattempt]
  obtain ⟨hpending, hfirst⟩ := haccounts.not_considered hfront.mem rfl hbuy hfront.unanswered
  exact ⟨hfirst, hpending.ne', haccounts.alone⟩

/-- The order of the event has arrived. -/
theorem Front.order_markArrived :
    (self.pop.markArrived event).order event.order = { order with arrived := true } := by
  have hlt := (List.getElem?_eq_some_iff.mp hfront.orderAt).1
  have hset : (self.pop.markArrived event).order event.order =
      { self.order event.order with arrived := true } :=
    (@order_setOrder _ self.pop event.order event.order _ hlt).trans (if_pos rfl)
  rw [hset, order_eq hfront.orderAt]

/-- The order of the event was responded to. -/
theorem Front.orders_markResponded : (self.pop.markResponded event).orders =
    self.orders.set event.order { order with responded := true } :=
  congrArg (fun old : Order => self.orders.set event.order { old with responded := true })
    (order_eq hfront.orderAt)

theorem Front.attempts_confirmBuy :
    ((self.pop.markResponded event).confirmBuy event order).attempts =
      self.attempts.set order.attempt (attempt.confirm order.leg) :=
  congrArg (fun old : Lifecycle.Attempt => self.attempts.set order.attempt (old.confirm order.leg))
    (attempt_eq hfront.attemptAt)

end Front

/-! ### Arrivals and responses -/

/-- An arrival sets its order, and awaits the response. -/
theorem Orderly.arrival (h : self.Orderly) (hfront : self.Front event order attempt)
    (new : Order) (attempt' : Lifecycle.Attempt) (howner : new.attempt = order.attempt)
    (hsell : new.sell = order.sell) (harrived : new.arrived = true)
    (hresponded : new.responded = false) (hid : attempt'.id = attempt.id)
    (hpending : attempt'.pendingBuys = attempt.pendingBuys)
    (hcompletion : attempt'.completionOrders = attempt.completionOrders)
    (hconsidered : attempt'.exitConsidered = attempt.exitConsidered)
    (hattempted : next.attempted = self.attempted)
    (hattempts : next.attempts = self.attempts.set order.attempt attempt')
    (horders : next.orders = self.orders.set event.order new)
    (hevents : next.events = push ⟨time, event.order, true⟩ self.events.tail) : next.Orderly := by
  refine h.update hfront.attemptAt attempt' hid hattempted hattempts ?_ ?_ ?_ ?_
  · rw [horders]
    exact hfront.owner_set h howner
  · rw [horders, hevents]
    exact (hfront.matched h).arrive new harrived hresponded time
  · rw [horders]
    exact ((h.accounts _ _ hfront.attemptAt).set_same hfront.orderAt new howner hsell
      (hresponded.trans hfront.unanswered.symm)).fields hpending hcompletion hconsidered
  · rw [horders]
    exact hfront.others_set h howner

/-- The response to an order that changes nothing but the order. -/
theorem Orderly.confirmSale (h : self.Orderly) (hfront : self.Front event order attempt)
    (hresponse : event.response = true) (hsell : order.sell = true) :
    ((self.pop.markResponded event).confirmSale event order).Orderly := by
  have horders : ((self.pop.markResponded event).confirmSale event order).orders = _ :=
    hfront.orders_markResponded
  refine h.update hfront.attemptAt _ rfl rfl (set_same hfront.attemptAt).symm ?_ ?_ ?_ ?_
  · rw [horders]
    exact hfront.owner_set h rfl
  · rw [horders]
    exact (hfront.matched h).respond (hfront.arrived.trans hresponse)
  · rw [horders]
    exact (h.accounts _ _ hfront.attemptAt).respondExit hfront.orderAt rfl rfl hsell
  · rw [horders]
    exact hfront.others_set h rfl

theorem Orderly.confirmBuy (h : self.Orderly) (hfront : self.Front event order attempt)
    (hresponse : event.response = true) (hbuy : order.sell = false) :
    ((self.pop.markResponded event).confirmBuy event order).Orderly := by
  have horders : ((self.pop.markResponded event).confirmBuy event order).orders = _ :=
    hfront.orders_markResponded
  refine h.update hfront.attemptAt (attempt.confirm order.leg) rfl rfl hfront.attempts_confirmBuy
    ?_ ?_ ?_ ?_
  · rw [horders]
    exact hfront.owner_set h rfl
  · rw [horders]
    exact (hfront.matched h).respond (hfront.arrived.trans hresponse)
  · rw [horders]
    exact (h.accounts _ _ hfront.attemptAt).respondBuy hfront.orderAt
      { order with responded := true } (attempt.confirm order.leg) rfl rfl rfl hbuy
      hfront.unanswered rfl rfl rfl rfl
  · rw [horders]
    exact hfront.others_set h rfl

/-! ### Leaving and completing -/

/-- An attempt changes, its orders do not. -/
theorem Orderly.setAttempt (h : self.Orderly) (hattempt : self.attempts[index]? = some attempt)
    (attempt' : Lifecycle.Attempt) (hid : attempt'.id = attempt.id)
    (haccounts : Lifecycle.Accounts study self.orders index attempt')
    (hattempted : next.attempted = self.attempted)
    (hattempts : next.attempts = self.attempts.set index attempt')
    (horders : next.orders = self.orders) (hevents : next.events = self.events) : next.Orderly := by
  refine h.update hattempt attempt' hid hattempted hattempts ?_ ?_ ?_ ?_
  · exact horders ▸ h.owner
  · rw [horders, hevents]
    exact h.matched
  · exact horders ▸ haccounts
  · rw [horders]
    exact fun index other _ hother => h.accounts index other hother

/-- An attempt changes and sends an order. -/
theorem Orderly.submit (h : self.Orderly) (hattempt : self.attempts[index]? = some attempt)
    (attempt' : Lifecycle.Attempt) (new : Order) (hid : attempt'.id = attempt.id)
    (howner : new.attempt = index) (harrived : new.arrived = false)
    (hresponded : new.responded = false)
    (haccounts : Lifecycle.Accounts study (self.orders ++ [new]) index attempt')
    (hattempted : next.attempted = self.attempted)
    (hattempts : next.attempts = self.attempts.set index attempt')
    (horders : next.orders = self.orders ++ [new])
    (hevents : next.events = push ⟨time, self.orders.length, false⟩ self.events) :
      next.Orderly := by
  refine h.update hattempt attempt' hid hattempted hattempts ?_ ?_ ?_ ?_
  · rw [horders]
    intro order horder
    rcases List.mem_append.mp horder with hmem | hmem
    · exact h.owner order hmem
    · obtain rfl := List.mem_singleton.mp hmem
      exact howner ▸ (List.getElem?_eq_some_iff.mp hattempt).1
  · rw [horders, hevents]
    exact h.matched.submit harrived hresponded time
  · rw [horders]
    exact haccounts
  · rw [horders]
    exact fun other _ hne hother => (h.accounts other _ hother).append_other (howner ▸ hne)

theorem Orderly.stopAcquisition (h : self.Orderly) (hattempt : self.attempts[index]? = some attempt)
    (reason : String) : (self.stopAcquisition index reason).Orderly :=
  h.setAttempt hattempt attempt.stop rfl
    ((h.accounts index attempt hattempt).fields rfl rfl rfl) rfl
    (attempts_stopAcquisition hattempt reason) rfl rfl

/-- **Considering the exit** keeps the orders in order. -/
theorem Orderly.exit (h : self.Orderly) (hattempt : self.attempts[index]? = some attempt)
    (hfirst : attempt.exitConsidered = false) (hpending : attempt.pendingBuys = 0)
    (hexit : self.ExitOutcome index time next) : next.Orderly := by
  have haccounts := h.accounts index attempt hattempt
  have hattempts : (self.markExit index).attempts =
      self.attempts.set index { attempt with exitConsidered := true } :=
    congrArg (fun old : Lifecycle.Attempt =>
      self.attempts.set index { old with exitConsidered := true })
      (attempt_eq hattempt)
  cases hexit with
  | held _ => exact h
  | declined _ hsome =>
    exact h.setAttempt hattempt { attempt with exitConsidered := true } rfl
      (haccounts.considerExit hfirst hpending hsome rfl rfl (Nat.le_succ _)) rfl hattempts rfl rfl
  | sent config leg quote hconfig _ =>
    refine h.submit hattempt { attempt with exitConsidered := true }
      { attempt := index, leg, quantity := quote.quantity, limit := quote.worstPrice, reserve := 0
        sell := true } rfl rfl rfl rfl ?_ rfl hattempts rfl rfl
    refine haccounts.considerExit hfirst hpending (by simp [hconfig]) ?_ ?_ ?_
    · rw [tally_append_singleton]
      simp [Order.isOpenBuy]
    · rw [tally_append_singleton]
      simp [Order.isBuy]
    · rw [tally_append_singleton]
      simp [Order.isExit]

theorem Orderly.sendCompletion (h : self.Orderly) (hattempt : self.attempts[index]? = some attempt)
    (hfirst : attempt.exitConsidered = false) (hpending : attempt.pendingBuys = 0)
    (hsequential : study.lifecycle.sequential = true)
    (hbudget : attempt.completionOrders < study.lifecycle.maximumCompletionOrders)
    (quote : Execution) (needed arrival : ℕ) :
    (self.sendCompletion index quote needed arrival).Orderly := by
  have hattempts : (self.sendCompletion index quote needed arrival).attempts =
      self.attempts.set index (attempt.complete needed) :=
    congrArg (fun old : Lifecycle.Attempt => self.attempts.set index (old.complete needed))
      (attempt_eq hattempt)
  refine h.submit hattempt (attempt.complete needed)
    { attempt := index, leg := 1, quantity := quote.quantity, limit := quote.worstPrice
      reserve := needed, sell := false } rfl rfl rfl rfl ?_ rfl hattempts rfl rfl
  refine (h.accounts index attempt hattempt).complete needed hsequential hpending hfirst hbudget
    ?_ ?_ ?_
  · rw [tally_append_singleton]
    simp [Order.isOpenBuy]
  · rw [tally_append_singleton]
    simp [Order.isBuy]
  · rw [tally_append_singleton]
    simp [Order.isExit]

/-- What follows the response to a buy keeps the orders in order. -/
theorem Orderly.buy (h : self.Orderly) (hattempt : self.attempts[index]? = some attempt)
    (hfirst : attempt.exitConsidered = false)
    (halone : study.lifecycle.sequential = true → attempt.pendingBuys = 0)
    (hbuy : self.BuyOutcome index time next) : next.Orderly := by
  cases hbuy with
  | waits _ _ => exact h
  | leaves _ hpending hexit => exact h.exit hattempt hfirst (attempt_eq hattempt ▸ hpending) hexit
  | stops reason hsequential hexit =>
    have hstopped : (self.stopAcquisition index reason).attempts[index]? = some attempt.stop := by
      rw [attempts_stopAcquisition hattempt, getElem?_set_same hattempt]
    exact (h.stopAcquisition hattempt reason).exit hstopped hfirst (halone hsequential) hexit
  | completes quote needed hsequential hoffer =>
    exact h.sendCompletion hattempt hfirst (halone hsequential) hsequential
      (attempt_eq hattempt ▸ hoffer.budget) quote needed _

/-! ### Events -/

/-- **Every event** keeps the orders in order. -/
theorem Orderly.handle {due : Due} (h : self.Orderly)
    (hhead : ∀ event, due = .event event → self.events.head? = some event)
    (houtcome : self.EventOutcome state due next) : next.Orderly := by
  cases houtcome with
  | settles settlement closed positions _ => exact h.congr rfl rfl rfl rfl
  | sells event config arrived walked basis positions _ harrived _ _ _ _ =>
    obtain ⟨order, attempt, hfront⟩ := h.front (hhead event rfl)
    rw [hfront.order_markArrived] at harrived
    subst harrived
    exact h.arrival hfront { order with arrived := true, fill := walked.execution } attempt rfl rfl
      rfl hfront.unanswered rfl rfl rfl rfl rfl (set_same hfront.attemptAt).symm
      (List.set_set _) rfl
  | buys event arrived walked positions _ harrived _ _ _ _ =>
    obtain ⟨order, attempt, hfront⟩ := h.front (hhead event rfl)
    rw [hfront.order_markArrived] at harrived
    subst harrived
    have hset : self.attempts.set order.attempt
        ((self.attempt order.attempt).fill order.leg walked.execution) =
        self.attempts.set order.attempt (attempt.fill order.leg walked.execution) := by
      rw [attempt_eq hfront.attemptAt]
    exact h.arrival hfront { order with arrived := true, fill := walked.execution }
      (attempt.fill order.leg walked.execution) rfl rfl rfl hfront.unanswered rfl rfl rfl rfl rfl
      hset (List.set_set _) rfl
  | confirmsSale event hresponse hsell =>
    obtain ⟨order, attempt, hfront⟩ := h.front (hhead event rfl)
    rw [order_eq hfront.orderAt] at hsell ⊢
    exact h.confirmSale hfront hresponse hsell
  | confirmsBuy event hresponse hbuy hnext =>
    obtain ⟨order, attempt, hfront⟩ := h.front (hhead event rfl)
    rw [order_eq hfront.orderAt] at hbuy hnext
    have haccounts := h.accounts _ _ hfront.attemptAt
    have hconfirmed : ((self.pop.markResponded event).confirmBuy event order).attempts[
        order.attempt]? = some (attempt.confirm order.leg) := by
      rw [hfront.attempts_confirmBuy, getElem?_set_same hfront.attemptAt]
    refine (h.confirmBuy hfront hresponse hbuy).buy hconfirmed
      (haccounts.not_considered hfront.mem rfl hbuy hfront.unanswered).2
        (fun hsequential => ?_) hnext
    exact Nat.sub_eq_zero_of_le (haccounts.alone hsequential)

/-! ### Decisions -/

/-- The order of a leg of an attempt. -/
def legOrder (attempt : Lifecycle.Attempt) (index : ℕ) (leg : Fin 2) : Order where
  attempt := index
  leg := leg
  quantity := attempt.quantity
  limit := attempt.limit leg
  reserve := attempt.reserve leg

/-- The attempt once its orders are sent. -/
def sentAttempt (study : LifecycleStudy) (attempt : Lifecycle.Attempt) : Lifecycle.Attempt :=
  { attempt with pendingBuys := if study.lifecycle.sequential then 1 else 2 }

/-- The orders that an attempt sends at once. -/
def firstOrders (study : LifecycleStudy) (attempt : Lifecycle.Attempt) (index : ℕ) : List Order :=
  if study.lifecycle.sequential then [legOrder attempt index 0]
  else [legOrder attempt index 0, legOrder attempt index 1]

/-- What reserving a leg leaves alone. -/
theorem reserveLeg_frame (attempt : Lifecycle.Attempt) (self : Simulation study) (leg : Fin 2)
    (arrival : ℕ) :
    (reserveLeg attempt self leg arrival).attempts = self.attempts ∧
      (reserveLeg attempt self leg arrival).attempted = self.attempted := by
  unfold reserveLeg
  dsimp only
  split <;> exact ⟨rfl, rfl⟩

/-- A leg that is sent at once. -/
theorem reserveLeg_sends (attempt : Lifecycle.Attempt) (self : Simulation study) {leg : Fin 2}
    (arrival : ℕ)
    (h : ¬(study.lifecycle.sequential = true ∧ leg ≠ 0)) :
    (reserveLeg attempt self leg arrival).orders =
        self.orders ++ [legOrder attempt self.attempts.length leg] ∧
      (reserveLeg attempt self leg arrival).events =
        push ⟨arrival, self.orders.length, false⟩ self.events := by
  unfold reserveLeg
  rw [if_neg h]
  exact ⟨rfl, rfl⟩

/-- A leg that waits for the first one. -/
theorem reserveLeg_waits (attempt : Lifecycle.Attempt) (self : Simulation study) {leg : Fin 2}
    (arrival : ℕ)
    (h : study.lifecycle.sequential = true ∧ leg ≠ 0) :
    (reserveLeg attempt self leg arrival).orders = self.orders ∧
      (reserveLeg attempt self leg arrival).events = self.events := by
  unfold reserveLeg
  rw [if_pos h]
  exact ⟨rfl, rfl⟩

theorem attempts_entered (attempt : Lifecycle.Attempt) (self : Simulation study) :
    (self.entered attempt).attempts = self.attempts ++ [sentAttempt study attempt] ∧
      (self.entered attempt).attempted = self.attempted ++ [attempt.id] := by
  obtain ⟨hattempts, hattempted⟩ := reserveLeg_frame attempt self 0
    (attempt.started + study.policy.latency 0)
  obtain ⟨hattempts', hattempted'⟩ := reserveLeg_frame attempt
    (reserveLeg attempt self 0 (attempt.started + study.policy.latency 0)) 1
    (attempt.started + study.policy.latency 1)
  exact ⟨congrArg (· ++ _) (hattempts'.trans hattempts),
    congrArg (· ++ _) (hattempted'.trans hattempted)⟩

/-- The orders of a new attempt, and the events that await their arrivals. -/
theorem orders_entered (attempt : Lifecycle.Attempt) (self : Simulation study)
    (h : Matched self.orders self.events) :
    (self.entered attempt).orders = self.orders ++ firstOrders study attempt self.attempts.length ∧
      Matched (self.entered attempt).orders (self.entered attempt).events := by
  obtain ⟨horders, hevents⟩ := @reserveLeg_sends _ attempt self 0
    (attempt.started + study.policy.latency 0) fun hboth => hboth.2 rfl
  have hattempts := (reserveLeg_frame attempt self 0 (attempt.started + study.policy.latency 0)).1
  have hfirst := @Matched.submit _ _ (legOrder attempt self.attempts.length 0) h rfl rfl
    (attempt.started + study.policy.latency 0)
  rw [← horders, ← hevents] at hfirst
  generalize hmiddle : reserveLeg attempt self 0 (attempt.started + study.policy.latency 0) = middle
    at *
  have hentered : self.entered attempt = openAttempt (reserveLeg attempt middle 1
      (attempt.started + study.policy.latency 1)) attempt := by rw [← hmiddle]; rfl
  have hsame : ∀ later : Simulation study, (later.openAttempt attempt).orders = later.orders ∧
      (later.openAttempt attempt).events = later.events := fun _ => ⟨rfl, rfl⟩
  rw [hentered, (hsame _).1, (hsame _).2]
  by_cases hsequential : study.lifecycle.sequential = true
  · obtain ⟨horders', hevents'⟩ := @reserveLeg_waits _ attempt middle 1
      (attempt.started + study.policy.latency 1) ⟨hsequential, by decide⟩
    rw [horders', hevents', horders, firstOrders, if_pos hsequential]
    exact ⟨rfl, horders ▸ hfirst⟩
  · obtain ⟨horders', hevents'⟩ := @reserveLeg_sends _ attempt middle 1
      (attempt.started + study.policy.latency 1) fun hboth => hsequential hboth.1
    have hsecond := @Matched.submit _ _ (legOrder attempt middle.attempts.length 1) hfirst rfl rfl
      (attempt.started + study.policy.latency 1)
    rw [← horders', ← hevents'] at hsecond
    refine ⟨?_, hsecond⟩
    rw [horders', horders, hattempts, firstOrders, if_neg hsequential, List.append_assoc]
    rfl

theorem owner_firstOrders (attempt : Lifecycle.Attempt) (index : ℕ) :
    ∀ order ∈ firstOrders study attempt index, order.attempt = index := by
  intro order horder
  unfold firstOrders at horder
  split at horder
  · obtain rfl := List.mem_singleton.mp horder
    rfl
  · rcases List.mem_pair.mp horder with rfl | rfl <;> rfl

/-- **The accounts of a new attempt.** -/
theorem accounts_sentAttempt (howner : ∀ order ∈ self.orders, order.attempt < self.attempts.length)
    (hcompletion : attempt.completionOrders = 0) (hfirst : attempt.exitConsidered = false) :
    Lifecycle.Accounts study (self.orders ++ firstOrders study attempt self.attempts.length)
      self.attempts.length (sentAttempt study attempt) := by
  have hnone (weight : Order → ℕ)
      (hother : ∀ order : Order, order.attempt ≠ self.attempts.length → weight order = 0) :
      tally weight self.orders = 0 :=
    tally_eq_zero fun order horder => hother order (howner order horder).ne
  have hopen := hnone (Order.isOpenBuy self.attempts.length) fun _ h => (Order.counts_other h).2.1
  have hbuys := hnone (Order.isBuy self.attempts.length) fun _ h => (Order.counts_other h).1
  have hexits := hnone (Order.isExit self.attempts.length) fun _ h => (Order.counts_other h).2.2
  unfold firstOrders sentAttempt
  by_cases hsequential : study.lifecycle.sequential = true
  · rw [if_pos hsequential, if_pos hsequential]
    refine ⟨?_, ?_, ?_, fun hyes => absurd (hfirst.symm.trans hyes) Bool.false_ne_true,
      fun _ => le_rfl, hcompletion.trans_le (Nat.zero_le _)⟩
    · rw [tally_append, hopen]
      simp [Order.isOpenBuy, legOrder]
    · rw [tally_append, hbuys, if_pos hsequential]
      simp [Order.isBuy, legOrder, hcompletion]
    · rw [tally_append, hexits]
      simp [Order.isExit, legOrder]
  · rw [if_neg hsequential, if_neg hsequential]
    refine ⟨?_, ?_, ?_, fun hyes => absurd (hfirst.symm.trans hyes) Bool.false_ne_true,
      fun hyes => absurd hyes hsequential, hcompletion.trans_le (Nat.zero_le _)⟩
    · rw [tally_append, hopen]
      simp [Order.isOpenBuy, legOrder]
    · rw [tally_append, hbuys, if_neg hsequential]
      simp [Order.isBuy, legOrder]
    · rw [tally_append, hexits]
      simp [Order.isExit, legOrder]

/-- The legs of a constraint are compiled for the ids of the registry. -/
theorem mem_sortedIds {id : ConstraintId} {legs : Fin 2 → PayoffLegTemplate}
    (h : study.compiledLegs id = some legs) : id ∈ study.constraints.sortedIds := by
  obtain ⟨compiled, hfind, -⟩ := Option.bind_eq_some_iff.mp h
  refine Std.TreeMap.mem_keys.mpr ?_
  exact Std.TreeMap.mem_iff_isSome_getElem?.mpr (Option.isSome_iff_exists.mpr ⟨compiled, hfind⟩)

/-- **A new attempt** for a constraint that has none. -/
theorem Orderly.entered (h : self.Orderly) (hnew : attempt.id ∉ self.attempted)
    (hknown : attempt.id ∈ study.constraints.sortedIds)
    (hcompletion : attempt.completionOrders = 0) (hfirst : attempt.exitConsidered = false) :
    (self.entered attempt).Orderly := by
  obtain ⟨hattempts, hattempted⟩ := attempts_entered attempt self
  obtain ⟨horders, hmatched⟩ := orders_entered attempt self h.matched
  refine ⟨?_, ?_, ?_, ?_, hmatched, ?_⟩
  · rw [hattempted, hattempts, h.attempted, List.map_append]
    rfl
  · rw [hattempted]
    refine List.nodup_append.mpr ⟨h.nodup, List.nodup_singleton _, ?_⟩
    rintro id hid _ hmem rfl
    exact hnew (List.mem_singleton.mp hmem ▸ hid)
  · rw [hattempted]
    intro id hid
    rcases List.mem_append.mp hid with hmem | hmem
    · exact h.known id hmem
    · exact List.mem_singleton.mp hmem ▸ hknown
  · rw [horders, hattempts, List.length_append, List.length_singleton]
    intro order horder
    rcases List.mem_append.mp horder with hmem | hmem
    · exact (h.owner order hmem).trans (Nat.lt_succ_self _)
    · exact (owner_firstOrders attempt _ order hmem).trans_lt (Nat.lt_succ_self _)
  · rw [horders, hattempts]
    intro index other hother
    rcases Nat.lt_or_ge index self.attempts.length with hlt | hge
    · rw [List.getElem?_append_left hlt] at hother
      exact (h.accounts index other hother).append_orders fun order horder =>
        owner_firstOrders attempt _ order horder ▸ hlt.ne'
    · rw [List.getElem?_append_right hge, List.getElem?_singleton] at hother
      split_ifs at hother with hzero
      obtain rfl := Option.some.inj hother
      obtain rfl : index = self.attempts.length := by omega
      exact accounts_sentAttempt h.owner hcompletion hfirst

/-- **Every decision** keeps the orders in order. -/
theorem Orderly.decide {id : ConstraintId} (h : self.Orderly) (hnew : id ∉ self.attempted)
    (houtcome : self.DecideOutcome id time state next) : next.Orderly := by
  cases houtcome with
  | declined _ _ => exact h.congr rfl rfl rfl rfl
  | enters legs quote counters hlegs _ _ =>
    have hannounced : (({ self with evaluated := self.evaluated + 1, counters } :
        Simulation study).announce (attemptOf id legs quote time state) quote).Orderly :=
      h.congr rfl rfl rfl rfl
    exact hannounced.entered hnew (mem_sortedIds hlegs) rfl rfl

/-! ### The budget -/

/-- **The orders stay within their bound**, and so do the attempts and the events. -/
theorem Orderly.within_bound (h : self.Orderly) :
    self.attempts.length ≤ study.constraints.size ∧ self.orders.length ≤ study.orderBound ∧
      self.events.length ≤ self.orders.length := by
  have hattempts : self.attempts.length ≤ study.constraints.size := by
    have hle := h.nodup.length_le_of_subset h.known
    rw [h.attempted, List.length_map] at hle
    exact hle.trans_eq Std.TreeMap.length_keys
  refine ⟨hattempts, ?_, ?_⟩
  · have heach : ∀ index ∈ Finset.range self.attempts.length,
        tally (fun order : Order => if order.attempt = index then 1 else 0) self.orders ≤
          study.perAttempt := by
      intro index hindex
      obtain ⟨attempt, hattempt⟩ := exists_attempt (Finset.mem_range.mp hindex)
      have haccounts := h.accounts index attempt hattempt
      have hsplit : tally (fun order : Order =>
        if order.attempt = index then 1 else 0) self.orders =
          tally (Order.isBuy index) self.orders + tally (Order.isExit index) self.orders := by
        rw [← tally_add]
        refine tally_congr fun order _ => ?_
        unfold Order.isBuy Order.isExit
        cases order.sell <;> simp
      rw [hsplit]
      exact Nat.add_le_add (haccounts.buys_le) (haccounts.exits_le)
    calc self.orders.length
        = ∑ index ∈ Finset.range self.attempts.length,
            tally (fun order : Order => if order.attempt = index then 1 else 0) self.orders :=
          (tally_one _).symm.trans (sum_tally (fun _ => 1) h.owner).symm
      _ ≤ ∑ _ ∈ Finset.range self.attempts.length, study.perAttempt := Finset.sum_le_sum heach
      _ = self.attempts.length * study.perAttempt := by
          rw [Finset.sum_const, Finset.card_range, smul_eq_mul]
      _ ≤ study.orderBound := Nat.mul_le_mul_right _ hattempts
  · have hsub : self.events.map Event.order ⊆ List.range self.orders.length := by
      intro position hposition
      obtain ⟨event, hevent, rfl⟩ := List.mem_map.mp hposition
      exact List.mem_range.mpr (h.matched.lt_length hevent)
    have hle := h.matched.distinct.length_le_of_subset hsub
    rwa [List.length_map, List.length_range] at hle

/-! ### Progress -/

/-- What the orders and the attempts still have to go through. -/
def work (self : Simulation study) : ℕ :=
  tally Order.stages self.orders +
    tally (Lifecycle.Attempt.stages study.lifecycle.maximumCompletionOrders) self.attempts

theorem stages_eq (self : Simulation study) :
    self.stages = study.lifecycle.settlements.length - self.settlementIndex + self.work :=
  Nat.add_assoc _ _ _

/-- An order that the attempt may still send costs two stages, its arrival and its response. -/
theorem stages_considered {maximum : ℕ} (hfirst : attempt.exitConsidered = false) :
    Lifecycle.Attempt.stages maximum { attempt with exitConsidered := true } + 2 =
      attempt.stages maximum := by
  unfold Lifecycle.Attempt.stages
  dsimp only
  rw [hfirst, if_pos rfl, if_neg Bool.false_ne_true]
  omega

theorem stages_complete {maximum : ℕ} (hbudget : attempt.completionOrders < maximum)
    (needed : ℕ) : (attempt.complete needed).stages maximum + 2 = attempt.stages maximum := by
  have hconsidered : (attempt.complete needed).exitConsidered = attempt.exitConsidered := rfl
  have horders : (attempt.complete needed).completionOrders = attempt.completionOrders + 1 := rfl
  unfold Lifecycle.Attempt.stages
  rw [hconsidered, horders]
  omega

theorem work_exit (hattempt : self.attempts[index]? = some attempt)
    (hfirst : attempt.exitConsidered = false) (hexit : self.ExitOutcome index time next) :
    next.work ≤ self.work ∧ next.settlementIndex = self.settlementIndex := by
  have hset := tally_set hattempt (Lifecycle.Attempt.stages study.lifecycle.maximumCompletionOrders)
    { attempt with exitConsidered := true }
  have hstages := @stages_considered attempt study.lifecycle.maximumCompletionOrders hfirst
  have hattempts : (self.markExit index).attempts =
      self.attempts.set index { attempt with exitConsidered := true } :=
    congrArg (fun old : Lifecycle.Attempt =>
      self.attempts.set index { old with exitConsidered := true })
      (attempt_eq hattempt)
  rw [← hattempts] at hset
  cases hexit with
  | held _ => exact ⟨le_rfl, rfl⟩
  | declined _ _ =>
    refine ⟨?_, rfl⟩
    change tally Order.stages self.orders + tally _ (self.markExit index).attempts ≤
      tally Order.stages self.orders + tally _ self.attempts
    omega
  | sent config leg quote _ _ =>
    refine ⟨?_, rfl⟩
    change tally Order.stages (self.orders ++ [_]) + tally _ (self.markExit index).attempts ≤
      tally Order.stages self.orders + tally _ self.attempts
    rw [tally_append_singleton]
    simp only [Order.stages, Bool.false_eq_true, if_false]
    omega

theorem work_sendCompletion (hattempt : self.attempts[index]? = some attempt)
    (hbudget : attempt.completionOrders < study.lifecycle.maximumCompletionOrders)
    (quote : Execution) (needed arrival : ℕ) :
    (self.sendCompletion index quote needed arrival).work = self.work := by
  have hset := tally_set hattempt (Lifecycle.Attempt.stages study.lifecycle.maximumCompletionOrders)
    (attempt.complete needed)
  have hstages := stages_complete hbudget needed
  have hattempts : (self.sendCompletion index quote needed arrival).attempts =
      self.attempts.set index (attempt.complete needed) :=
    congrArg (fun old : Lifecycle.Attempt => self.attempts.set index (old.complete needed))
      (attempt_eq hattempt)
  rw [← hattempts] at hset
  change tally Order.stages (self.orders ++ [_]) + tally _ _ =
    tally Order.stages self.orders + tally _ self.attempts
  rw [tally_append_singleton]
  simp only [Order.stages, Bool.false_eq_true, if_false]
  omega

theorem work_buy (hattempt : self.attempts[index]? = some attempt)
    (hfirst : attempt.exitConsidered = false) (hbuy : self.BuyOutcome index time next) :
    next.work ≤ self.work ∧ next.settlementIndex = self.settlementIndex := by
  cases hbuy with
  | waits _ _ => exact ⟨le_rfl, rfl⟩
  | leaves _ _ hexit => exact work_exit hattempt hfirst hexit
  | stops reason _ hexit =>
    have hattempts := attempts_stopAcquisition hattempt reason
    have hstopped : (self.stopAcquisition index reason).attempts[index]? = some attempt.stop := by
      rw [hattempts, getElem?_set_same hattempt]
    have hwork : (self.stopAcquisition index reason).work = self.work := by
      unfold work
      rw [hattempts]
      exact congrArg _ (tally_set_of_eq hattempt rfl)
    obtain ⟨hle, hindex⟩ := work_exit hstopped hfirst hexit
    exact ⟨hle.trans_eq hwork, hindex⟩
  | completes quote needed _ hoffer =>
    exact ⟨(work_sendCompletion hattempt (attempt_eq hattempt ▸ hoffer.budget) _ _ _).le, rfl⟩

/-- An arrival uses up one stage of its order. -/
theorem Front.work_arrive (hfront : self.Front event order attempt)
    (harrived : order.arrived = false)
    (fill : Execution)
    (horders : next.orders = self.orders.set event.order { order with arrived := true, fill })
    (hattempts : tally (Lifecycle.Attempt.stages study.lifecycle.maximumCompletionOrders)
      next.attempts =
      tally (Lifecycle.Attempt.stages study.lifecycle.maximumCompletionOrders) self.attempts) :
    next.work < self.work := by
  have hset := tally_set hfront.orderAt Order.stages { order with arrived := true, fill }
  have hold : order.stages = 2 := by simp [Order.stages, harrived, hfront.unanswered]
  have hnew : Order.stages { order with arrived := true, fill } = 1 := by
    simp [Order.stages, hfront.unanswered]
  unfold work
  rw [horders, hattempts]
  omega

/-- The response uses up the last stage. -/
theorem Front.work_respond (hfront : self.Front event order attempt)
    (horders : next.orders = self.orders.set event.order { order with responded := true }) :
    tally Order.stages next.orders < tally Order.stages self.orders := by
  have hset := tally_set hfront.orderAt Order.stages { order with responded := true }
  have hold : 0 < order.stages := by
    unfold Order.stages
    rw [hfront.unanswered, if_neg Bool.false_ne_true]
    split <;> decide
  have hnew : Order.stages { order with responded := true } = 0 := if_pos rfl
  rw [horders]
  omega

/-- **Every event uses up a stage.** -/
theorem Orderly.stages_lt {due : Due} (h : self.Orderly)
    (hhead : ∀ event, due = .event event → self.events.head? = some event)
    (hsettlement : ∀ settlement, due = .settlement settlement →
      self.settlementIndex < study.lifecycle.settlements.length)
    (houtcome : self.EventOutcome state due next) : next.stages < self.stages := by
  rw [stages_eq, stages_eq]
  cases houtcome with
  | settles settlement closed positions _ =>
    have hlt := hsettlement settlement rfl
    change study.lifecycle.settlements.length - (self.settlementIndex + 1) + self.work < _
    omega
  | sells event config arrived walked basis positions harrival harrived _ _ _ _ =>
    obtain ⟨order, attempt, hfront⟩ := h.front (hhead event rfl)
    rw [hfront.order_markArrived] at harrived
    subst harrived
    refine Nat.add_lt_add_left ?_ _
    exact hfront.work_arrive (harrival ▸ hfront.arrived) walked.execution (List.set_set _) rfl
  | buys event arrived walked positions harrival harrived _ _ _ _ =>
    obtain ⟨order, attempt, hfront⟩ := h.front (hhead event rfl)
    rw [hfront.order_markArrived] at harrived
    subst harrived
    have hattempts : tally (Lifecycle.Attempt.stages study.lifecycle.maximumCompletionOrders)
        (self.attempts.set order.attempt
          ((self.attempt order.attempt).fill order.leg walked.execution)) =
        tally (Lifecycle.Attempt.stages study.lifecycle.maximumCompletionOrders) self.attempts := by
      rw [attempt_eq hfront.attemptAt]
      exact tally_set_of_eq hfront.attemptAt rfl
    refine Nat.add_lt_add_left ?_ _
    exact hfront.work_arrive (harrival ▸ hfront.arrived) walked.execution (List.set_set _) hattempts
  | confirmsSale event hresponse hsell =>
    obtain ⟨order, attempt, hfront⟩ := h.front (hhead event rfl)
    have hwork := hfront.work_respond hfront.orders_markResponded
    exact Nat.add_lt_add_left (Nat.add_lt_add_right hwork _) _
  | confirmsBuy event hresponse hbuy hnext =>
    obtain ⟨order, attempt, hfront⟩ := h.front (hhead event rfl)
    rw [order_eq hfront.orderAt] at hbuy hnext
    have haccounts := h.accounts _ _ hfront.attemptAt
    have hattempts := hfront.attempts_confirmBuy
    have hconfirmed : ((self.pop.markResponded event).confirmBuy event order).attempts[
        order.attempt]? = some (attempt.confirm order.leg) := by
      rw [hattempts, getElem?_set_same hfront.attemptAt]
    obtain ⟨hle, hindex⟩ := work_buy hconfirmed
      (haccounts.not_considered hfront.mem rfl hbuy hfront.unanswered).2 hnext
    have hwork : ((self.pop.markResponded event).confirmBuy event order).work < self.work := by
      have hsame := @tally_set_of_eq _
        (Lifecycle.Attempt.stages study.lifecycle.maximumCompletionOrders) _ _ _
        hfront.attemptAt (attempt.confirm order.leg) rfl
      rw [← hattempts] at hsame
      exact Nat.add_lt_add_of_lt_of_le (hfront.work_respond hfront.orders_markResponded) hsame.le
    rw [hindex]
    exact Nat.add_lt_add_left (hle.trans_lt hwork) _

end Simulation

end EventMarket.Session
