import EventMarket.Session.LifecycleOrders

/-!
# The cash of the lifecycle

Every amount of the ledger is the sum of what the attempts and the orders account for: the reserved
total of the reserves of the attempts, the unconfirmed amounts of the fills that were not responded
to, and the spent cash of all fills. So every check of the ledger passes.

## Main definitions

* `Order.debit`, `Order.credit`, `Order.openDebit`, `Order.openCredit`: what an order paid and got.
* `Backed`: the reserves of an attempt are those of its open buys.
* `Simulation.Balanced`: the ledger is the sum of its parts.

## Main results

* `Simulation.Balanced.solvent`: the ledger covers every response.
* `Simulation.Balanced.handle`, `Simulation.Balanced.decide`: every step keeps the balance.
-/

namespace EventMarket.Session

open Constraint Core Foundations Market StudyPositions

namespace Lifecycle

/-! ### What the orders account for -/

/-- Whether an order buys a leg for an attempt and was not responded to. -/
def Order.isOpenOn (index : ℕ) (leg : Fin 2) (order : Order) : ℕ :=
  if order.attempt = index ∧ order.leg = leg ∧ order.sell = false ∧ order.responded = false then 1
  else 0

/-- What a buy paid. -/
def Order.debit (order : Order) : ℕ := if order.sell then 0 else order.fill.debit

/-- What a sale brought. -/
def Order.credit (order : Order) : ℕ := if order.sell then order.fill.credit else 0

/-- What a buy paid that was not responded to. -/
def Order.openDebit (order : Order) : ℕ := if order.responded then 0 else order.debit

/-- What a sale brought that was not responded to. -/
def Order.openCredit (order : Order) : ℕ := if order.responded then 0 else order.credit

/-- What is reserved for both legs of an attempt. -/
def Attempt.reserved (attempt : Attempt) : ℕ := attempt.reserve 0 + attempt.reserve 1

@[simp] theorem Attempt.reserve_stop (attempt : Attempt) : attempt.stop.reserve 1 = 0 := by
  simp [Attempt.stop]

@[simp] theorem Attempt.reserve_complete (attempt : Attempt) (needed : ℕ) :
    (attempt.complete needed).reserve 1 = needed := by
  simp [Attempt.complete]

section Backed

variable {study : LifecycleStudy} {orders : List Order} {index position : ℕ} {leg : Fin 2}
  {attempt attempt' : Attempt} {order old new : Order}

theorem Order.isOpenOn_le (order : Order) : order.isOpenOn index leg ≤ order.isOpenBuy index := by
  unfold isOpenOn isOpenBuy
  split
  · next hopen => rw [if_pos ⟨hopen.1, hopen.2.2⟩]
  · exact Nat.zero_le _

theorem Order.isOpenOn_other (h : order.attempt ≠ index) (leg : Fin 2) :
    order.isOpenOn index leg = 0 := if_neg fun hboth => h hboth.1

theorem Order.isOpenOn_sell (h : order.sell = true) (index : ℕ) (leg : Fin 2) :
    order.isOpenOn index leg = 0 := if_neg fun hboth => by simp [h] at hboth

/-- **The reserves of an attempt** are those of its open buys; the second leg of a sequential
attempt is reserved for while the first one is open. -/
structure Backed (study : LifecycleStudy) (orders : List Order) (index : ℕ) (attempt : Attempt) :
    Prop where
  single : ∀ leg, tally (Order.isOpenOn index leg) orders ≤ 1
  reserve : ∀ order ∈ orders, order.isOpenOn index order.leg = 1 →
    order.reserve = attempt.reserve order.leg
  first : attempt.reserve 0 ≠ 0 → tally (Order.isOpenOn index 0) orders ≠ 0
  parallel : study.lifecycle.sequential = false → attempt.reserve 1 ≠ 0 →
    tally (Order.isOpenOn index 1) orders ≠ 0

/-- An order that keeps its place changes otherwise. -/
theorem Backed.set_keeps (h : Backed study orders index attempt)
    (hold : orders[position]? = some old)
    (hweight : ∀ leg, new.isOpenOn index leg = old.isOpenOn index leg) (hleg : new.leg = old.leg)
    (hreserve : new.reserve = old.reserve) (hattempt : attempt'.reserve = attempt.reserve) :
    Backed study (orders.set position new) index attempt' := by
  have htally (leg : Fin 2) : tally (Order.isOpenOn index leg) (orders.set position new) =
      tally (Order.isOpenOn index leg) orders := tally_set_of_eq hold (hweight leg)
  refine ⟨fun leg => (htally leg).trans_le (h.single leg), ?_, ?_, ?_⟩
  · intro order horder hopen
    rw [hattempt]
    rcases List.mem_or_eq_of_mem_set horder with hmem | rfl
    · exact h.reserve order hmem hopen
    · rw [hweight, hleg] at hopen
      rw [hreserve, hleg]
      exact h.reserve old (List.mem_of_getElem? hold) hopen
  · rw [hattempt, htally]
    exact h.first
  · rw [hattempt, htally]
    exact h.parallel

/-- A new order that is no open buy of the attempt. -/
theorem Backed.append_keeps (h : Backed study orders index attempt)
    (hweight : ∀ leg, new.isOpenOn index leg = 0) (hattempt : attempt'.reserve = attempt.reserve) :
    Backed study (orders ++ [new]) index attempt' := by
  have htally (leg : Fin 2) : tally (Order.isOpenOn index leg) (orders ++ [new]) =
      tally (Order.isOpenOn index leg) orders := by
    rw [tally_append_singleton, hweight, add_zero]
  refine ⟨fun leg => (htally leg).trans_le (h.single leg), ?_, ?_, ?_⟩
  · intro order horder hopen
    rw [hattempt]
    rcases List.mem_append.mp horder with hmem | hmem
    · exact h.reserve order hmem hopen
    · obtain rfl := List.mem_singleton.mp hmem
      exact absurd ((hweight _).symm.trans hopen) Nat.zero_ne_one
  · rw [hattempt, htally]
    exact h.first
  · rw [hattempt, htally]
    exact h.parallel

theorem Backed.append_others {more : List Order} (h : Backed study orders index attempt)
    (hmore : ∀ order ∈ more, order.attempt ≠ index) :
    Backed study (orders ++ more) index attempt := by
  induction more using List.reverseRecOn with
  | nil => rwa [List.append_nil]
  | append_singleton more last ih =>
    rw [← List.append_assoc]
    refine (ih fun order horder => hmore order (List.mem_append_left _ horder)).append_keeps ?_ rfl
    exact Order.isOpenOn_other (hmore last (by simp))

/-- The reserve of an open buy is the one of its leg. -/
theorem Backed.reserve_eq (h : Backed study orders index attempt) (hmem : order ∈ orders)
    (howner : order.attempt = index) (hbuy : order.sell = false)
    (hopen : order.responded = false) : order.reserve = attempt.reserve order.leg :=
  h.reserve order hmem (if_pos ⟨howner, rfl, hbuy, hopen⟩)

/-- **The response to a buy** frees the reserve of its leg. -/
theorem Backed.respond (h : Backed study orders index attempt)
    (hold : orders[position]? = some old) (new : Order) (howner : old.attempt = index)
    (hbuy : old.sell = false) (hopen : old.responded = false) (hresponded : new.responded = true) :
    Backed study (orders.set position new) index (attempt.confirm old.leg) := by
  have hone : old.isOpenOn index old.leg = 1 := if_pos ⟨howner, rfl, hbuy, hopen⟩
  have hnew (leg : Fin 2) : new.isOpenOn index leg = 0 := if_neg (by simp [hresponded])
  have hother {leg : Fin 2} (hne : leg ≠ old.leg) : tally (Order.isOpenOn index leg)
      (orders.set position new) = tally (Order.isOpenOn index leg) orders := by
    refine tally_set_of_eq hold ((hnew leg).trans (if_neg ?_).symm)
    exact fun hboth => hne hboth.2.1.symm
  have hnone : tally (Order.isOpenOn index old.leg) (orders.set position new) = 0 := by
    have hset := tally_set hold (Order.isOpenOn index old.leg) new
    have hsingle := h.single old.leg
    have hzero := hnew old.leg
    omega
  have hkeeps {leg : Fin 2} (hne : leg ≠ old.leg) :
      (attempt.confirm old.leg).reserve leg = attempt.reserve leg := Function.update_of_ne hne _ _
  have hfreed : (attempt.confirm old.leg).reserve old.leg = 0 := Function.update_self _ _ _
  refine ⟨fun leg => ?_, fun order horder hyes => ?_, fun hreserve => ?_,
    fun hparallel hreserve => ?_⟩
  · by_cases heq : leg = old.leg
    · rw [heq, hnone]
      exact Nat.zero_le 1
    · rw [hother heq]
      exact h.single leg
  · by_cases heq : order.leg = old.leg
    · have hzero := weight_eq_zero hnone order horder
      rw [heq] at hyes
      exact absurd (hzero.symm.trans hyes) Nat.zero_ne_one
    · rw [hkeeps heq]
      rcases List.mem_or_eq_of_mem_set horder with hmem | rfl
      · exact h.reserve order hmem hyes
      · exact absurd ((hnew _).symm.trans hyes) Nat.zero_ne_one
  · by_cases heq : 0 = old.leg
    · exact absurd (heq ▸ hfreed) hreserve
    · rw [hother heq]
      exact h.first (hkeeps heq ▸ hreserve)
  · by_cases heq : 1 = old.leg
    · exact absurd (heq ▸ hfreed) hreserve
    · rw [hother heq]
      exact h.parallel hparallel (hkeeps heq ▸ hreserve)

/-- The acquisition is over. -/
theorem Backed.stop (h : Backed study orders index attempt)
    (hnone : tally (Order.isOpenOn index 1) orders = 0) :
    Backed study orders index attempt.stop where
  single := h.single
  reserve := by
    intro order horder hopen
    have hne : order.leg ≠ 1 := by
      intro heq
      rw [heq] at hopen
      exact absurd ((weight_eq_zero hnone order horder).symm.trans hopen) Nat.zero_ne_one
    rw [h.reserve order horder hopen]
    exact (Function.update_of_ne hne _ _).symm
  first := h.first
  parallel := fun _ hreserve => absurd attempt.reserve_stop hreserve

/-- The next order for the second leg. -/
theorem Backed.complete (h : Backed study orders index attempt)
    (hnone : ∀ leg, tally (Order.isOpenOn index leg) orders = 0) (hbuy : new.sell = false)
    (howner : new.attempt = index) (hleg : new.leg = 1) (hopen : new.responded = false) :
    Backed study (orders ++ [new]) index (attempt.complete new.reserve) := by
  have hone : new.isOpenOn index 1 = 1 := if_pos ⟨howner, hleg, hbuy, hopen⟩
  have hfirst : new.isOpenOn index 0 = 0 := if_neg (by simp [hleg])
  refine ⟨Fin.forall_fin_two.mpr ⟨?_, ?_⟩, fun order horder hyes => ?_, fun hreserve => ?_,
    fun _ _ => ?_⟩
  · rw [tally_append_singleton, hnone, hfirst]
    exact Nat.zero_le 1
  · rw [tally_append_singleton, hnone, hone]
  · rcases List.mem_append.mp horder with hmem | hmem
    · exact absurd ((weight_eq_zero (hnone _) order hmem).symm.trans hyes) Nat.zero_ne_one
    · obtain rfl := List.mem_singleton.mp hmem
      rw [hleg, Attempt.reserve_complete]
  · exact absurd (hnone 0) (h.first hreserve)
  · rw [tally_append_singleton, hone]
    exact Nat.succ_ne_zero _

end Backed

/-! ### Sums over the orders -/

/-- **The amounts of a ledger** are the sums over the orders. -/
structure Sums (ledger : Ledger) (orders : List Order) : Prop where
  unconfirmedDebit : ledger.unconfirmedDebit = tally Order.openDebit orders
  unconfirmedCredit : ledger.unconfirmedCredit = tally Order.openCredit orders
  spent : ledger.spent = tally Order.debit orders
  exitCredit : ledger.exitCredit = tally Order.credit orders

section Sums

variable {ledger ledger' : Ledger} {orders : List Order} {position : ℕ} {old new : Order}
  {fill : Execution}

/-- A ledger that keeps its amounts, with orders that filled nothing. -/
theorem Sums.append (h : Sums ledger orders) {more : List Order}
    (hmore : ∀ order ∈ more, order.fill = {})
    (hdebit : ledger'.unconfirmedDebit = ledger.unconfirmedDebit)
    (hcredit : ledger'.unconfirmedCredit = ledger.unconfirmedCredit)
    (hspent : ledger'.spent = ledger.spent) (hexit : ledger'.exitCredit = ledger.exitCredit) :
    Sums ledger' (orders ++ more) := by
  have hnone {order : Order} (hfill : order.fill = {}) : order.debit = 0 ∧ order.credit = 0 := by
    simp [Order.debit, Order.credit, hfill]
  have hkeeps (weight : Order → ℕ) (hweight : ∀ order ∈ more, weight order = 0) :
      tally weight (orders ++ more) = tally weight orders := by
    rw [tally_append, tally_eq_zero hweight, add_zero]
  refine ⟨?_, ?_, ?_, ?_⟩
  · rw [hdebit, h.unconfirmedDebit, hkeeps]
    exact fun order horder => by simp [Order.openDebit, (hnone (hmore order horder)).1]
  · rw [hcredit, h.unconfirmedCredit, hkeeps]
    exact fun order horder => by simp [Order.openCredit, (hnone (hmore order horder)).2]
  · rw [hspent, h.spent, hkeeps _ fun order horder => (hnone (hmore order horder)).1]
  · rw [hexit, h.exitCredit, hkeeps _ fun order horder => (hnone (hmore order horder)).2]

/-- One order changes, and the ledger with it. -/
theorem Sums.set (h : Sums ledger orders) (hold : orders[position]? = some old) (new : Order)
    (hdebit : ledger'.unconfirmedDebit + old.openDebit = ledger.unconfirmedDebit + new.openDebit)
    (hcredit : ledger'.unconfirmedCredit + old.openCredit =
      ledger.unconfirmedCredit + new.openCredit)
    (hspent : ledger'.spent + old.debit = ledger.spent + new.debit)
    (hexit : ledger'.exitCredit + old.credit = ledger.exitCredit + new.credit) :
    Sums ledger' (orders.set position new) := by
  obtain ⟨hopenDebit, hopenCredit, hbought, hsold⟩ := h
  have hset (weight : Order → ℕ) := tally_set hold weight new
  have hsetDebit := hset Order.openDebit
  have hsetCredit := hset Order.openCredit
  have hsetBought := hset Order.debit
  have hsetSold := hset Order.credit
  constructor <;> omega

/-- A buy fills at its arrival. -/
theorem Sums.buy (h : Sums ledger orders) (hold : orders[position]? = some old)
    (hbuy : old.sell = false) (hopen : old.responded = false) (hfill : old.fill = {})
    (fill : Execution) :
    Sums (ledger.buy fill) (orders.set position { old with arrived := true, fill }) := by
  refine h.set hold _ ?_ ?_ ?_ ?_ <;>
    simp [Ledger.buy, Order.openDebit, Order.openCredit, Order.debit, Order.credit, hbuy, hopen,
      hfill]

/-- An exit fills at its arrival. -/
theorem Sums.sale (h : Sums ledger orders) (hold : orders[position]? = some old)
    (hsell : old.sell = true) (hopen : old.responded = false) (hfill : old.fill = {})
    (fill : Execution) (basis : ℕ) :
    Sums (ledger.sale fill basis) (orders.set position { old with arrived := true, fill }) := by
  refine h.set hold _ ?_ ?_ ?_ ?_ <;>
    simp [Ledger.sale, Order.openDebit, Order.openCredit, Order.debit, Order.credit, hsell, hopen,
      hfill]

theorem Sums.confirmBuy (h : Sums ledger orders) (hold : orders[position]? = some old)
    (hbuy : old.sell = false) (hopen : old.responded = false) (reserve : ℕ) :
    Sums (ledger.confirmBuy reserve old.fill)
      (orders.set position { old with responded := true }) := by
  refine h.set hold _ ?_ ?_ ?_ ?_ <;>
    simp [Ledger.confirmBuy, Order.openDebit, Order.openCredit, Order.debit, Order.credit, hbuy,
      hopen]

theorem Sums.confirmSale (h : Sums ledger orders) (hold : orders[position]? = some old)
    (hsell : old.sell = true) (hopen : old.responded = false) :
    Sums (ledger.confirmSale old.fill) (orders.set position { old with responded := true }) := by
  refine h.set hold _ ?_ ?_ ?_ ?_ <;>
    simp [Ledger.confirmSale, Order.openDebit, Order.openCredit, Order.debit, Order.credit, hsell,
      hopen]

end Sums

end Lifecycle

namespace Simulation

open Lifecycle

variable {study : LifecycleStudy} {self next : Simulation study} {event : Event}
  {order old new : Order} {attempt attempt' : Lifecycle.Attempt} {index owner position time : ℕ}
  {state : MarketState}

/-! ### The balance -/

/-- **The ledger is the sum of its parts**: of the reserves of the attempts and of the fills of the
orders. -/
structure Balanced (current : Simulation study) : Prop where
  conserved : current.ledger.Conserved study.policy.capital.raw
  reserved : current.ledger.reservedTotal = tally Lifecycle.Attempt.reserved current.attempts
  sums : Sums current.ledger current.orders
  unfilled : ∀ order ∈ current.orders, order.arrived = false → order.fill = {}
  within : ∀ order ∈ current.orders, order.sell = false → order.fill.debit ≤ order.reserve
  backed : ∀ index attempt, current.attempts[index]? = some attempt →
    Backed study current.orders index attempt

theorem balanced_initial : (initial study).Balanced where
  conserved := by
    unfold initial Ledger.Conserved
    simp
  reserved := rfl
  sums := ⟨rfl, rfl, rfl, rfl⟩
  unfilled := by rintro _ ⟨⟩
  within := by rintro _ ⟨⟩
  backed := by rintro _ _ ⟨⟩

/-- Steps that touch neither the ledger, the orders nor the attempts. -/
theorem Balanced.congr (h : self.Balanced) (hledger : next.ledger = self.ledger)
    (hattempts : next.attempts = self.attempts) (horders : next.orders = self.orders) :
    next.Balanced where
  conserved := hledger ▸ h.conserved
  reserved := by rw [hledger, hattempts, h.reserved]
  sums := by rw [hledger, horders]; exact h.sums
  unfilled := horders ▸ h.unfilled
  within := horders ▸ h.within
  backed := by rw [hattempts, horders]; exact h.backed

/-- **One attempt changes**, with its orders and the ledger. -/
theorem Balanced.update (h : self.Balanced) (hattempt : self.attempts[owner]? = some attempt)
    (attempt' : Lifecycle.Attempt) (hconserved : next.ledger.Conserved study.policy.capital.raw)
    (hattempts : next.attempts = self.attempts.set owner attempt')
    (hreserved : next.ledger.reservedTotal + attempt.reserved =
      self.ledger.reservedTotal + attempt'.reserved)
    (hsums : Sums next.ledger next.orders)
    (hunfilled : ∀ order ∈ next.orders, order.arrived = false → order.fill = {})
    (hwithin : ∀ order ∈ next.orders, order.sell = false → order.fill.debit ≤ order.reserve)
    (hbacked : Backed study next.orders owner attempt')
    (hothers : ∀ index other, owner ≠ index → Backed study self.orders index other →
      Backed study next.orders index other) : next.Balanced where
  conserved := hconserved
  reserved := by
    have hset := tally_set hattempt Lifecycle.Attempt.reserved attempt'
    have hbefore := h.reserved
    rw [hattempts]
    omega
  sums := hsums
  unfilled := hunfilled
  within := hwithin
  backed := by
    intro index other hother
    rw [hattempts, List.getElem?_set] at hother
    split_ifs at hother with heq hlt
    · obtain rfl := Option.some.inj hother
      exact heq ▸ hbacked
    · exact hothers index other heq (h.backed index other hother)

/-- **One order changes**, with its attempt. -/
theorem Balanced.setOrder (h : self.Balanced) (hattempt : self.attempts[owner]? = some attempt)
    (attempt' : Lifecycle.Attempt) (hold : self.orders[position]? = some old) (new : Order)
    (howner : old.attempt = owner) (hsame : new.attempt = old.attempt)
    (hconserved : next.ledger.Conserved study.policy.capital.raw)
    (hattempts : next.attempts = self.attempts.set owner attempt')
    (horders : next.orders = self.orders.set position new)
    (hreserved : next.ledger.reservedTotal + attempt.reserved =
      self.ledger.reservedTotal + attempt'.reserved)
    (hsums : Sums next.ledger (self.orders.set position new)) (harrived : new.arrived = true)
    (hwithin : new.sell = false → new.fill.debit ≤ new.reserve)
    (hbacked : Backed study (self.orders.set position new) owner attempt')
    (hleg : new.leg = old.leg) (hreserve : new.reserve = old.reserve) : next.Balanced := by
  refine h.update hattempt attempt' hconserved hattempts hreserved (horders ▸ hsums) ?_ ?_
    (horders ▸ hbacked) ?_
  · rw [horders]
    intro order horder hnot
    rcases List.mem_or_eq_of_mem_set horder with hmem | rfl
    · exact h.unfilled order hmem hnot
    · exact absurd (harrived.symm.trans hnot) Bool.noConfusion
  · rw [horders]
    intro order horder hbuy
    rcases List.mem_or_eq_of_mem_set horder with hmem | rfl
    · exact h.within order hmem hbuy
    · exact hwithin hbuy
  · rw [horders]
    intro index other hne hother
    refine hother.set_keeps hold (fun leg => ?_) hleg hreserve rfl
    rw [Order.isOpenOn_other (howner ▸ hne : old.attempt ≠ index),
      Order.isOpenOn_other (hsame ▸ howner ▸ hne : new.attempt ≠ index)]

/-- **Orders come to the others**, with their attempt. -/
theorem Balanced.appendOrders (h : self.Balanced) (hattempt : self.attempts[owner]? = some attempt)
    (attempt' : Lifecycle.Attempt) (more : List Order)
    (hmore : ∀ order ∈ more, order.attempt = owner ∧ order.fill = {})
    (hconserved : next.ledger.Conserved study.policy.capital.raw)
    (hattempts : next.attempts = self.attempts.set owner attempt')
    (horders : next.orders = self.orders ++ more)
    (hreserved : next.ledger.reservedTotal + attempt.reserved =
      self.ledger.reservedTotal + attempt'.reserved)
    (hsums : Sums next.ledger (self.orders ++ more))
    (hbacked : Backed study (self.orders ++ more) owner attempt') : next.Balanced := by
  refine h.update hattempt attempt' hconserved hattempts hreserved (horders ▸ hsums) ?_ ?_
    (horders ▸ hbacked) ?_
  · rw [horders]
    intro order horder hnot
    rcases List.mem_append.mp horder with hmem | hmem
    · exact h.unfilled order hmem hnot
    · exact (hmore order hmem).2
  · rw [horders]
    intro order horder hbuy
    rcases List.mem_append.mp horder with hmem | hmem
    · exact h.within order hmem hbuy
    · rw [(hmore order hmem).2]
      exact Nat.zero_le _
  · rw [horders]
    intro index other hne hother
    exact hother.append_others fun order horder => (hmore order horder).1 ▸ hne

/-! ### Responses -/

/-- The reserves of an attempt are a part of the total. -/
theorem Balanced.reserved_le (h : self.Balanced) (hattempt : self.attempts[index]? = some attempt) :
    (attempt.reserve 0 + attempt.reserve 1 : ℤ) ≤ self.ledger.reservedTotal := by
  have hle := le_tally Lifecycle.Attempt.reserved (List.mem_of_getElem? hattempt)
  rw [h.reserved]
  exact_mod_cast hle

/-- **The ledger covers every response.** -/
theorem Balanced.solvent (h : self.Balanced) (hmem : order ∈ self.orders)
    (hopen : order.responded = false) (hattempt : self.attempts[order.attempt]? = some attempt) :
    self.Solvent order := by
  refine ⟨h.conserved, fun hsell => ?_, fun hbuy => ?_, h.within order hmem, fun hbuy => ?_⟩
  · have hle := le_tally Order.openCredit hmem
    have heq : order.openCredit = order.fill.credit := by
      simp [Order.openCredit, Order.credit, hopen, hsell]
    rw [h.sums.unconfirmedCredit]
    exact_mod_cast heq ▸ hle
  · have hle := le_tally Order.openDebit hmem
    have heq : order.openDebit = order.fill.debit := by
      simp [Order.openDebit, Order.debit, hopen, hbuy]
    rw [h.sums.unconfirmedDebit]
    exact_mod_cast heq ▸ hle
  · have htotal := h.reserved_le hattempt
    rw [attempt_eq hattempt, (h.backed _ _ hattempt).reserve_eq hmem rfl hbuy hopen]
    by_cases hleg : order.leg = 0
    · rw [hleg]
      simpa [Lifecycle.Attempt.confirm] using htotal
    · have hsecond : order.leg = 1 := by omega
      rw [hsecond]
      simp only [Lifecycle.Attempt.confirm, Function.update_self]
      omega

/-- **Considering the exit** touches no cash. -/
theorem Balanced.exit (h : self.Balanced) (hattempt : self.attempts[index]? = some attempt)
    (hexit : self.ExitOutcome index time next) : next.Balanced := by
  have hattempts : (self.markExit index).attempts =
      self.attempts.set index { attempt with exitConsidered := true } :=
    congrArg (fun old : Lifecycle.Attempt =>
      self.attempts.set index { old with exitConsidered := true }) (attempt_eq hattempt)
  have hbacked : Backed study self.orders index { attempt with exitConsidered := true } :=
    ⟨(h.backed index attempt hattempt).single, (h.backed index attempt hattempt).reserve,
      (h.backed index attempt hattempt).first, (h.backed index attempt hattempt).parallel⟩
  cases hexit with
  | held _ => exact h
  | declined _ _ =>
    exact h.update hattempt { attempt with exitConsidered := true } h.conserved hattempts rfl h.sums
      h.unfilled h.within hbacked fun _ _ _ hother => hother
  | sent config leg quote _ _ =>
    refine h.appendOrders hattempt { attempt with exitConsidered := true }
      [{ attempt := index, leg, quantity := quote.quantity, limit := quote.worstPrice, reserve := 0
         sell := true }] ?_ h.conserved hattempts rfl rfl ?_ ?_
    · intro order horder
      obtain rfl := List.mem_singleton.mp horder
      exact ⟨rfl, rfl⟩
    · refine h.sums.append (fun order horder => ?_) rfl rfl rfl rfl
      obtain rfl := List.mem_singleton.mp horder
      rfl
    · exact hbacked.append_keeps (Order.isOpenOn_sell rfl index) rfl

/-- The end of an acquisition frees the reserve of the second leg. -/
theorem Balanced.stopAcquisition (h : self.Balanced)
    (hattempt : self.attempts[index]? = some attempt)
    (hnone : tally (Order.isOpenOn index 1) self.orders = 0) (reason : String) :
    (self.stopAcquisition index reason).Balanced := by
  have htotal := h.reserved_le hattempt
  have hledger : (self.stopAcquisition index reason).ledger =
      self.ledger.release (attempt.reserve 1) :=
    congrArg (fun old : Lifecycle.Attempt => self.ledger.release (old.reserve 1))
      (attempt_eq hattempt)
  have hfirst : attempt.stop.reserve 0 = attempt.reserve 0 := by simp [Lifecycle.Attempt.stop]
  refine h.update hattempt attempt.stop ?_ (attempts_stopAcquisition hattempt reason) ?_ ?_
    h.unfilled h.within ((h.backed index attempt hattempt).stop hnone) fun _ _ _ hother => hother
  · rw [hledger]
    exact h.conserved.release (by omega)
  · rw [hledger]
    simp only [Lifecycle.Attempt.reserved, Lifecycle.Attempt.reserve_stop, hfirst, Ledger.release]
    push_cast
    ring
  · rw [hledger]
    exact ⟨h.sums.unconfirmedDebit, h.sums.unconfirmedCredit, h.sums.spent, h.sums.exitCredit⟩

/-- The next order for the second leg takes the place of what was reserved for it. -/
theorem Balanced.sendCompletion (h : self.Balanced)
    (hattempt : self.attempts[index]? = some attempt)
    (hnone : ∀ leg, tally (Order.isOpenOn index leg) self.orders = 0) {quote : Execution}
    {needed : ℕ} (hoffer : self.CompletionOffer index quote needed) (arrival : ℕ) :
    (self.sendCompletion index quote needed arrival).Balanced := by
  have htotal := h.reserved_le hattempt
  have hattempts : (self.sendCompletion index quote needed arrival).attempts =
      self.attempts.set index (attempt.complete needed) :=
    congrArg (fun old : Lifecycle.Attempt => self.attempts.set index (old.complete needed))
      (attempt_eq hattempt)
  have hledger : (self.sendCompletion index quote needed arrival).ledger =
      (self.ledger.release (attempt.reserve 1)).reserve needed :=
    congrArg (fun old : Lifecycle.Attempt => (self.ledger.release (old.reserve 1)).reserve needed)
      (attempt_eq hattempt)
  have hfirst : (attempt.complete needed).reserve 0 = attempt.reserve 0 := by
    simp [Lifecycle.Attempt.complete]
  have hfunded := hoffer.funded
  rw [attempt_eq hattempt] at hfunded
  refine h.appendOrders hattempt (attempt.complete needed)
    [{ attempt := index, leg := 1, quantity := quote.quantity, limit := quote.worstPrice
       reserve := needed, sell := false }] ?_ ?_ hattempts rfl ?_ ?_ ?_
  · intro order horder
    obtain rfl := List.mem_singleton.mp horder
    exact ⟨rfl, rfl⟩
  · rw [hledger]
    exact (h.conserved.release (by omega)).reserve hfunded
  · rw [hledger]
    simp only [Lifecycle.Attempt.reserved, Lifecycle.Attempt.reserve_complete, hfirst,
      Ledger.release, Ledger.reserve]
    push_cast
    ring
  · rw [hledger]
    refine h.sums.append (fun order horder => ?_) rfl rfl rfl rfl
    obtain rfl := List.mem_singleton.mp horder
    rfl
  · exact (h.backed index attempt hattempt).complete hnone rfl rfl rfl rfl

/-- **What follows the response to a buy** keeps the balance. -/
theorem Balanced.buy (h : self.Balanced) (hattempt : self.attempts[index]? = some attempt)
    (hnone : study.lifecycle.sequential = true →
      ∀ leg, tally (Order.isOpenOn index leg) self.orders = 0)
    (hbuy : self.BuyOutcome index time next) : next.Balanced := by
  cases hbuy with
  | waits _ _ => exact h
  | leaves _ _ hexit => exact h.exit hattempt hexit
  | stops reason hsequential hexit =>
    have hstopped : (self.stopAcquisition index reason).attempts[index]? = some attempt.stop := by
      rw [attempts_stopAcquisition hattempt, getElem?_set_same hattempt]
    exact (h.stopAcquisition hattempt (hnone hsequential 1) reason).exit hstopped hexit
  | completes quote needed hsequential hoffer =>
    exact h.sendCompletion hattempt (hnone hsequential) hoffer _

/-! ### Events -/

/-- An attempt without open buys has none on any leg. -/
theorem Orderly.noneOpen (h : self.Orderly) (hattempt : self.attempts[index]? = some attempt)
    (hpending : attempt.pendingBuys = 0) (leg : Fin 2) :
    tally (Order.isOpenOn index leg) self.orders = 0 := by
  have hnone := (h.accounts index attempt hattempt).pending.symm.trans hpending
  refine tally_eq_zero fun order horder => Nat.le_zero.mp (order.isOpenOn_le.trans_eq ?_)
  exact weight_eq_zero hnone order horder

section Front

variable (hfront : self.Front event order attempt)

include hfront

/-- A buy arrives. -/
theorem Balanced.arriveBuy (h : self.Balanced) (harrival : event.response = false)
    (hbuy : order.sell = false) (fill : Execution) (hwithin : fill.debit ≤ order.reserve)
    (hledger : next.ledger = self.ledger.buy fill)
    (hattempts : next.attempts = self.attempts.set order.attempt (attempt.fill order.leg fill))
    (horders : next.orders = self.orders.set event.order { order with arrived := true, fill }) :
    next.Balanced := by
  have hfill := h.unfilled order hfront.mem (hfront.arrived.trans harrival)
  refine h.setOrder hfront.attemptAt (attempt.fill order.leg fill) hfront.orderAt
    { order with arrived := true, fill } rfl rfl ?_ hattempts horders ?_ ?_ rfl (fun _ => hwithin)
    ?_ rfl rfl
  · rw [hledger]
    exact h.conserved.buy fill
  · rw [hledger]
    rfl
  · rw [hledger]
    exact h.sums.buy hfront.orderAt hbuy hfront.unanswered hfill fill
  · exact (h.backed _ _ hfront.attemptAt).set_keeps hfront.orderAt (fun _ => rfl) rfl rfl rfl

/-- An exit arrives. -/
theorem Balanced.arriveExit (h : self.Balanced) (harrival : event.response = false)
    (hsell : order.sell = true) (fill : Execution) (basis : ℕ)
    (hledger : next.ledger = self.ledger.sale fill basis)
    (hattempts : next.attempts = self.attempts)
    (horders : next.orders = self.orders.set event.order { order with arrived := true, fill }) :
    next.Balanced := by
  have hfill := h.unfilled order hfront.mem (hfront.arrived.trans harrival)
  refine h.setOrder hfront.attemptAt attempt hfront.orderAt
    { order with arrived := true, fill } rfl rfl ?_
    (hattempts.trans (set_same hfront.attemptAt).symm) horders ?_ ?_ rfl ?_ ?_ rfl rfl
  · rw [hledger]
    exact h.conserved.sale fill basis
  · rw [hledger]
    rfl
  · rw [hledger]
    exact h.sums.sale hfront.orderAt hsell hfront.unanswered hfill fill basis
  · exact fun hbuy => absurd (hsell.symm.trans hbuy) Bool.noConfusion
  · exact (h.backed _ _ hfront.attemptAt).set_keeps hfront.orderAt (fun _ => rfl) rfl rfl rfl

/-- The response to an exit. -/
theorem Balanced.confirmSale (h : self.Balanced) (hresponse : event.response = true)
    (hsell : order.sell = true) :
    ((self.pop.markResponded event).confirmSale event order).Balanced := by
  have hsolvent := h.solvent hfront.mem hfront.unanswered hfront.attemptAt
  refine h.setOrder hfront.attemptAt attempt hfront.orderAt { order with responded := true } rfl rfl
    (hsolvent.conserved.confirmSale (hsolvent.sale hsell)) (set_same hfront.attemptAt).symm
    hfront.orders_markResponded rfl
    (h.sums.confirmSale hfront.orderAt hsell hfront.unanswered)
    (hfront.arrived.trans hresponse) (h.within order hfront.mem) ?_ rfl rfl
  refine (h.backed _ _ hfront.attemptAt).set_keeps hfront.orderAt (fun leg => ?_) rfl rfl rfl
  have hnone : Order.isOpenOn order.attempt leg { order with responded := true } = 0 :=
    @Order.isOpenOn_sell { order with responded := true } hsell order.attempt leg
  exact hnone.trans (Order.isOpenOn_sell hsell _ leg).symm

/-- The response to a buy. -/
theorem Balanced.confirmBuy (h : self.Balanced) (hresponse : event.response = true)
    (hbuy : order.sell = false) :
    ((self.pop.markResponded event).confirmBuy event order).Balanced := by
  have hsolvent := h.solvent hfront.mem hfront.unanswered hfront.attemptAt
  have hbacked := h.backed _ _ hfront.attemptAt
  have hreserve := hsolvent.reserve hbuy
  refine h.setOrder hfront.attemptAt (attempt.confirm order.leg) hfront.orderAt
    { order with responded := true } rfl rfl
    (hsolvent.conserved.confirmBuy (by omega) (hsolvent.debit hbuy) (hsolvent.within hbuy))
    hfront.attempts_confirmBuy hfront.orders_markResponded ?_
    (h.sums.confirmBuy hfront.orderAt hbuy hfront.unanswered order.reserve)
    (hfront.arrived.trans hresponse) (h.within order hfront.mem)
    (hbacked.respond hfront.orderAt _ rfl hbuy hfront.unanswered rfl) rfl rfl
  change self.ledger.reservedTotal - order.reserve + _ = _
  rw [hbacked.reserve_eq hfront.mem rfl hbuy hfront.unanswered]
  by_cases hleg : order.leg = 0
  · rw [hleg]
    simp only [Lifecycle.Attempt.reserved, Lifecycle.Attempt.confirm, Function.update_self,
      Function.update_of_ne (show (1 : Fin 2) ≠ 0 by decide)]
    push_cast
    ring
  · have hsecond : order.leg = 1 := by omega
    rw [hsecond]
    simp only [Lifecycle.Attempt.reserved, Lifecycle.Attempt.confirm, Function.update_self,
      Function.update_of_ne (show (0 : Fin 2) ≠ 1 by decide)]
    push_cast
    ring

end Front

/-- **Every event** keeps the balance. -/
theorem Balanced.handle {due : Due} (h : self.Balanced) (horderly : self.Orderly)
    (hhead : ∀ event, due = .event event → self.events.head? = some event)
    (houtcome : self.EventOutcome state due next) : next.Balanced := by
  cases houtcome with
  | settles settlement closed positions _ =>
    exact ⟨h.conserved.settle closed.payout, h.reserved,
      ⟨h.sums.unconfirmedDebit, h.sums.unconfirmedCredit, h.sums.spent, h.sums.exitCredit⟩,
      h.unfilled, h.within, h.backed⟩
  | sells event config arrived walked basis positions harrival harrived hsell _ _ _ =>
    obtain ⟨order, attempt, hfront⟩ := horderly.front (hhead event rfl)
    rw [hfront.order_markArrived] at harrived
    subst harrived
    exact h.arriveExit hfront harrival hsell walked.execution basis rfl rfl (List.set_set _)
  | buys event arrived walked positions harrival harrived hbuy _ hwithin _ =>
    obtain ⟨order, attempt, hfront⟩ := horderly.front (hhead event rfl)
    rw [hfront.order_markArrived] at harrived
    subst harrived
    refine h.arriveBuy hfront harrival hbuy walked.execution hwithin rfl ?_ (List.set_set _)
    exact congrArg (fun old : Lifecycle.Attempt => self.attempts.set order.attempt
      (old.fill order.leg walked.execution)) (attempt_eq hfront.attemptAt)
  | confirmsSale event hresponse hsell =>
    obtain ⟨order, attempt, hfront⟩ := horderly.front (hhead event rfl)
    rw [order_eq hfront.orderAt] at hsell ⊢
    exact h.confirmSale hfront hresponse hsell
  | confirmsBuy event hresponse hbuy hnext =>
    obtain ⟨order, attempt, hfront⟩ := horderly.front (hhead event rfl)
    rw [order_eq hfront.orderAt] at hbuy hnext
    have hconfirmed : ((self.pop.markResponded event).confirmBuy event order).attempts[
        order.attempt]? = some (attempt.confirm order.leg) := by
      rw [hfront.attempts_confirmBuy, getElem?_set_same hfront.attemptAt]
    refine (h.confirmBuy hfront hresponse hbuy).buy hconfirmed (fun hsequential => ?_) hnext
    refine (horderly.confirmBuy hfront hresponse hbuy).noneOpen hconfirmed ?_
    exact Nat.sub_eq_zero_of_le ((horderly.accounts _ _ hfront.attemptAt).alone hsequential)

/-! ### Decisions -/

theorem unfilled_firstOrders (attempt : Lifecycle.Attempt) (index : ℕ) :
    ∀ order ∈ firstOrders study attempt index, order.fill = {} := by
  intro order horder
  unfold firstOrders at horder
  split at horder
  · obtain rfl := List.mem_singleton.mp horder
    rfl
  · rcases List.mem_pair.mp horder with rfl | rfl <;> rfl

theorem reserve_firstOrders (attempt : Lifecycle.Attempt) (index : ℕ) :
    ∀ order ∈ firstOrders study attempt index, order.reserve = attempt.reserve order.leg := by
  intro order horder
  unfold firstOrders at horder
  split at horder
  · obtain rfl := List.mem_singleton.mp horder
    rfl
  · rcases List.mem_pair.mp horder with rfl | rfl <;> rfl

/-- **The first orders** back the reserves of a new attempt. -/
theorem backed_sentAttempt (howner : ∀ order ∈ self.orders, order.attempt < self.attempts.length)
    (attempt : Lifecycle.Attempt) :
    Backed study (self.orders ++ firstOrders study attempt self.attempts.length)
      self.attempts.length (sentAttempt study attempt) := by
  have hnone (leg : Fin 2) :
      tally (Order.isOpenOn self.attempts.length leg) self.orders = 0 :=
    tally_eq_zero fun order horder => Order.isOpenOn_other (howner order horder).ne leg
  have hfirst : tally (Order.isOpenOn self.attempts.length 0)
      (firstOrders study attempt self.attempts.length) = 1 := by
    unfold firstOrders
    split <;> simp [Order.isOpenOn, legOrder]
  have hsecond : tally (Order.isOpenOn self.attempts.length 1)
      (firstOrders study attempt self.attempts.length) =
        if study.lifecycle.sequential then 0 else 1 := by
    unfold firstOrders
    split <;> simp [Order.isOpenOn, legOrder]
  have htally (leg : Fin 2) : tally (Order.isOpenOn self.attempts.length leg)
      (self.orders ++ firstOrders study attempt self.attempts.length) =
        tally (Order.isOpenOn self.attempts.length leg)
          (firstOrders study attempt self.attempts.length) := by
    rw [tally_append, hnone, zero_add]
  refine ⟨Fin.forall_fin_two.mpr ⟨?_, ?_⟩, fun order horder hopen => ?_, fun _ => ?_,
    fun hparallel _ => ?_⟩
  · rw [htally, hfirst]
  · rw [htally, hsecond]
    split <;> decide
  · rcases List.mem_append.mp horder with hmem | hmem
    · exact absurd ((Order.isOpenOn_other (howner order hmem).ne _).symm.trans hopen)
        Nat.zero_ne_one
    · exact reserve_firstOrders attempt _ order hmem
  · rw [htally, hfirst]
    exact Nat.one_ne_zero
  · rw [htally, hsecond, hparallel]
    exact Nat.one_ne_zero

/-- **A new attempt** reserves for both legs. -/
theorem Balanced.entered (h : self.Balanced) (horderly : self.Orderly)
    (hfunded : (attempt.reserve 0 + attempt.reserve 1 : ℤ) ≤ self.ledger.available) :
    (self.entered attempt).Balanced := by
  obtain ⟨hattempts, -⟩ := attempts_entered attempt self
  obtain ⟨horders, -⟩ := orders_entered attempt self horderly.matched
  refine ⟨conserved_entered h.conserved hfunded, ?_, ?_, ?_, ?_, ?_⟩
  · have hreserved : (sentAttempt study attempt).reserved = attempt.reserve 0 + attempt.reserve 1 :=
      rfl
    rw [ledger_entered, hattempts, tally_append_singleton, hreserved]
    simp only [Ledger.reserve, h.reserved]
    push_cast
    ring
  · rw [ledger_entered, horders]
    exact h.sums.append (unfilled_firstOrders attempt _) rfl rfl rfl rfl
  · rw [horders]
    intro order horder hnot
    rcases List.mem_append.mp horder with hmem | hmem
    · exact h.unfilled order hmem hnot
    · exact unfilled_firstOrders attempt _ order hmem
  · rw [horders]
    intro order horder hbuy
    rcases List.mem_append.mp horder with hmem | hmem
    · exact h.within order hmem hbuy
    · rw [unfilled_firstOrders attempt _ order hmem]
      exact Nat.zero_le _
  · rw [horders, hattempts]
    intro index other hother
    rcases Nat.lt_or_ge index self.attempts.length with hlt | hge
    · rw [List.getElem?_append_left hlt] at hother
      exact (h.backed index other hother).append_others fun order horder =>
        owner_firstOrders attempt _ order horder ▸ hlt.ne'
    · rw [List.getElem?_append_right hge, List.getElem?_singleton] at hother
      split_ifs at hother with hzero
      obtain rfl := Option.some.inj hother
      obtain rfl : index = self.attempts.length := by omega
      exact backed_sentAttempt horderly.owner attempt

/-- **Every decision** keeps the balance. -/
theorem Balanced.decide {id : ConstraintId} (h : self.Balanced) (horderly : self.Orderly)
    (houtcome : self.DecideOutcome id time state next) : next.Balanced := by
  cases houtcome with
  | declined _ _ => exact h.congr rfl rfl rfl
  | enters legs quote counters _ _ hquote =>
    have hannounced : (({ self with evaluated := self.evaluated + 1, counters } :
        Simulation study).announce (attemptOf id legs quote time state) quote).Balanced :=
      h.congr rfl rfl rfl
    exact hannounced.entered (horderly.congr rfl rfl rfl rfl) (selectQuote_reserves hquote)

/-! ### Attempts without open buys -/

/-- **Nothing is kept for a second leg** that no order buys any more. -/
def Idle (current : Simulation study) : Prop :=
  ∀ attempt ∈ current.attempts, study.lifecycle.sequential = true → attempt.pendingBuys = 0 →
    attempt.reserve 1 = 0

theorem Idle.set (h : self.Idle) (hattempts : next.attempts = self.attempts.set owner attempt')
    (hnew : study.lifecycle.sequential = true → attempt'.pendingBuys = 0 →
      attempt'.reserve 1 = 0) : next.Idle := by
  intro other hother
  rw [hattempts] at hother
  rcases List.mem_or_eq_of_mem_set hother with hmem | rfl
  · exact h other hmem
  · exact hnew

/-- Considering the exit only marks the attempt. -/
theorem ExitOutcome.attempts (hattempt : self.attempts[index]? = some attempt)
    (h : self.ExitOutcome index time next) :
    ∃ marked : Lifecycle.Attempt, next.attempts = self.attempts.set index marked ∧
      marked.reserve = attempt.reserve := by
  have hattempts : (self.markExit index).attempts =
      self.attempts.set index { attempt with exitConsidered := true } :=
    congrArg (fun old : Lifecycle.Attempt =>
      self.attempts.set index { old with exitConsidered := true }) (attempt_eq hattempt)
  cases h with
  | held _ => exact ⟨attempt, (set_same hattempt).symm, rfl⟩
  | declined _ _ => exact ⟨_, hattempts, rfl⟩
  | sent _ _ _ _ _ => exact ⟨_, hattempts, rfl⟩

/-- After the response to a buy the second leg has another order, or no reserve. -/
theorem BuyOutcome.attempts (hattempt : self.attempts[index]? = some attempt)
    (h : self.BuyOutcome index time next) :
    ∃ final : Lifecycle.Attempt, next.attempts = self.attempts.set index final ∧
      (study.lifecycle.sequential = true → final.pendingBuys = 0 → final.reserve 1 = 0) := by
  cases h with
  | waits hparallel _ =>
    refine ⟨attempt, (set_same hattempt).symm, fun hsequential => ?_⟩
    exact absurd (hparallel.symm.trans hsequential) Bool.noConfusion
  | leaves hparallel _ hexit =>
    obtain ⟨marked, hmarked, -⟩ := hexit.attempts hattempt
    refine ⟨marked, hmarked, fun hsequential => ?_⟩
    exact absurd (hparallel.symm.trans hsequential) Bool.noConfusion
  | stops reason _ hexit =>
    have hattempts := attempts_stopAcquisition hattempt reason
    have hstopped : (self.stopAcquisition index reason).attempts[index]? = some attempt.stop := by
      rw [hattempts, getElem?_set_same hattempt]
    obtain ⟨marked, hmarked, hreserve⟩ := hexit.attempts hstopped
    refine ⟨marked, by rw [hmarked, hattempts, List.set_set], fun _ _ => ?_⟩
    rw [hreserve, Lifecycle.Attempt.reserve_stop]
  | completes quote needed _ _ =>
    refine ⟨attempt.complete needed, ?_, fun _ hpending => absurd hpending (Nat.succ_ne_zero _)⟩
    exact congrArg (fun old : Lifecycle.Attempt => self.attempts.set index (old.complete needed))
      (attempt_eq hattempt)

theorem Idle.handle {due : Due} (h : self.Idle) (horderly : self.Orderly)
    (hhead : ∀ event, due = .event event → self.events.head? = some event)
    (houtcome : self.EventOutcome state due next) : next.Idle := by
  cases houtcome with
  | settles settlement closed positions _ => exact h
  | sells event config arrived walked basis positions _ _ _ _ _ _ => exact h
  | buys event arrived walked positions _ harrived _ _ _ _ =>
    obtain ⟨order, attempt, hfront⟩ := horderly.front (hhead event rfl)
    rw [hfront.order_markArrived] at harrived
    subst harrived
    refine h.set (congrArg (fun old : Lifecycle.Attempt =>
      self.attempts.set order.attempt (old.fill order.leg walked.execution))
        (attempt_eq hfront.attemptAt)) ?_
    exact h attempt (List.mem_of_getElem? hfront.attemptAt)
  | confirmsSale event hresponse hsell => exact h
  | confirmsBuy event hresponse hbuy hnext =>
    obtain ⟨order, attempt, hfront⟩ := horderly.front (hhead event rfl)
    rw [order_eq hfront.orderAt] at hbuy hnext
    have hattempts := hfront.attempts_confirmBuy
    have hconfirmed : ((self.pop.markResponded event).confirmBuy event order).attempts[
        order.attempt]? = some (attempt.confirm order.leg) := by
      rw [hattempts, getElem?_set_same hfront.attemptAt]
    obtain ⟨final, hfinal, hnew⟩ := hnext.attempts hconfirmed
    exact h.set (by rw [hfinal, hattempts, List.set_set]) hnew

theorem Idle.decide {id : ConstraintId} (h : self.Idle)
    (houtcome : self.DecideOutcome id time state next) : next.Idle := by
  cases houtcome with
  | declined _ _ => exact h
  | enters legs quote counters _ _ _ =>
    intro attempt hattempt
    rw [(attempts_entered _ _).1] at hattempt
    rcases List.mem_append.mp hattempt with hmem | hmem
    · exact h attempt hmem
    · obtain rfl := List.mem_singleton.mp hmem
      intro hsequential hpending
      rw [sentAttempt, if_pos hsequential] at hpending
      exact absurd hpending Nat.one_ne_zero

/-- **When every order was responded to**, nothing is reserved and everything is confirmed. -/
theorem Balanced.settled (h : self.Balanced) (horderly : self.Orderly) (hidle : self.Idle)
    (hresponded : ∀ order ∈ self.orders, order.responded = true) :
    self.ledger.reservedTotal = 0 ∧ self.ledger.unconfirmedDebit = 0 ∧
      self.ledger.unconfirmedCredit = 0 := by
  refine ⟨?_, ?_, ?_⟩
  · rw [h.reserved, tally_eq_zero, Nat.cast_zero]
    intro attempt hmem
    obtain ⟨index, hattempt⟩ := List.mem_iff_getElem?.mp hmem
    have hbacked := h.backed index attempt hattempt
    have hnone (leg : Fin 2) : tally (Order.isOpenOn index leg) self.orders = 0 :=
      tally_eq_zero fun order horder => if_neg (by simp [hresponded order horder])
    have hpending : attempt.pendingBuys = 0 := by
      rw [(horderly.accounts index attempt hattempt).pending]
      exact tally_eq_zero fun order horder => if_neg (by simp [hresponded order horder])
    have hfirst : attempt.reserve 0 = 0 := by
      by_contra hne
      exact hbacked.first hne (hnone 0)
    have hsecond : attempt.reserve 1 = 0 := by
      by_contra hne
      cases hsequential : study.lifecycle.sequential with
      | true => exact hne (hidle attempt hmem hsequential hpending)
      | false => exact hbacked.parallel hsequential hne (hnone 1)
    rw [Lifecycle.Attempt.reserved, hfirst, hsecond]
  · rw [h.sums.unconfirmedDebit, tally_eq_zero, Nat.cast_zero]
    exact fun order horder => if_pos (hresponded order horder)
  · rw [h.sums.unconfirmedCredit, tally_eq_zero, Nat.cast_zero]
    exact fun order horder => if_pos (hresponded order horder)

end Simulation

end EventMarket.Session
