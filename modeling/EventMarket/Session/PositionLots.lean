import EventMarket.Foundations.LinkedChain
import EventMarket.Session.StudyPositions
import Mathlib.Algebra.BigOperators.Group.List.Basic
import Mathlib.Data.Finset.Card
import Mathlib.Data.Finset.Range
import Mathlib.Tactic.Ring

/-!
# The lots of the positions

The positions of `EventMarket.Session.StudyPositions` share one store of lots. The chains of
different positions are disjoint, a position holds the quantity of its lots, and the cost that was
paid is the cost that was released and the cost that is left in the lots. This file states the
invariant and follows it through a close, lot by lot.

## Main definitions

* `StudyPositions.chain`: the lots of a position, first to last.
* `StudyPositions.Chained`, `StudyPositions.Sound`: the invariant.
* `StudyPositions.Frame`: what an operation on one position leaves alone.

## Main results

* `StudyPositions.takeLot_spec`, `StudyPositions.closeLots_spec`: the closing loop.
* `StudyPositions.closePosition_spec`: a close only fails when the capital time is full.
-/

namespace EventMarket.Session

open Constraint Core Foundations Market

/-- Paid cash is only refused when the accumulator is full. -/
theorem CapitalTime.add_cases (total : CapitalTime) {cash nanoseconds : ℤ} (hcash : 0 ≤ cash)
    (hnanoseconds : 0 ≤ nanoseconds) :
    total.add cash nanoseconds = invalid "capital-time overflow" ∨
      ∃ next, total.add cash nanoseconds = .ok next := by
  unfold CapitalTime.add
  rw [if_neg (by omega)]
  dsimp only
  split
  · exact Or.inl rfl
  split
  · exact Or.inl rfl
  · exact Or.inr ⟨_, rfl⟩

namespace StudyPositions

/-! ### The store -/

section Store

variable {self : StudyPositions} {index other : ℕ}

theorem position_setPosition (h : index < self.positions.length) (position : Position) :
    (self.setPosition index position).position other =
      if other = index then position else self.position other := by
  unfold setPosition StudyPositions.position
  rw [List.getD_eq_getElem?_getD, List.getD_eq_getElem?_getD, List.getElem?_set]
  by_cases heq : index = other
  · subst heq
    simp [h]
  · rw [if_neg heq, if_neg (Ne.symm heq)]

theorem lot_setLot (h : index < self.lots.length) (lot : Lot) :
    (self.setLot index lot).lot other = if other = index then lot else self.lot other := by
  unfold setLot StudyPositions.lot
  rw [List.getD_eq_getElem?_getD, List.getD_eq_getElem?_getD, List.getElem?_set]
  by_cases heq : index = other
  · subst heq
    simp [h]
  · rw [if_neg heq, if_neg (Ne.symm heq)]

/-- A position that is not empty is stored. -/
theorem lt_of_head {lot : ℕ} (h : (self.position index).head = some lot) :
    index < self.positions.length := by
  by_contra hge
  rw [position, List.getD_eq_getElem?_getD, List.getElem?_eq_none (not_lt.mp hge)] at h
  cases h

end Store

/-! ### Chains -/

/-- The lot after a lot. -/
def link (self : StudyPositions) (lot : ℕ) : Option ℕ := (self.lot lot).next

/-- The lots of a position, from the first to the last. -/
def chain (self : StudyPositions) (index : ℕ) : List ℕ :=
  followLinks self.link self.lots.length (self.position index).head

/-- The quantity of some lots. -/
def held (self : StudyPositions) (lots : List ℕ) : ℕ :=
  (lots.map fun lot => (self.lot lot).quantity).sum

/-- The cost that is left in some lots. -/
def cost (self : StudyPositions) (lots : List ℕ) : ℕ :=
  (lots.map fun lot => (self.lot lot).debit).sum

/-- What a position paid for a lot. -/
def LotRow.acquiredBy (index : ℕ) : LotRow → ℕ
  | .acquired position _ _ debit => if position = index then debit else 0
  | .released .. => 0

/-- The cost that a position released. -/
def LotRow.releasedBy (index : ℕ) : LotRow → ℕ
  | .acquired .. => 0
  | .released position _ _ _ _ basis => if position = index then basis else 0

/-- A part of a lot releases its share of the cost, rounded down. -/
def LotRow.Exact : LotRow → Prop
  | .acquired .. => True
  | .released _ _ quantity debit taken basis =>
      taken ≤ quantity ∧ basis = debit * taken / quantity

def acquiredDebit (self : StudyPositions) (index : ℕ) : ℕ :=
  (self.rows.map (LotRow.acquiredBy index)).sum

def releasedBasis (self : StudyPositions) (index : ℕ) : ℕ :=
  (self.rows.map (LotRow.releasedBy index)).sum

/-- **The lots are chained.** Each position has its own chain of lots that are not empty, in the
order of their acquisition, and its cost is accounted for. -/
structure Chained (now : ℕ) (store : StudyPositions) (chains : ℕ → List ℕ) : Prop where
  linked : ∀ index, Linked store.link (store.position index).head (chains index)
  tail : ∀ index, (store.position index).tail = (chains index).getLast?
  ascending : ∀ index, (chains index).Pairwise (· < ·)
  bounded : ∀ index, ∀ lot ∈ chains index, lot < store.lots.length
  disjoint : ∀ index other, index ≠ other → (chains index).Disjoint (chains other)
  live : ∀ index, ∀ lot ∈ chains index,
    0 < (store.lot lot).quantity ∧ (store.lot lot).acquired ≤ now
  conserved : ∀ index,
    store.acquiredDebit index = store.releasedBasis index + store.cost (chains index)
  exact : ∀ row ∈ store.rows, row.Exact

/-- **The positions are sound**: the lots are chained, and a position holds the quantity of its
lots. -/
def Sound (now : ℕ) (self : StudyPositions) : Prop :=
  Chained now self self.chain ∧ ∀ index,
    (self.position index).quantity = self.held (self.chain index)

section Chained

variable {now : ℕ} {self next : StudyPositions} {chains : ℕ → List ℕ} {index : ℕ}

theorem held_congr {lots : List ℕ} (h : ∀ lot ∈ lots, next.lot lot = self.lot lot) :
    next.held lots = self.held lots :=
  congrArg List.sum (List.map_congr_left fun lot hlot => by rw [h lot hlot])

theorem cost_congr {lots : List ℕ} (h : ∀ lot ∈ lots, next.lot lot = self.lot lot) :
    next.cost lots = self.cost lots :=
  congrArg List.sum (List.map_congr_left fun lot hlot => by rw [h lot hlot])

theorem Chained.length_le (h : Chained now self chains) (index : ℕ) :
    (chains index).length ≤ self.lots.length := by
  have hnodup : (chains index).Nodup := (h.ascending index).imp fun hlt => ne_of_lt hlt
  have hsub : (chains index).toFinset ⊆ Finset.range self.lots.length := fun lot hlot =>
    Finset.mem_range.mpr (h.bounded index lot (List.mem_toFinset.mp hlot))
  have hcard := Finset.card_le_card hsub
  rwa [List.toFinset_card_of_nodup hnodup, Finset.card_range] at hcard

/-- The chains are what following the links finds. -/
theorem Chained.chain_eq (h : Chained now self chains) : self.chain = chains := by
  funext index
  exact (h.linked index).followLinks_eq (h.length_le index)

theorem Chained.sound (h : Chained now self chains)
    (hheld : ∀ index, (self.position index).quantity = self.held (chains index)) :
    Sound now self := by
  obtain rfl := h.chain_eq
  exact ⟨h, hheld⟩

end Chained

/-! ### Closing -/

/-- The share of the cost is rounded down once. -/
theorem Lot.basis_eq {lot : Lot} {take : ℕ} (hpos : 0 < lot.quantity)
    (htake : take ≤ lot.quantity) :
    lot.basis take = lot.debit * take / lot.quantity ∧ lot.basis take ≤ lot.debit := by
  have heq : lot.basis take = lot.debit * take / lot.quantity := by
    unfold Lot.basis
    split
    · next hwhole => rw [hwhole, Nat.mul_div_cancel _ hpos]
    · have hsplit : lot.debit * take = lot.debit % lot.quantity * take +
          lot.quantity * (lot.debit / lot.quantity * take) := by
        conv_lhs => rw [← Nat.mod_add_div lot.debit lot.quantity]
        ring
      rw [hsplit, Nat.add_mul_div_left _ _ hpos, Nat.add_comm]
  refine ⟨heq, heq.le.trans (Nat.div_le_of_le_mul ?_)⟩
  rw [Nat.mul_comm]
  exact Nat.mul_le_mul_right _ htake

/-- **What an operation on one position leaves alone**: the other positions, and the lots outside
its chain. -/
structure Frame (index : ℕ) (chain : List ℕ) (before after : StudyPositions) : Prop where
  position : ∀ other, other ≠ index → after.position other = before.position other
  leg : (after.position index).leg = (before.position index).leg
  quantity : (after.position index).quantity = (before.position index).quantity
  lot : ∀ lot, lot ∉ chain → after.lot lot = before.lot lot
  lots_length : after.lots.length = before.lots.length
  positions_length : after.positions.length = before.positions.length
  acquired : ∀ other, after.acquiredDebit other = before.acquiredDebit other
  released : ∀ other, other ≠ index → after.releasedBasis other = before.releasedBasis other

section Closing

variable {now time : ℕ} {self next last : StudyPositions} {chains : ℕ → List ℕ} {index : ℕ}
  {chain part : List ℕ}

theorem Frame.refl (self : StudyPositions) : Frame index chain self self := by
  constructor <;> intros <;> rfl

theorem Frame.trans (h : Frame index chain self next) (h' : Frame index part next last)
    (hsub : part ⊆ chain) : Frame index chain self last where
  position := fun other hne => (h'.position other hne).trans (h.position other hne)
  leg := h'.leg.trans h.leg
  quantity := h'.quantity.trans h.quantity
  lot := fun lot hlot => (h'.lot lot fun hmem => hlot (hsub hmem)).trans (h.lot lot hlot)
  lots_length := h'.lots_length.trans h.lots_length
  positions_length := h'.positions_length.trans h.positions_length
  acquired := fun other => (h'.acquired other).trans (h.acquired other)
  released := fun other hne => (h'.released other hne).trans (h.released other hne)

/-- The chain of one position changes to a part of it. -/
theorem Chained.update (h : Chained now self chains) (hframe : Frame index (chains index) self next)
    (hsub : part.Sublist (chains index)) (hlink : ∀ lot, next.link lot = self.link lot)
    (hlinked : Linked self.link (next.position index).head part)
    (htail : (next.position index).tail = part.getLast?)
    (hlive : ∀ lot ∈ part, 0 < (next.lot lot).quantity ∧ (next.lot lot).acquired ≤ now)
    (hconserved : next.acquiredDebit index = next.releasedBasis index + next.cost part)
    (hexact : ∀ row ∈ next.rows, row.Exact) :
    Chained now next (Function.update chains index part) := by
  have hpart (other : ℕ) : (Function.update chains index part other).Sublist (chains other) := by
    rcases eq_or_ne other index with rfl | hne
    · rwa [Function.update_self]
    · rw [Function.update_of_ne hne]
  have hlots {other : ℕ} (hne : other ≠ index) : ∀ lot ∈ chains other,
      next.lot lot = self.lot lot := fun lot hlot =>
    hframe.lot lot fun hmem => h.disjoint other index hne hlot hmem
  constructor
  · intro other
    rcases eq_or_ne other index with rfl | hne
    · rw [Function.update_self]
      exact hlinked.congr fun lot _ => hlink lot
    · rw [Function.update_of_ne hne, hframe.position other hne]
      exact (h.linked other).congr fun lot _ => hlink lot
  · intro other
    rcases eq_or_ne other index with rfl | hne
    · rwa [Function.update_self]
    · rw [Function.update_of_ne hne, hframe.position other hne]
      exact h.tail other
  · exact fun other => (h.ascending other).sublist (hpart other)
  · exact fun other lot hlot =>
      (h.bounded other lot ((hpart other).subset hlot)).trans_eq hframe.lots_length.symm
  · exact fun first second hne lot hfirst hsecond => h.disjoint first second hne
      ((hpart first).subset hfirst) ((hpart second).subset hsecond)
  · intro other lot hlot
    rcases eq_or_ne other index with rfl | hne
    · rw [Function.update_self] at hlot
      exact hlive lot hlot
    · rw [Function.update_of_ne hne] at hlot
      rw [hlots hne lot hlot]
      exact h.live other lot hlot
  · intro other
    rcases eq_or_ne other index with rfl | hne
    · rwa [Function.update_self]
    · rw [Function.update_of_ne hne, hframe.acquired other, hframe.released other hne,
        cost_congr (hlots hne)]
      exact h.conserved other
  · exact hexact

/-- What is left of a lot. -/
def Lot.without (lot : Lot) (take : ℕ) : Lot :=
  { lot with quantity := lot.quantity - take, debit := lot.debit - lot.basis take }

/-- The positions after a part of the first lot was taken, with the lot still in its chain. -/
def afterTake (self : StudyPositions) (index head take : ℕ) (capitalTime : CapitalTime) :
    StudyPositions :=
  { self.setLot head ((self.lot head).without take) with
    capitalTime
    rows := self.rows ++ [.released index head (self.lot head).quantity (self.lot head).debit take
      ((self.lot head).basis take)] }

/-- The positions after the first lot has left the chain. -/
def unlinkHead (self : StudyPositions) (index head : ℕ) : StudyPositions :=
  self.setPosition index { self.position index with
    head := self.link head
    tail := if self.link head = none then none else (self.position index).tail }

section Take

variable {head take : ℕ} {rest : List ℕ} {capitalTime : CapitalTime}

theorem lot_afterTake (h : head < self.lots.length) (other : ℕ) :
    (self.afterTake index head take capitalTime).lot other =
      if other = head then (self.lot head).without take else self.lot other :=
  lot_setLot h _

theorem link_afterTake (h : head < self.lots.length) (other : ℕ) :
    (self.afterTake index head take capitalTime).link other = self.link other := by
  unfold link
  rw [lot_afterTake h]
  split
  · next heq => rw [heq]; rfl
  · rfl

theorem releasedBasis_afterTake (self : StudyPositions) (index head take : ℕ)
    (capitalTime : CapitalTime) (other : ℕ) :
    (self.afterTake index head take capitalTime).releasedBasis other =
      self.releasedBasis other + if index = other then (self.lot head).basis take else 0 := by
  simp [releasedBasis, afterTake, LotRow.releasedBy]

/-- Taking from a lot of a chain leaves the other lots and all positions alone. -/
theorem frame_afterTake (h : head < self.lots.length) (hhead : head ∈ chain) :
    Frame index chain self (self.afterTake index head take capitalTime) where
  position := fun _ _ => rfl
  leg := rfl
  quantity := rfl
  lot := fun other hother => by
    rw [lot_afterTake h, if_neg]
    rintro rfl
    exact hother hhead
  lots_length := List.length_set ..
  positions_length := rfl
  acquired := fun other => by simp [acquiredDebit, afterTake, LotRow.acquiredBy, setLot]
  released := fun other hne => by
    rw [releasedBasis_afterTake, if_neg hne.symm, Nat.add_zero]

/-- The first lot of a chain. -/
structure FirstLot (now : ℕ) (store : StudyPositions) (chains : ℕ → List ℕ) (index head : ℕ)
    (rest : List ℕ) : Prop where
  chained : Chained now store chains
  chain : chains index = head :: rest

namespace FirstLot

theorem head_mem (h : FirstLot now self chains index head rest) : head ∈ chains index :=
  h.chain ▸ List.mem_cons_self

theorem lt_length (h : FirstLot now self chains index head rest) : head < self.lots.length :=
  h.chained.bounded index head h.head_mem

theorem linked (h : FirstLot now self chains index head rest) :
    (self.position index).head = some head ∧ Linked self.link (self.link head) rest := by
  have hlinked := h.chained.linked index
  rwa [h.chain] at hlinked

theorem notMem_rest (h : FirstLot now self chains index head rest) : head ∉ rest := by
  have hnodup : (head :: rest).Nodup :=
    h.chain ▸ (h.chained.ascending index).imp fun hlt => ne_of_lt hlt
  exact (List.nodup_cons.mp hnodup).1

/-- The lots after the first one do not change. -/
theorem lot_rest (h : FirstLot now self chains index head rest) (take : ℕ)
    (capitalTime : CapitalTime) :
    ∀ lot ∈ rest, (self.afterTake index head take capitalTime).lot lot = self.lot lot := by
  intro lot hlot
  rw [lot_afterTake h.lt_length, if_neg]
  rintro rfl
  exact h.notMem_rest hlot

theorem basis_eq (h : FirstLot now self chains index head rest)
    (htake : take ≤ (self.lot head).quantity) :
    (self.lot head).basis take = (self.lot head).debit * take / (self.lot head).quantity ∧
      (self.lot head).basis take ≤ (self.lot head).debit :=
  Lot.basis_eq (h.chained.live index head h.head_mem).1 htake

theorem exact (h : FirstLot now self chains index head rest)
    (htake : take ≤ (self.lot head).quantity) (capitalTime : CapitalTime) :
    ∀ row ∈ (self.afterTake index head take capitalTime).rows, row.Exact := by
  intro row hrow
  rcases List.mem_append.mp hrow with hrow | hrow
  · exact h.chained.exact row hrow
  · obtain rfl := List.mem_singleton.mp hrow
    exact ⟨htake, (h.basis_eq htake).1⟩

/-- What the whole chain holds, by its first lot and the rest. -/
theorem held_eq (h : FirstLot now self chains index head rest) (take : ℕ)
    (capitalTime : CapitalTime) :
    (self.afterTake index head take capitalTime).held (chains index) =
      (self.lot head).quantity - take + self.held rest ∧
    (self.afterTake index head take capitalTime).cost (chains index) =
      (self.lot head).debit - (self.lot head).basis take + self.cost rest := by
  rw [← held_congr (h.lot_rest take capitalTime), ← cost_congr (h.lot_rest take capitalTime),
    h.chain]
  simp only [held, cost, List.map_cons, List.sum_cons, lot_afterTake h.lt_length, if_pos]
  exact ⟨rfl, rfl⟩

theorem held_cons (h : FirstLot now self chains index head rest) :
    self.held (chains index) = (self.lot head).quantity + self.held rest ∧
      self.cost (chains index) = (self.lot head).debit + self.cost rest := by
  rw [h.chain]
  exact ⟨List.sum_cons, List.sum_cons⟩

/-- **A part of the first lot** is taken; the lot stays in the chain. -/
theorem take_part (h : FirstLot now self chains index head rest)
    (htake : take < (self.lot head).quantity) (capitalTime : CapitalTime) :
    Chained now (self.afterTake index head take capitalTime) chains := by
  have hframe : Frame index (chains index) self (self.afterTake index head take capitalTime) :=
    frame_afterTake h.lt_length h.head_mem
  have hreleased := self.releasedBasis_afterTake index head take capitalTime index
  rw [if_pos rfl] at hreleased
  have hupdate := h.chained.update hframe (List.Sublist.refl _) (link_afterTake h.lt_length)
    (h.chained.linked index) (h.chained.tail index) ?_ ?_ (h.exact htake.le capitalTime)
  · rwa [Function.update_eq_self] at hupdate
  · intro other hother
    rw [lot_afterTake h.lt_length]
    split
    · exact ⟨Nat.sub_pos_of_lt htake, (h.chained.live index head h.head_mem).2⟩
    · exact h.chained.live index other hother
  · have hconserved := h.chained.conserved index
    have hbasis := (h.basis_eq htake.le).2
    rw [hframe.acquired, hreleased, (h.held_eq take capitalTime).2, hconserved, h.held_cons.2]
    omega

/-- **The whole first lot** is taken and leaves the chain. -/
theorem take_whole (h : FirstLot now self chains index head rest)
    (htake : take = (self.lot head).quantity) (capitalTime : CapitalTime) :
    Frame index (chains index) self
        ((self.afterTake index head take capitalTime).unlinkHead index head) ∧
      Chained now ((self.afterTake index head take capitalTime).unlinkHead index head)
        (Function.update chains index rest) := by
  have hframe : Frame index (chains index) self (self.afterTake index head take capitalTime) :=
    frame_afterTake h.lt_length h.head_mem
  have hreleased := self.releasedBasis_afterTake index head take capitalTime index
  have hlink := @link_afterTake self index head take capitalTime h.lt_length
  have hsame := h.lot_rest take capitalTime
  have hexact := h.exact htake.le capitalTime
  rw [if_pos rfl] at hreleased
  set taken := self.afterTake index head take capitalTime
  have hposition (other : ℕ) : (taken.unlinkHead index head).position other =
      if other = index then { taken.position index with
        head := taken.link head
        tail := if taken.link head = none then none else (taken.position index).tail }
      else taken.position other :=
    position_setPosition (lt_of_head h.linked.1) _
  have hunlinked : Frame index [] taken (taken.unlinkHead index head) :=
    { position := fun other hne => by rw [hposition, if_neg hne]
      leg := by rw [hposition, if_pos rfl]
      quantity := by rw [hposition, if_pos rfl]
      lot := fun _ _ => rfl
      lots_length := rfl
      positions_length := List.length_set ..
      acquired := fun _ => rfl
      released := fun _ _ => rfl }
  have hall := hframe.trans hunlinked (List.nil_subset _)
  refine ⟨hall, h.chained.update hall (h.chain ▸ List.sublist_cons_self _ _) hlink ?_ ?_ ?_ ?_
    hexact⟩
  · rw [hposition, if_pos rfl, hlink]
    exact h.linked.2
  · rw [hposition, if_pos rfl, hlink]
    have htail := h.chained.tail index
    have hlinked := h.linked.2
    rw [h.chain] at htail
    cases rest with
    | nil => exact if_pos hlinked
    | cons second rest =>
      have hnext : self.link head ≠ none := by
        rw [hlinked.1]
        exact Option.some_ne_none _
      exact (if_neg hnext).trans (htail.trans List.getLast?_cons_cons)
  · intro other hother
    change 0 < (taken.lot other).quantity ∧ (taken.lot other).acquired ≤ now
    rw [hsame other hother]
    exact h.chained.live index other (h.chain ▸ List.mem_cons_of_mem _ hother)
  · change taken.acquiredDebit index = taken.releasedBasis index + taken.cost rest
    have hbasis : (self.lot head).basis take = (self.lot head).debit := if_pos htake
    rw [hframe.acquired, hreleased, cost_congr hsame, h.chained.conserved index, h.held_cons.2,
      hbasis]
    omega

end FirstLot

/-- **Taking from the first lot** only fails when the capital time is full. The chain loses the lot
when nothing is left of it, and the released cost is what the lot lost. -/
theorem takeLot_spec (h : FirstLot now self chains index head rest)
    (htake : take ≤ (self.lot head).quantity) (htime : now ≤ time) :
    (∃ left, self.takeLot index head take time =
      .error (.study (.replay "capital-time overflow" 0), left)) ∨
    ∃ basis taken, self.takeLot index head take time = .ok (basis, taken) ∧
      Frame index (chains index) self taken ∧
      taken.releasedBasis index = self.releasedBasis index + basis ∧
      ∃ part, (part = rest ∨ part = chains index ∧ take ≠ (self.lot head).quantity) ∧
        Chained now taken (Function.update chains index part) ∧
        taken.held part + take = self.held (chains index) := by
  have hacquired := (h.chained.live index head h.head_mem).2
  unfold takeLot
  dsimp only
  rcases self.capitalTime.add_cases (Int.natCast_nonneg ((self.lot head).basis take))
    (show (0 : ℤ) ≤ (time : ℤ) - (self.lot head).acquired by omega) with hfull | ⟨capitalTime, hadd⟩
  · rw [hfull]
    exact Or.inl ⟨self, rfl⟩
  rw [hadd]
  dsimp only
  have hreleased := self.releasedBasis_afterTake index head take capitalTime index
  rw [if_pos rfl] at hreleased
  right
  by_cases hwhole : take = (self.lot head).quantity
  · have hbasis : (self.lot head).basis take = (self.lot head).debit := if_pos hwhole
    rw [if_neg (by omega), if_neg (by omega)]
    obtain ⟨hframe, hchained⟩ := h.take_whole hwhole capitalTime
    refine ⟨_, (self.afterTake index head take capitalTime).unlinkHead index head, ?_, hframe,
      hreleased, rest, Or.inl rfl, hchained, ?_⟩
    · rw [unlinkHead, link_afterTake h.lt_length]
      rfl
    · change (self.afterTake index head take capitalTime).held rest + take = _
      rw [held_congr (h.lot_rest take capitalTime), h.held_cons.1, hwhole, Nat.add_comm]
  · rw [if_pos (by omega)]
    refine ⟨_, self.afterTake index head take capitalTime, rfl,
      frame_afterTake h.lt_length h.head_mem, hreleased, chains index, Or.inr ⟨rfl, hwhole⟩, ?_, ?_⟩
    · rw [Function.update_eq_self]
      exact h.take_part (by omega) capitalTime
    · rw [(h.held_eq take capitalTime).1, h.held_cons.1]
      omega

end Take

/-- **The closing loop** takes the lots in their order. With as much held as remains to be taken
it only fails when the capital time is full. -/
theorem closeLots_spec (htime : now ≤ time) (fuel : ℕ) :
    ∀ {self : StudyPositions} {chains : ℕ → List ℕ} {remaining : ℕ} (released : ℕ),
      Chained now self chains → remaining ≤ self.held (chains index) →
      (chains index).length < fuel →
      (∃ left, closeLots fuel self index remaining released time =
        .error (.study (.replay "capital-time overflow" 0), left)) ∨
      ∃ basis closed part, closeLots fuel self index remaining released time =
          .ok (released + basis, closed) ∧
        Frame index (chains index) self closed ∧
        closed.releasedBasis index = self.releasedBasis index + basis ∧
        Chained now closed (Function.update chains index part) ∧
        closed.held part + remaining = self.held (chains index) := by
  induction fuel with
  | zero => exact fun _ _ _ hfuel => absurd hfuel (Nat.not_lt_zero _)
  | succ fuel ih =>
    intro self chains remaining released h hremaining hfuel
    rw [closeLots]
    by_cases hdone : remaining = 0
    · refine Or.inr ⟨0, self, chains index, ?_, .refl self, rfl, ?_, ?_⟩
      · rw [if_pos hdone, Nat.add_zero]
      · rwa [Function.update_eq_self]
      · omega
    rw [if_neg hdone]
    cases hchain : chains index with
    | nil =>
      rw [hchain] at hremaining
      exact absurd (Nat.le_zero.mp hremaining) hdone
    | cons head rest =>
      have hhead : (self.position index).head = some head := by
        have := (h.linked index).head_eq
        rwa [hchain] at this
      rw [← hchain, hhead]
      dsimp only
      rcases takeLot_spec ⟨h, hchain⟩ (min_le_right remaining _) htime with
        ⟨left, hfull⟩ | ⟨basis, taken, htake, hframe, hbasis, part, hpart, hchained, hheld⟩
      · exact Or.inl ⟨left, by rw [hfull]; rfl⟩
      rw [htake]
      have hself : Function.update chains index part index = part := Function.update_self ..
      have hsub : part ⊆ chains index := by
        rcases hpart with rfl | ⟨rfl, -⟩
        · exact hchain ▸ List.subset_cons_self _ _
        · exact List.Subset.refl _
      -- Either the lot is used up, or nothing remains to be taken.
      have hrest : (∃ left, closeLots fuel taken index (remaining - min remaining
            (self.lot head).quantity) (released + basis) time =
              .error (.study (.replay "capital-time overflow" 0), left)) ∨
          ∃ basis' closed part', closeLots fuel taken index (remaining - min remaining
              (self.lot head).quantity) (released + basis) time =
                .ok (released + basis + basis', closed) ∧
            Frame index part taken closed ∧
            closed.releasedBasis index = taken.releasedBasis index + basis' ∧
            Chained now closed (Function.update chains index part') ∧
            closed.held part' + (remaining - min remaining (self.lot head).quantity) =
              taken.held part := by
        rcases hpart with rfl | ⟨rfl, hpartial⟩
        · have hleft : remaining - min remaining (self.lot head).quantity ≤
              taken.held (Function.update chains index part index) := by
            rw [hself]
            omega
          have hnext := ih (released + basis) hchained hleft
            (by rw [hself]; rw [hchain] at hfuel; simpa using hfuel)
          simp only [hself, Function.update_idem] at hnext
          exact hnext
        · have hnone : remaining - min remaining (self.lot head).quantity = 0 := by omega
          rw [hnone]
          refine Or.inr ⟨0, taken, chains index, ?_, .refl taken, rfl, hchained, rfl⟩
          cases fuel with
          | zero => simp [hchain] at hfuel
          | succ fuel => rw [closeLots, if_pos rfl, Nat.add_zero]
      rcases hrest with ⟨left, hfull⟩ | ⟨basis', closed, part', hclosed, hframe', hbasis',
        hlast, hend⟩
      · exact Or.inl ⟨left, hfull⟩
      · refine Or.inr ⟨basis + basis', closed, part', ?_, hframe.trans hframe' hsub, ?_, hlast, ?_⟩
        · rw [← Nat.add_assoc]
          exact hclosed
        · rw [hbasis', hbasis, Nat.add_assoc]
        · omega

/-- What a close of a position leaves alone, and what it takes. -/
structure Closed (index quantity released : ℕ) (before after : StudyPositions) : Prop where
  position : ∀ other, other ≠ index → after.position other = before.position other
  chain : ∀ other, other ≠ index → after.chain other = before.chain other
  lot : ∀ lot, lot ∉ before.chain index → after.lot lot = before.lot lot
  leg : (after.position index).leg = (before.position index).leg
  quantity : (after.position index).quantity + quantity = (before.position index).quantity
  positions_length : after.positions.length = before.positions.length
  acquired : ∀ other, after.acquiredDebit other = before.acquiredDebit other
  basis : after.releasedBasis index = before.releasedBasis index + released
  released : ∀ other, other ≠ index → after.releasedBasis other = before.releasedBasis other

theorem Chained.mono {later : ℕ} (h : Chained now self chains) (hle : now ≤ later) :
    Chained later self chains :=
  { h with live := fun index lot hlot => (h.live index lot hlot).imp_right (·.trans hle) }

/-- **Closing a position.** A close of no more than is held only fails when the capital time is
full. -/
theorem closePosition_spec (h : Sound now self) {quantity : ℕ}
    (hindex : index < self.positions.length)
    (hquantity : quantity ≤ (self.position index).quantity) (htime : now ≤ time) :
    (∃ left, self.closePosition index quantity time =
      .error (.study (.replay "capital-time overflow" 0), left)) ∨
    ∃ released closed, self.closePosition index quantity time = .ok (released, closed) ∧
      Sound time closed ∧ Closed index quantity released self closed := by
  obtain ⟨hchained, hheld⟩ := h
  unfold closePosition
  rw [if_neg (by omega), Int.toNat_natCast]
  rcases closeLots_spec htime (self.lots.length + 1) 0 hchained (hquantity.trans_eq (hheld index))
      (Nat.lt_succ_of_le (hchained.length_le index)) with
    ⟨left, hfull⟩ | ⟨basis, closed, part, hclosed, hframe, hbasis, hlast, hend⟩
  · exact Or.inl ⟨left, by rw [hfull]; rfl⟩
  rw [hclosed, Nat.zero_add]
  have hindex' : index < closed.positions.length := hindex.trans_eq hframe.positions_length.symm
  set updated : Position := { closed.position index with
    quantity := (closed.position index).quantity - quantity }
  have hposition (other : ℕ) : (closed.setPosition index updated).position other =
      if other = index then updated else closed.position other :=
    position_setPosition hindex' updated
  have hsame (other : ℕ) : ((closed.setPosition index updated).position other).head =
        (closed.position other).head ∧
      ((closed.setPosition index updated).position other).tail = (closed.position other).tail := by
    rw [hposition]
    split
    · next heq => rw [heq]; exact ⟨rfl, rfl⟩
    · exact ⟨rfl, rfl⟩
  have hfinal : Chained time (closed.setPosition index updated)
      (Function.update self.chain index part) :=
    { hlast.mono htime with
      linked := fun other => by rw [(hsame other).1]; exact hlast.linked other
      tail := fun other => by rw [(hsame other).2]; exact hlast.tail other }
  have hquantityIndex : ((closed.setPosition index updated).position index).quantity + quantity =
      (self.position index).quantity := by
    rw [hposition, if_pos rfl]
    change (closed.position index).quantity - quantity + quantity = _
    rw [hframe.quantity, Nat.sub_add_cancel hquantity]
  refine Or.inr ⟨basis, _, rfl, hfinal.sound fun other => ?_, ?_⟩
  · rcases eq_or_ne other index with rfl | hne
    · rw [Function.update_self]
      have := hheld other
      change _ = closed.held part
      omega
    · rw [Function.update_of_ne hne, hposition, if_neg hne, hframe.position other hne, hheld other]
      exact (held_congr fun lot hlot => hframe.lot lot fun hmem =>
        hchained.disjoint other index hne hlot hmem).symm
  · exact
      { position := fun other hne => by rw [hposition, if_neg hne, hframe.position other hne]
        chain := fun other hne => by rw [hfinal.chain_eq, Function.update_of_ne hne]
        lot := hframe.lot
        leg := by rw [hposition, if_pos rfl]; exact hframe.leg
        quantity := hquantityIndex
        positions_length := (List.length_set ..).trans hframe.positions_length
        acquired := hframe.acquired
        basis := hbasis
        released := hframe.released }

/-- **Closing more than is held** is refused, and nothing changes. -/
theorem closePosition_eq_reject {quantity : ℤ}
    (hquantity : quantity < 0 ∨ ((self.position index).quantity : ℤ) < quantity) :
    self.closePosition index quantity time = self.reject "cannot close unowned position" := by
  unfold closePosition
  rw [if_pos hquantity]

end Closing

end StudyPositions

end EventMarket.Session
