import EventMarket.Session.StudyWalk

/-!
# Positions of the execution study

Each leg of an attempt has a position, the lots that its orders acquired. All lots stand in one
store; a position names its first and its last lot, a lot the one after it. A close takes lots
from the front, and of a lot that it splits it releases the cost in proportion.

An error of the source leaves the positions as they were when it was thrown, so an error carries
them. The rows are not stored by the source; they tell what happened to each lot.

## Main definitions

* `CapitalTime.add`: the paid cash over time.
* `StudyPositions`: the positions, their lots and the capital time.
* `StudyPositions.acquire`, `StudyPositions.close`, `StudyPositions.settle`: the operations.
-/

namespace EventMarket.Session

open Constraint Core Market

/-- The largest cash amount. -/
def cashLimit : ℕ := 1000000000000000

/-! ### Capital over time -/

/-- Cash times nanoseconds, in units of one microdollar second and the rest. -/
structure CapitalTime where
  microUsdSeconds : ℕ := 0
  fractionalMicroUsdNanoseconds : ℕ := 0
  deriving DecidableEq, Repr

/-- Nanoseconds in a second. -/
def CapitalTime.scale : ℕ := 1000000000

def CapitalTime.add (total : CapitalTime) (cash nanoseconds : ℤ) :
    Except StudyException CapitalTime :=
  if cash < 0 ∨ nanoseconds < 0 then invalid "negative capital-time input"
  else
    let amount := cash.toNat
    let seconds := nanoseconds.toNat / scale
    let ns := nanoseconds.toNat % scale
    if seconds ≠ 0 ∧ uint64Max / seconds < amount then invalid "capital-time overflow"
    else
      let whole := amount * seconds
      let fractional := amount % scale * ns + total.fractionalMicroUsdNanoseconds
      let extra := amount / scale * ns + fractional / scale
      if uint64Max - extra < whole ∨ uint64Max - whole - extra < total.microUsdSeconds then
        invalid "capital-time overflow"
      else .ok ⟨total.microUsdSeconds + (whole + extra), fractional % scale⟩

/-! ### The positions -/

namespace StudyPositions

structure Lot where
  quantity : ℕ := 0
  debit : ℕ := 0
  acquired : ℕ := 0
  next : Option ℕ := none
  deriving DecidableEq, Repr

structure Position where
  leg : PayoffLegTemplate := ⟨0, .yes⟩
  quantity : ℕ := 0
  head : Option ℕ := none
  tail : Option ℕ := none
  deriving DecidableEq, Repr

/-- What happened to a lot of a position: it was acquired, or part of it was taken at a cost. -/
inductive LotRow where
  | acquired (position lot quantity debit : ℕ)
  | released (position lot quantity debit taken basis : ℕ)
  deriving DecidableEq, Repr

/-- What an operation may throw; the position of an unknown attempt is not found. -/
inductive PositionError where
  | study (error : StudyException)
  | outOfRange
  deriving DecidableEq, Repr

end StudyPositions

structure StudyPositions where
  positions : List StudyPositions.Position := []
  lots : List StudyPositions.Lot := []
  capitalTime : CapitalTime := {}
  rows : List StudyPositions.LotRow := []
  deriving DecidableEq, Repr

namespace StudyPositions

/-- An error with the positions that it left. -/
abbrev Failure : Type := PositionError × StudyPositions

/-- The error that names a field. -/
def reject {α : Type} (self : StudyPositions) (field : String) : Except Failure α :=
  .error (.study (.replay field 0), self)

/-- The positions of some attempts, without lots. -/
def reserve (attempts : ℕ) : StudyPositions where
  positions := List.replicate (attempts * 2) {}

def position (self : StudyPositions) (index : ℕ) : Position := self.positions.getD index {}

def lot (self : StudyPositions) (index : ℕ) : Lot := self.lots.getD index {}

def setPosition (self : StudyPositions) (index : ℕ) (position : Position) : StudyPositions :=
  { self with positions := self.positions.set index position }

def setLot (self : StudyPositions) (index : ℕ) (lot : Lot) : StudyPositions :=
  { self with lots := self.lots.set index lot }

/-- The index of the position of a leg. -/
def find (self : StudyPositions) (attempt leg : ℕ) : Except Failure ℕ :=
  if attempt * 2 + leg < self.positions.length then .ok (attempt * 2 + leg)
  else .error (.outOfRange, self)

/-- Link the last lot of a position to another one. -/
def linkTail (self : StudyPositions) (tail : Option ℕ) (next : ℕ) : StudyPositions :=
  match tail with
  | none => self
  | some tail => self.setLot tail { self.lot tail with next := some next }

/-- Append a lot at the end of the position of a leg. -/
def acquire (self : StudyPositions) (attempt legIndex : ℕ) (leg : PayoffLegTemplate)
    (quantity debit : ℤ) (time : ℕ) : Except Failure StudyPositions := do
  let index ← self.find attempt legIndex
  let position := self.position index
  if quantity ≤ 0 ∨ (quantityLimit : ℤ) - position.quantity < quantity ∨ debit < 0 ∨
      (cashLimit : ℤ) < debit then
    self.reject "position acquisition bound"
  else
    let lot := self.lots.length
    let linked := self.linkTail position.tail lot
    let updated : Position :=
      { leg, quantity := position.quantity + quantity.toNat
        head := position.head <|> some lot
        tail := some lot }
    .ok { linked.setPosition index updated with
      lots := linked.lots ++ [⟨quantity.toNat, debit.toNat, time, none⟩]
      rows := linked.rows ++ [.acquired index lot quantity.toNat debit.toNat] }

def quantity (self : StudyPositions) (attempt leg : ℕ) :
    Except Failure ℕ := do
  let index ← self.find attempt leg
  .ok (self.position index).quantity

/-! ### Closing -/

/-- The cost of a part of a lot; the whole lot releases all that is left of its cost. -/
def Lot.basis (lot : Lot) (take : ℕ) : ℕ :=
  if take = lot.quantity then lot.debit
  else lot.debit / lot.quantity * take + lot.debit % lot.quantity * take / lot.quantity

/-- Take a part of the first lot of a position; an empty lot leaves the chain. -/
def takeLot (self : StudyPositions) (index head take time : ℕ) :
    Except Failure (ℕ × StudyPositions) :=
  let lot := self.lot head
  let basis := lot.basis take
  match self.capitalTime.add basis ((time : ℤ) - lot.acquired) with
  | .error error => .error (.study error, self)
  | .ok capitalTime =>
    let left : Lot := { lot with quantity := lot.quantity - take, debit := lot.debit - basis }
    let taken : StudyPositions := { self.setLot head left with
      capitalTime
      rows := self.rows ++ [.released index head lot.quantity lot.debit take basis] }
    if left.quantity ≠ 0 then .ok (basis, taken)
    else if left.debit ≠ 0 then taken.reject "closed lot cost remainder"
    else
      let position := taken.position index
      .ok (basis, taken.setPosition index { position with
        head := lot.next
        tail := if lot.next = none then none else position.tail })

/-- Take lots from the front until nothing remains to be taken, and return the released cost. -/
def closeLots : ℕ → StudyPositions → ℕ → ℕ → ℕ → ℕ → Except Failure (ℕ × StudyPositions)
  | 0, self, _, _, released, _ => .ok (released, self)
  | fuel + 1, self, index, remaining, released, time =>
    if remaining = 0 then .ok (released, self)
    else
      match (self.position index).head with
      | none => self.reject "position lot accounting"
      | some head => do
        let take := min remaining (self.lot head).quantity
        let (basis, taken) ← self.takeLot index head take time
        closeLots fuel taken index (remaining - take) (released + basis) time

/-- Close a quantity of a position. A close passes each lot at most once. -/
def closePosition (self : StudyPositions) (index : ℕ) (quantity : ℤ) (time : ℕ) :
    Except Failure (ℕ × StudyPositions) := do
  if quantity < 0 ∨ ((self.position index).quantity : ℤ) < quantity then
    self.reject "cannot close unowned position"
  else
    let (released, closed) ←
      closeLots (self.lots.length + 1) self index quantity.toNat 0 time
    let position := closed.position index
    .ok (released, closed.setPosition index
      { position with quantity := position.quantity - quantity.toNat })

def close (self : StudyPositions) (attempt leg : ℕ) (quantity : ℤ) (time : ℕ) :
    Except Failure (ℕ × StudyPositions) := do
  let index ← self.find attempt leg
  self.closePosition index quantity time

/-! ### Settlement -/

structure SettlementResult where
  quantity : ℕ := 0
  payout : ℕ := 0
  deriving DecidableEq, Repr

/-- Whether a position is closed by a settlement. -/
def Position.settles (position : Position) (settlement : Settlement) : Bool :=
  position.quantity != 0 && position.leg.marketId == settlement.marketId

/-- Whether the outcome of a position wins. -/
def Position.wins (position : Position) (settlement : Settlement) : Bool :=
  position.leg.outcome.isYes == settlement.yesWins

/-- Close one position when its market settles. -/
def settlePosition (self : StudyPositions) (settlement : Settlement) (result : SettlementResult)
    (index : ℕ) : Except Failure (SettlementResult × StudyPositions) := do
  let position := self.position index
  if !position.settles settlement then .ok (result, self)
  else
    let q := position.quantity
    if int64Max - result.quantity < q then self.reject "settled quantity overflow"
    else if position.wins settlement ∧ cashLimit - result.payout < q * 10000 then
      self.reject "settlement payout bound"
    else
      let payout := if position.wins settlement then result.payout + q * 10000 else result.payout
      let (_, closed) ← self.closePosition index q settlement.time
      .ok (⟨result.quantity + q, payout⟩, closed)

/-- Settle the positions one after the other. -/
def settlePositions (settlement : Settlement) :
    List ℕ → StudyPositions → SettlementResult → Except Failure (SettlementResult × StudyPositions)
  | [], self, result => .ok (result, self)
  | index :: indices, self, result => do
    let (result, self) ← self.settlePosition settlement result index
    settlePositions settlement indices self result

/-- Close all positions of a market. -/
def settle (self : StudyPositions) (settlement : Settlement) :
    Except Failure (SettlementResult × StudyPositions) :=
  settlePositions settlement (List.range self.positions.length) self {}

/-! ### The end of the observation -/

/-- The capital time of the lots that are still held. -/
def finish (self : StudyPositions) (time : ℕ) : Except StudyException StudyPositions := do
  let capitalTime ← self.lots.foldlM (fun total lot =>
    if lot.quantity ≠ 0 then total.add lot.debit ((time : ℤ) - lot.acquired) else .ok total)
    self.capitalTime
  .ok { self with capitalTime }

def unsettledLots (self : StudyPositions) : ℕ := self.lots.countP fun lot => lot.quantity != 0

end StudyPositions

end EventMarket.Session
