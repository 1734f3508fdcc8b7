import Mathlib.Tactic

/-!
# The queue ahead of a resting order

A feed of aggregated levels does not tell the position of an order in its queue. The model keeps
the quantity ahead of it: trades at its price consume priority, and reductions of the displayed
quantity never fill it. In the favorable scenario a reduction that no trade explains within a
window is taken to be a cancellation ahead of the order; trades and reductions are matched
whichever of them is reported first.

## Main definitions

* `PassiveQueue`: the queue, with the reductions and the trades that are not matched yet.
* `PassiveQueue.advance`, `PassiveQueue.depth`, `PassiveQueue.trade`: its operations.

## Main results

* `PassiveQueue.trade_fill_le`: a trade fills at most what remains of the order.
-/

namespace EventMarket.Core

/-- A change of the level that is not matched yet. -/
structure QueueChange where
  time : ℤ
  quantity : ℤ
  deriving DecidableEq, Repr

structure PassiveQueue where
  ahead : ℤ
  displayed : ℤ
  window : ℤ
  favorable : Bool
  reductions : List QueueChange := []
  credits : List QueueChange := []
  deriving DecidableEq, Repr

namespace PassiveQueue

/-- A queue at the end of what is displayed. -/
def start (displayed : ℤ) (cancellationsAhead : Bool) (window : ℤ) : PassiveQueue where
  ahead := displayed
  displayed
  window
  favorable := cancellationsAhead

/-- Whether a change is older than the window. -/
def outdated (window time : ℤ) (change : QueueChange) : Bool :=
  decide (window < time - change.time)

/-- Drop the outdated reductions; in the favorable scenario they were ahead. -/
def expireReductions (favorable : Bool) (window time : ℤ) :
    ℤ → List QueueChange → ℤ × List QueueChange
  | ahead, [] => (ahead, [])
  | ahead, change :: changes =>
    if outdated window time change then
      expireReductions favorable window time
        (if favorable then max 0 (ahead - change.quantity) else ahead) changes
    else (ahead, change :: changes)

def advance (queue : PassiveQueue) (time : ℤ) : PassiveQueue :=
  let expired := expireReductions queue.favorable queue.window time queue.ahead queue.reductions
  { queue with
    ahead := expired.1
    reductions := expired.2
    credits := queue.credits.dropWhile (outdated queue.window time) }

/-- Match a quantity with pending changes, the oldest first; what is left of both. -/
def matchChanges : List QueueChange → ℤ → List QueueChange × ℤ
  | [], quantity => ([], quantity)
  | change :: changes, quantity =>
    if quantity ≤ 0 then (change :: changes, quantity)
    else
      let used := min quantity change.quantity
      if change.quantity - used = 0 then matchChanges changes (quantity - used)
      else ({ change with quantity := change.quantity - used } :: changes, quantity - used)

/-- Keep what is not matched, within the budget. -/
def append (changes : List QueueChange) (time quantity : ℤ) : Option (List QueueChange) :=
  if quantity = 0 then some changes
  else if 1024 ≤ changes.length then none
  else some (changes ++ [⟨time, quantity⟩])

/-- A new displayed quantity. -/
def depth (queue : PassiveQueue) (time displayed : ℤ) : Option PassiveQueue :=
  let queue := queue.advance time
  let matched := matchChanges queue.credits (max 0 (queue.displayed - displayed))
  (append queue.reductions time matched.2).map fun reductions =>
    { queue with displayed, credits := matched.1, reductions }

/-- A trade at the price of the order; what it fills of the remaining quantity. -/
def trade (queue : PassiveQueue) (time quantity remaining : ℤ) : Option (PassiveQueue × ℤ) :=
  let queue := queue.advance time
  let matched := matchChanges queue.reductions quantity
  (append queue.credits time matched.2).map fun credits =>
    let consumed := min queue.ahead quantity
    ({ queue with reductions := matched.1, credits, ahead := queue.ahead - consumed },
      min remaining (quantity - consumed))

theorem trade_fill_le {queue next : PassiveQueue} {time quantity remaining fill : ℤ}
    (h : queue.trade time quantity remaining = some (next, fill)) : fill ≤ remaining := by
  obtain ⟨credits, -, hnext⟩ := Option.map_eq_some_iff.mp h
  obtain ⟨-, rfl⟩ := Prod.mk.inj hnext
  exact min_le_left _ _

end PassiveQueue

end EventMarket.Core
