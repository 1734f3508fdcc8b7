import EventMarket.Market.MarketState

/-!
# The registry of markets

The identities of the markets of one metadata version: each market has one ticker, and each
ticker one market.

## Main definitions

* `MarketRegistry`, `MarketRegistry.registerMarket`: the registry and how it grows.
* `MarketRegistry.findMarket`, `MarketRegistry.findTicker`: looking up both ways.
-/

namespace EventMarket.Gateway

open Market

inductive MarketRegistrationResult where
  | registered
  | alreadyRegistered
  | invalidMetadataVersion
  | invalidMarketId
  | invalidTicker
  | marketIdConflict
  | tickerConflict
  deriving DecidableEq, Repr

/-- The tickers by market and the markets by ticker. -/
structure MarketRegistry where
  metadataVersion : ℕ
  marketIds : List (String × MarketId) := []
  tickers : List (MarketId × String) := []

namespace MarketRegistry

/-- The market of a ticker. -/
def findMarket (registry : MarketRegistry) (ticker : String) : Option MarketId :=
  registry.marketIds.lookup ticker

/-- The ticker of a market. -/
def findTicker (registry : MarketRegistry) (marketId : MarketId) : Option String :=
  registry.tickers.lookup marketId

def registerMarket (registry : MarketRegistry) (marketId : MarketId) (ticker : String) :
    MarketRegistry × MarketRegistrationResult :=
  if registry.metadataVersion = 0 then (registry, .invalidMetadataVersion)
  else if marketId = 0 then (registry, .invalidMarketId)
  else if ticker = "" then (registry, .invalidTicker)
  else
    match registry.findMarket ticker with
    | some known =>
      (registry, if known = marketId then .alreadyRegistered else .tickerConflict)
    | none =>
      if (registry.findTicker marketId).isSome then (registry, .marketIdConflict)
      else
        ({ registry with
          marketIds := (ticker, marketId) :: registry.marketIds
          tickers := (marketId, ticker) :: registry.tickers }, .registered)

end MarketRegistry

end EventMarket.Gateway
