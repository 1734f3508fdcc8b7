import EventMarket.Foundations.Run
import EventMarket.Scripts.ContractRules
import EventMarket.Scripts.PythonValues

/-!
# Reviewed contract families

The markets of a reviewed series are thresholds on one reference value. A catalogue is qualified
event by event: the markets of an event must have the same settlement conditions and distinct
strikes. The fees of a group are verified separately.

## Main definitions

* `Family`, `reviewedFamilies`: the reviewed series.
* `marketSemantics`: the checks of one market, its strike and its settlement conditions.
* `qualifyCatalog`: the groups of a catalogue.
* `verifyGroupFees`: the fee check of a group.

## Main results

* `qualifyCatalog_ascending`: the markets of an accepted group ascend strictly in their strikes.
-/

namespace EventMarket.Scripts

open Foundations Gateway

/-! ### The reviewed families -/

structure Family where
  family : String
  asset : String
  index : String
  termsUrl : String
  termsSha256 : String
  sourceUrl : String

def bitcoin : Family where
  family := "btc_minute_above"
  asset := "Bitcoin"
  index := "BRTI"
  termsUrl := "https://assets.kalshi.com/contract_terms/BTC.pdf"
  termsSha256 := "e7d857369971e75e9db14c5e2d91c29b94eb9a06e83e2acd9777991c4f2a0e2f"
  sourceUrl := "https://www.cfbenchmarks.com/data/indices/BRTI"

def ethereum : Family where
  family := "eth_minute_above"
  asset := "Ethereum"
  index := "ERTI"
  termsUrl := "https://assets.kalshi.com/contract_terms/ETH.pdf"
  termsSha256 := "ae079241099608c13c0c0ed31a6c91be174c6e61abe706dd76e8976ba682cc6d"
  sourceUrl := "https://www.cfbenchmarks.com/data/indices/ETHUSD_RTI"

def reviewedFamilies : List (String × Family) := [("KXBTCD", bitcoin), ("KXETHD", ethereum)]

def reviewedSecondary : String :=
  "Not all cryptocurrency price data is the same. While checking a source like Google or Coinbase "
    ++
  "may help guide your decision, the price used to determine this market is based on CF " ++
  "Benchmarks' corresponding Real Time Index (RTI). At the last minute before expiration, 60 RTI "
    ++
  "prices are collected. The official and final value is the average of these prices."

/-! ### Numbers, times and sources -/

section Values

variable (library : Library)

def decimalValue (value : Json) : Except ScriptError ℚ :=
  match value with
  | .boolean _ => .error (.family "invalid_number")
  | value =>
    match library.decimal value with
    | none => .error (.family "invalid_number")
    | some number => .ok number

/-- The product in the decimal context. -/
def scaled (number : ℚ) (factor : ℤ) : Except ScriptError ℚ :=
  match library.times number factor with
  | none => .error .uncaught
  | some product => .ok product

def isWhole (number : ℚ) : Bool := decide (number.den = 1)

def timeOf (value : Json) : Except ScriptError ℤ :=
  match value with
  | .string text =>
    match library.isoTime text with
    | .instant micros => .ok micros
    | .naive => .error (.family "timestamp_without_timezone")
    | .invalid => .error (.family "invalid_timestamp")
    | .outOfRange => .error .uncaught
  | _ => .error (.family "invalid_timestamp")

/-- The only source is the reference of the family; queries do not alter the named index. -/
def sourceMatches (sources : Json) (entry : Family) : Bool :=
  match sources with
  | .array [.object source] =>
    isText (Record.get source "name") "CF Benchmarks" &&
      match (source.lookup "url").getD (.string "") with
      | .string url =>
        match library.urlsplit url, library.urlsplit entry.sourceUrl with
        | some (scheme, authority, path, fragment), some (scheme', authority', path', _) =>
          decide ((scheme, authority, path, fragment) = (scheme', authority', path', ""))
        | _, _ => false
      | _ => false
  | _ => false

/-- The fee that applies: an event overrides the type and the multiplier of its series together. -/
def feeTerms (series : Record) (event : Option Record) : Except ScriptError (Json × Json) :=
  match event with
  | none => .ok (series.get "fee_type", series.get "fee_multiplier")
  | some event =>
    let kind := event.get "fee_type_override"
    let factor := event.get "fee_multiplier_override"
    if isNone kind ≠ isNone factor then .error (.family "partial_event_fee_override")
    else if isNone kind then .ok (series.get "fee_type", series.get "fee_multiplier")
    else .ok (kind, factor)

/-- The taker coefficient in parts per million. -/
def resolveTakerFee (series : Record) (event : Option Record) : Except ScriptError ℕ := do
  let (feeType, multiplier) ← feeTerms series event
  if !(isText feeType "quadratic" || isText feeType "quadratic_with_maker_fees") then
    .error (.family "unsupported_fee_type")
  else
    let factor ← decimalValue library multiplier
    let coefficient ← scaled library factor 70000
    if factor < 0 ∨ 1000000 < coefficient ∨ isWhole coefficient = false then
      .error (.family "unsupported_fee_multiplier")
    else .ok coefficient.num.toNat

end Values

/-! ### One market -/

/-- `[A-Z0-9][A-Z0-9_.-]{0,127}`. -/
def isTicker (text : String) : Bool :=
  let plain (character : Char) : Bool :=
    decide (('A' ≤ character ∧ character ≤ 'Z') ∨ ('0' ≤ character ∧ character ≤ '9'))
  match text.toList with
  | [] => false
  | first :: rest =>
    plain first && decide (rest.length ≤ 127) &&
      rest.all fun character =>
        plain character || character == '_' || character == '.' || character == '-'

/-- The ticker and the event of a market; each continues the one before it. -/
def marketIdentity (market : Record) (ticker : String) : Option (String × String) :=
  match market.get "ticker", market.get "event_ticker" with
  | .string name, .string event =>
    if isTicker name && isTicker event && (dropText (ticker ++ "-").toList event.toList).isSome &&
        (dropText (event ++ "-").toList name.toList).isSome then some (name, event)
    else none
  | _, _ => none

/-- The settlement conditions of a market; a flag counts by its value. -/
structure Semantics where
  rule : List Char
  secondary : String
  closeTime : Json
  expirationTime : Json
  expectedExpirationTime : Json
  latestExpirationTime : Json
  settlementTimer : Option ℤ
  canCloseEarly : Option Bool
  termsSha256 : String

/-- A market that passed the checks, with the flag as it was written. -/
structure ReviewedMarket where
  strike : ℚ
  semantics : Semantics
  written : Json
  ticker : String
  event : String
  market : Record

/-- A field that holds a time or nothing. -/
def optionalText : Json → Option String
  | .string text => some text
  | _ => none

/-- Two settlement conditions are equal. The times are texts that were read as times. -/
def Semantics.same (semantics other : Semantics) : Bool :=
  decide (semantics.rule = other.rule ∧ semantics.secondary = other.secondary ∧
    optionalText semantics.closeTime = optionalText other.closeTime ∧
    optionalText semantics.expirationTime = optionalText other.expirationTime ∧
    optionalText semantics.expectedExpirationTime = optionalText other.expectedExpirationTime ∧
    optionalText semantics.latestExpirationTime = optionalText other.latestExpirationTime ∧
    semantics.settlementTimer = other.settlementTimer ∧
    semantics.canCloseEarly = other.canCloseEarly ∧ semantics.termsSha256 = other.termsSha256)

section Market

variable (library : Library)

/-- The instant at which the reference value is taken. -/
def referenceTime (found : RuleMatch) : Option ℤ := do
  let hour := found.time.hour
  if hour < 1 ∨ 12 < hour then none
  else
    let month ← monthOf found.month
    library.civil found.year month found.day (hour % 12 + if found.time.morning then 0 else 12)
      (if found.time.summer then -4 else -5)

/-- The conditions that are not supported. -/
def unsupportedFields : List String :=
  ["functional_strike", "custom_strike", "is_provisional", "fee_waiver_expiration_time",
    "mve_collection_ticker", "mve_selected_legs", "result"]

/-- A check that gives its reason. -/
def require (passed : Bool) (reason : String) : Except ScriptError Unit :=
  if passed then .ok () else .error (.family reason)

/-- A time that may be missing must not lie before the close. -/
def notBefore (closes : ℤ) (value : Json) : Except ScriptError Unit :=
  if isNone value then .ok ()
  else do
    let time ← timeOf library value
    require (decide (closes ≤ time)) "expiration_before_close"

/-- The market must be open, when the time is known. -/
def isOpen (market : Record) (now : Option ℤ) : Except ScriptError Unit :=
  match now with
  | none => .ok ()
  | some now => do
    let opens ← timeOf library (market.get "open_time")
    require (decide (opens ≤ now)) "market_not_open_yet"

/-- The settlement timer is missing, or a nonnegative integer. -/
def timerOf (value : Json) : Option (Option ℤ) :=
  if isNone value then some none
  else
    match integerOf value with
    | some seconds => if seconds < 0 then none else some (some seconds)
    | none => none

/-- The settlement metadata. -/
def settlementMetadata (market : Record) : Except ScriptError (Option Bool × Option ℤ) :=
  match flagOf library (market.get "can_close_early"),
      timerOf (market.get "settlement_timer_seconds") with
  | some flag, some timer => .ok (flag, timer)
  | _, _ => .error (.family "unsupported_settlement_metadata")

/-- The rule of a market and its strike, which must agree. -/
def reviewedRule (market : Record) (entry : Family) : Except ScriptError (RuleMatch × ℚ) := do
  let found? := match market.get "rules_primary" with
    | .string primary => ruleMatch entry.asset entry.index primary
    | _ => none
  match found? with
  | none => .error (.family "unreviewed_rule_text")
  | some found =>
    require (isText (market.get "rules_secondary") reviewedSecondary) "unreviewed_rule_text"
    let strike ← decimalValue library (market.get "floor_strike")
    let written ← decimalValue library (.string (String.ofList (found.numbers.headD [])))
    require (decide (strike = written ∧ 0 ≤ strike ∧ strike ≤ 100000000)) "strike_rule_mismatch"
    let cents ← scaled library strike 100
    require (isWhole cents) "strike_rule_mismatch"
    .ok (found, strike)

/-- The checks of the fields that every contract shares. -/
def contractFields (market : Record) (deadline : ℤ) (now : Option ℤ) : Except ScriptError ℤ := do
  let closes ← timeOf library (market.get "close_time")
  let expires ← timeOf library (market.get "expiration_time")
  require (decide (deadline < closes)) "closes_before_capture_end"
  require (decide (closes ≤ expires)) "expiration_before_close"
  isOpen library market now
  let notional ← decimalValue library (market.get "notional_value_dollars")
  require (decide (notional = 1)) "unsupported_notional"
  require (isNone (market.get "cap_strike") &&
    unsupportedFields.all fun field => !truthy library (market.get field))
    "unsupported_contract_condition"
  .ok closes

/-- The checks of one market of a series. -/
def marketSemantics (market : Record) (ticker : String) (entry : Family) (deadline : ℤ)
    (now : Option ℤ) : Except ScriptError ReviewedMarket := do
  require (isText (market.get "status") "active") "market_not_active"
  require (isText (market.get "market_type") "binary" &&
    isText (market.get "strike_type") "greater")
    "unsupported_market_payoff"
  match marketIdentity market ticker with
  | none => .error (.family "market_event_identity_mismatch")
  | some (name, event) =>
    let closes ← contractFields library market deadline now
    let (found, strike) ← reviewedRule library market entry
    match referenceTime library found with
    | none => .error (.family "invalid_rule_reference_time")
    | some reference =>
      require (decide (reference = closes)) "rule_reference_close_mismatch"
      notBefore library closes (market.get "expected_expiration_time")
      notBefore library closes (market.get "latest_expiration_time")
      let (flag, timer) ← settlementMetadata library market
      .ok
        { strike
          semantics :=
            { rule := found.head ++ "<STRIKE>".toList ++ found.tail
              secondary := reviewedSecondary
              closeTime := market.get "close_time"
              expirationTime := market.get "expiration_time"
              expectedExpirationTime := market.get "expected_expiration_time"
              latestExpirationTime := market.get "latest_expiration_time"
              settlementTimer := timer
              canCloseEarly := flag
              termsSha256 := entry.termsSha256 }
          written := market.get "can_close_early"
          ticker := name
          event
          market }

end Market

/-! ### Catalogues -/

/-- Why a market, or a whole series, is left out. -/
structure Exclusion where
  seriesTicker : String
  reason : String
  market : Option (Json × Json) := none

/-- The markets of one event, ascending in their strikes. -/
structure Group where
  seriesTicker : String
  eventTicker : String
  family : String
  termsUrl : String
  termsSha256 : String
  markets : List Record
  closeTime : Json
  expirationTime : Json
  ruleFingerprint : String
  coefficientPpm : ℕ
  feeVerified : Bool

structure Qualification where
  groups : List Group := []
  exclusions : List Exclusion := []

section Catalog

variable (library : Library)

def excludeMarket (ticker reason : String) (market : Record) : Exclusion where
  seriesTicker := ticker
  reason
  market := some (market.get "ticker", market.get "event_ticker")

/-- Leave out all markets of a series, or the series when it has none. -/
def excludeAll (ticker reason : String) (markets : List Json) : List Exclusion :=
  if markets = [] then [⟨ticker, reason, none⟩]
  else markets.map fun market =>
    match market with
    | .object market => excludeMarket ticker reason market
    | _ => ⟨ticker, reason, none⟩

/-- The dictionaries of a list of markets, each with a ticker. -/
def marketRecords (markets : List Json) : Except ScriptError (List (String × Record)) :=
  markets.mapM fun market =>
    match market with
    | .object record =>
      match Record.get record "ticker" with
      | .string ticker => .ok (ticker, record)
      | _ => .error (.family "invalid_market_record")
    | _ => .error (.family "invalid_market_record")

/-- The markets of a series that pass, and the others. A ticker that comes twice taints the whole
series. -/
def reviewMarkets (ticker : String) (entry : Family) (deadline : ℤ) (now : Option ℤ) :
    List String → List (String × Record) →
      Except ScriptError (List ReviewedMarket × List Exclusion)
  | _, [] => .ok ([], [])
  | seen, (name, market) :: markets =>
    if name ∈ seen then .error (.family "duplicate_market_ticker")
    else
      match marketSemantics library market ticker entry deadline now with
      | .ok reviewed => do
        let (members, exclusions) ←
          reviewMarkets ticker entry deadline now (name :: seen) markets
        .ok (reviewed :: members, exclusions)
      | .error (.family reason) => do
        let (members, exclusions) ←
          reviewMarkets ticker entry deadline now (name :: seen) markets
        .ok (members, excludeMarket ticker reason market :: exclusions)
      | .error error => .error error

/-- Why the markets of an event make no group. -/
def eventFailure : List ReviewedMarket → Option String
  | first :: second :: members =>
    if ((second :: members).all fun member => member.semantics.same first.semantics) = false then
      some "event_settlement_conditions_mismatch"
    else if ¬((first :: second :: members).map ReviewedMarket.strike).Nodup then
      some "duplicate_strike_requires_equivalence_review"
    else none
  | _ => some "fewer_than_two_compatible_strikes"

/-- The settlement conditions as they are hashed. -/
def semanticsDocument (member : ReviewedMarket) : Json :=
  .array [.string (String.ofList member.semantics.rule), .string member.semantics.secondary,
    member.semantics.closeTime, member.semantics.expirationTime,
    member.semantics.expectedExpirationTime, member.semantics.latestExpirationTime,
    member.market.get "settlement_timer_seconds", member.written,
    .string member.semantics.termsSha256]

/-- Ascending strikes, and tickers where they are equal. -/
def byStrike (members : List ReviewedMarket) : List ReviewedMarket :=
  sortedBy (fun member => toLex (member.strike, member.ticker)) members

/-- The group of an event. -/
def eventGroup (ticker : String) (entry : Family) (coefficient : ℕ) (event : String)
    (members : List ReviewedMarket) : Except ScriptError Group :=
  match byStrike members with
  | [] => .error .uncaught
  | first :: rest =>
    match library.digest (semanticsDocument first) with
    | none => .error .uncaught
    | some ruleFingerprint =>
      .ok
        { seriesTicker := ticker
          eventTicker := event
          family := entry.family
          termsUrl := entry.termsUrl
          termsSha256 := entry.termsSha256
          markets := (first :: rest).map ReviewedMarket.market
          closeTime := first.market.get "close_time"
          expirationTime := first.market.get "expiration_time"
          ruleFingerprint
          coefficientPpm := coefficient
          feeVerified := false }

/-- Qualify the events of a series one after the other. -/
def qualifyEvents (ticker : String) (entry : Family) (coefficient : ℕ)
    (reviewed : List ReviewedMarket) : List String → Except ScriptError Qualification
  | [] => .ok {}
  | event :: events =>
    let members := reviewed.filter fun member => member.event == event
    match eventFailure members with
    | some reason => do
      let rest ← qualifyEvents ticker entry coefficient reviewed events
      .ok { rest with exclusions :=
        (members.map fun member => excludeMarket ticker reason member.market) ++ rest.exclusions }
    | none => do
      let group ← eventGroup library ticker entry coefficient event members
      let rest ← qualifyEvents ticker entry coefficient reviewed events
      .ok { rest with groups := group :: rest.groups }

/-- The inputs of a qualification: the reviewed series with the hashes of their terms. -/
structure ReviewContext where
  series : List (String × Record)
  termsHashes : List (String × Json)
  deadline : ℤ
  now : Option ℤ

/-- The hash of the terms of a series, by its ticker or by the address of its terms. -/
def ReviewContext.termsHash (context : ReviewContext) (ticker : String) (entry : Family) : Json :=
  ((context.termsHashes.lookup ticker).orElse fun _ =>
    context.termsHashes.lookup entry.termsUrl).getD .null

/-- Why a series is not reviewed. -/
def seriesFailure (context : ReviewContext) (ticker : String) (entry : Family) (cursor : Json) :
    Option String :=
  let series := (context.series.lookup ticker).getD []
  if truthy library cursor then some "incomplete_catalog"
  else if !(isText (series.get "ticker") ticker &&
      isText (series.get "contract_terms_url") entry.termsUrl) then some "series_terms_mismatch"
  else if !isText (context.termsHash ticker entry) entry.termsSha256 then
    some "terms_hash_mismatch"
  else if !sourceMatches library (series.get "settlement_sources") entry then
    some "unreviewed_settlement_source"
  else none

/-- Qualify the markets of one reviewed series. -/
def qualifyMarkets (context : ReviewContext) (ticker : String) (entry : Family) (coefficient : ℕ)
    (markets : List Json) : Except ScriptError Qualification := do
  let records ← marketRecords markets
  let (reviewed, exclusions) ← reviewMarkets library ticker entry context.deadline context.now []
    records
  let events := sortedBy id (reviewed.map ReviewedMarket.event).dedup
  let qualified ← qualifyEvents library ticker entry coefficient reviewed events
  .ok { qualified with exclusions := exclusions ++ qualified.exclusions }

/-- Qualify the catalogue of one series. -/
def qualifySeries (context : ReviewContext) (ticker : String) (catalog : Json) :
    Except ScriptError Qualification :=
  match catalog with
  | .object fields =>
    match Record.get fields "markets" with
    | .array markets =>
      match reviewedFamilies.lookup ticker with
      | none => .ok { exclusions := excludeAll ticker "unreviewed_family" markets }
      | some entry =>
        match seriesFailure library context ticker entry (Record.get fields "cursor") with
        | some reason => .ok { exclusions := excludeAll ticker reason markets }
        | none =>
          match resolveTakerFee library ((context.series.lookup ticker).getD []) none with
          | .error (.family reason) => .ok { exclusions := excludeAll ticker reason markets }
          | .error error => .error error
          | .ok coefficient => qualifyMarkets library context ticker entry coefficient markets
    | _ => .error (.family "invalid_catalog")
  | _ => .error (.family "invalid_catalog")

/-- One qualification after the other. -/
def Qualification.append (qualified more : Qualification) : Qualification where
  groups := qualified.groups ++ more.groups
  exclusions := qualified.exclusions ++ more.exclusions

def qualifyAll (context : ReviewContext) :
    List (String × Json) → Except ScriptError Qualification
  | [] => .ok {}
  | (ticker, catalog) :: catalogs => do
    let qualified ← qualifySeries library context ticker catalog
    let rest ← qualifyAll context catalogs
    .ok (qualified.append rest)

/-- Qualify every listed event of the catalogues, series by series. -/
def qualifyCatalog (context : ReviewContext) (catalogs : List (String × Json)) :
    Except ScriptError Qualification :=
  qualifyAll library context (sortedBy Prod.fst catalogs)

end Catalog

/-! ### Accepted groups -/

section Accepted

variable {library : Library} {context : ReviewContext}

/-- A market that passed keeps its record, its ticker and its strike. -/
theorem marketSemantics_eq_ok {market : Record} {ticker : String} {entry : Family} {deadline : ℤ}
    {now : Option ℤ} {reviewed : ReviewedMarket}
    (h : marketSemantics library market ticker entry deadline now = .ok reviewed) :
    reviewed.market = market ∧ market.get "ticker" = .string reviewed.ticker ∧
      decimalValue library (market.get "floor_strike") = .ok reviewed.strike := by
  unfold marketSemantics at h
  obtain ⟨_, -, h⟩ := bind_eq_ok h
  obtain ⟨_, -, h⟩ := bind_eq_ok h
  split at h
  case h_1 => cases h
  case h_2 name event hidentity =>
    obtain ⟨closes, -, h⟩ := bind_eq_ok h
    obtain ⟨⟨found, strike⟩, hrule, h⟩ := bind_eq_ok h
    dsimp only at h
    split at h
    case h_1 => cases h
    case h_2 reference href =>
      obtain ⟨_, -, h⟩ := bind_eq_ok h
      obtain ⟨_, -, h⟩ := bind_eq_ok h
      obtain ⟨_, -, h⟩ := bind_eq_ok h
      obtain ⟨⟨flag, timer⟩, -, h⟩ := bind_eq_ok h
      obtain rfl := Except.ok.inj h
      refine ⟨rfl, ?_, ?_⟩
      · unfold marketIdentity at hidentity
        split at hidentity
        case h_2 => cases hidentity
        case h_1 text other htext hother =>
          split_ifs at hidentity
          obtain ⟨rfl, rfl⟩ := Prod.mk.inj (Option.some.inj hidentity)
          exact htext
      · unfold reviewedRule at hrule
        dsimp only at hrule
        split at hrule
        case h_1 => cases hrule
        case h_2 =>
          obtain ⟨_, -, hrule⟩ := bind_eq_ok hrule
          obtain ⟨number, hstrike, hrule⟩ := bind_eq_ok hrule
          obtain ⟨_, -, hrule⟩ := bind_eq_ok hrule
          obtain ⟨_, -, hrule⟩ := bind_eq_ok hrule
          obtain ⟨_, -, hrule⟩ := bind_eq_ok hrule
          obtain ⟨_, -, hrule⟩ := bind_eq_ok hrule
          obtain ⟨rfl, rfl⟩ := Prod.mk.inj (Except.ok.inj hrule)
          exact hstrike

/-- The strike of a market record. -/
def strikeOf (library : Library) (market : Record) : ℚ :=
  (library.decimal (market.get "floor_strike")).getD 0

theorem decimalValue_eq_ok {value : Json} {number : ℚ}
    (h : decimalValue library value = .ok number) :
    library.decimal value = some number := by
  unfold decimalValue at h
  split at h
  case h_1 => cases h
  case h_2 =>
    split at h
    case h_1 => cases h
    case h_2 found hfound =>
      obtain rfl := Except.ok.inj h
      exact hfound

/-- The markets of a series that pass were listed, and have the strikes of their records. -/
theorem reviewMarkets_eq_ok {ticker : String} {entry : Family} {deadline : ℤ} {now : Option ℤ}
    {seen : List String} {markets : List (String × Record)} {members : List ReviewedMarket}
    {exclusions : List Exclusion}
    (h : reviewMarkets library ticker entry deadline now seen markets = .ok (members, exclusions)) :
    ∀ member ∈ members, strikeOf library member.market = member.strike := by
  induction markets generalizing seen members exclusions with
  | nil =>
    obtain ⟨rfl, rfl⟩ := Prod.mk.inj (Except.ok.inj h)
    simp
  | cons first markets ih =>
    obtain ⟨name, market⟩ := first
    unfold reviewMarkets at h
    split_ifs at h
    split at h
    case h_1 reviewed hreviewed =>
      obtain ⟨⟨rest, left⟩, hrest, h⟩ := bind_eq_ok h
      obtain ⟨rfl, rfl⟩ := Prod.mk.inj (Except.ok.inj h)
      obtain ⟨hmarket, -, hstrike⟩ := marketSemantics_eq_ok hreviewed
      refine List.forall_mem_cons.mpr ⟨?_, ih hrest⟩
      rw [strikeOf, hmarket, decimalValue_eq_ok hstrike, Option.getD_some]
    case h_2 =>
      obtain ⟨⟨rest, left⟩, hrest, h⟩ := bind_eq_ok h
      obtain ⟨rfl, rfl⟩ := Prod.mk.inj (Except.ok.inj h)
      exact ih hrest
    case h_3 => cases h

/-- Distinct strikes in order ascend strictly. -/
theorem byStrike_ascending {members : List ReviewedMarket}
    (h : (members.map ReviewedMarket.strike).Nodup) :
    (byStrike members).Pairwise fun member other => member.strike < other.strike := by
  have hnodup : ((byStrike members).map ReviewedMarket.strike).Nodup :=
    ((sortedBy_perm _ members).map _).nodup_iff.mpr h
  refine ((sortedBy_pairwise _ members).and (List.pairwise_map.mp hnodup)).imp ?_
  rintro member other ⟨hle, hne⟩
  rcases Prod.Lex.toLex_le_toLex.mp hle with hlt | ⟨heq, -⟩
  · exact hlt
  · exact absurd heq hne

/-- A group whose markets ascend in their strikes. -/
def Group.Ascending (library : Library) (group : Group) : Prop :=
  group.markets.Pairwise fun market other => strikeOf library market < strikeOf library other

theorem eventGroup_ascending {ticker event : String} {entry : Family} {coefficient : ℕ}
    {members : List ReviewedMarket} {group : Group}
    (hstrikes : ∀ member ∈ members, strikeOf library member.market = member.strike)
    (hfailure : eventFailure members = none)
    (h : eventGroup library ticker entry coefficient event members = .ok group) :
    group.Ascending library := by
  have hnodup : (members.map ReviewedMarket.strike).Nodup := by
    unfold eventFailure at hfailure
    split at hfailure
    case h_1 =>
      split_ifs at hfailure with _ hdistinct
      exact hdistinct
    case h_2 => cases hfailure
  have hsorted := byStrike_ascending hnodup
  have hmem : ∀ member ∈ byStrike members, strikeOf library member.market = member.strike :=
    fun member hmember => hstrikes member (mem_sortedBy.mp hmember)
  unfold eventGroup at h
  split at h
  case h_1 => cases h
  case h_2 first rest hfirst =>
    split at h
    case h_1 => cases h
    case h_2 =>
      obtain rfl := Except.ok.inj h
      rw [hfirst] at hsorted hmem
      refine List.pairwise_map.mpr (hsorted.imp_of_mem fun hmember hother hlt => ?_)
      rwa [hmem _ hmember, hmem _ hother]

theorem qualifyEvents_ascending {ticker : String} {entry : Family} {coefficient : ℕ}
    {reviewed : List ReviewedMarket} {events : List String} {qualified : Qualification}
    (hstrikes : ∀ member ∈ reviewed, strikeOf library member.market = member.strike)
    (h : qualifyEvents library ticker entry coefficient reviewed events = .ok qualified) :
    ∀ group ∈ qualified.groups, group.Ascending library := by
  induction events generalizing qualified with
  | nil =>
    obtain rfl := Except.ok.inj h
    simp
  | cons event events ih =>
    unfold qualifyEvents at h
    dsimp only at h
    split at h
    case h_1 =>
      obtain ⟨rest, hrest, h⟩ := bind_eq_ok h
      obtain rfl := Except.ok.inj h
      exact fun group hgroup => ih hrest group hgroup
    case h_2 hfailure =>
      obtain ⟨group, hgroup, h⟩ := bind_eq_ok h
      obtain ⟨rest, hrest, h⟩ := bind_eq_ok h
      obtain rfl := Except.ok.inj h
      refine List.forall_mem_cons.mpr ⟨eventGroup_ascending ?_ hfailure hgroup, ih hrest⟩
      exact fun member hmember => hstrikes member (List.mem_filter.mp hmember).1

theorem qualifySeries_ascending {ticker : String} {catalog : Json} {qualified : Qualification}
    (h : qualifySeries library context ticker catalog = .ok qualified) :
    ∀ group ∈ qualified.groups, group.Ascending library := by
  have hnone (exclusions : List Exclusion) :
      ∀ group ∈ ({ exclusions } : Qualification).groups, group.Ascending library := by simp
  unfold qualifySeries at h
  split at h
  case h_2 => cases h
  case h_1 =>
    split at h
    case h_2 => cases h
    case h_1 =>
      split at h
      case h_1 =>
        obtain rfl := Except.ok.inj h
        exact hnone _
      case h_2 =>
        split at h
        case h_1 =>
          obtain rfl := Except.ok.inj h
          exact hnone _
        case h_2 =>
          split at h
          case h_1 =>
            obtain rfl := Except.ok.inj h
            exact hnone _
          case h_2 => cases h
          case h_3 =>
            obtain ⟨records, -, h⟩ := bind_eq_ok h
            obtain ⟨⟨reviewed, left⟩, hreviewed, h⟩ := bind_eq_ok h
            obtain ⟨events, hevents, h⟩ := bind_eq_ok h
            obtain rfl := Except.ok.inj h
            exact fun group hgroup =>
              qualifyEvents_ascending (reviewMarkets_eq_ok hreviewed) hevents group hgroup

/-- **Accepted groups.** The markets of a group ascend strictly in their strikes. -/
theorem qualifyCatalog_ascending {catalogs : List (String × Json)} {qualified : Qualification}
    (h : qualifyCatalog library context catalogs = .ok qualified) :
    ∀ group ∈ qualified.groups, group.Ascending library := by
  unfold qualifyCatalog at h
  generalize sortedBy Prod.fst catalogs = sorted at h
  induction sorted generalizing qualified with
  | nil =>
    obtain rfl := Except.ok.inj h
    simp
  | cons first sorted ih =>
    unfold qualifyAll at h
    obtain ⟨here, hhere, h⟩ := bind_eq_ok h
    obtain ⟨rest, hrest, h⟩ := bind_eq_ok h
    obtain rfl := Except.ok.inj h
    intro group hgroup
    rcases List.mem_append.mp hgroup with hgroup | hgroup
    · exact qualifySeries_ascending hhere group hgroup
    · exact ih hrest group hgroup

end Accepted

/-! ### Fees -/

/-- What the venue publishes about the fees of a group. -/
structure FeeContext where
  series : Record
  event : Record
  now : ℤ
  runEnd : ℤ
  seriesFeeChanges : Json
  eventFeeChanges : Json

section Fees

variable (library : Library)

/-- A list in a complete answer. -/
def completeList (answer : Json) (name : String) : Option (List Json) :=
  match answer with
  | .object fields =>
    match Record.get fields name with
    | .array items => some items
    | _ => none
  | _ => none

/-- A fee change must belong to the series, and to the event where it is one of an event; it must
not become effective during the run. -/
def checkChange (ticker : String) (event : Option Json) (now runEnd : ℤ) (during : String)
    (change : Json) : Except ScriptError Unit :=
  match change with
  | .object fields => do
    require (isText (Record.get fields "series_ticker") ticker &&
      event.all fun event => decide (optionalText (Record.get fields "event_ticker") =
        optionalText event)) "fee_schedule_identity_mismatch"
    let scheduled ← timeOf library (Record.get fields "scheduled_ts")
    require (!decide (now < scheduled ∧ scheduled ≤ runEnd)) during
  | _ => .error (.family "fee_schedule_identity_mismatch")

/-- The announced fee changes, first those of the series and then those of the event. -/
def feeSchedule (ticker : String) (event : Json) (now runEnd : ℤ) (during : String)
    (seriesFeeChanges eventFeeChanges : Json) : Except ScriptError Unit :=
  let cursor := match eventFeeChanges with
    | .object fields => Record.get fields "cursor"
    | _ => .null
  match completeList seriesFeeChanges "series_fee_change_arr",
      completeList eventFeeChanges "event_fee_changes" with
  | some seriesChanges, some eventChanges => do
    require (isText cursor "") "incomplete_fee_schedule"
    seriesChanges.forM (checkChange library ticker none now runEnd during)
    eventChanges.forM (checkChange library ticker (some event) now runEnd during)
  | _, _ => .error (.family "incomplete_fee_schedule")

/-- The time of the strike, where an event has one, is the close of its markets. -/
def checkStrikeDate (strikeDate closeTime : Json) : Except ScriptError Unit :=
  if isNone strikeDate then .ok ()
  else do
    let strike ← timeOf library strikeDate
    let closes ← timeOf library closeTime
    require (decide (strike = closes)) "event_reference_time_mismatch"

/-- Verify the fees of a group over the run. -/
def verifyGroupFees (group : Group) (context : FeeContext) : Except ScriptError Group := do
  require (decide (context.now < context.runEnd)) "invalid_fee_window"
  match reviewedFamilies.lookup group.seriesTicker with
  | none => .error (.family "event_identity_mismatch")
  | some entry =>
    require (isText (context.series.get "ticker") group.seriesTicker &&
      isText (context.event.get "series_ticker") group.seriesTicker &&
      isText (context.event.get "event_ticker") group.eventTicker) "event_identity_mismatch"
    require (isFalse (context.event.get "mutually_exclusive")) "event_payoff_metadata_mismatch"
    require (sourceMatches library (context.event.get "settlement_sources") entry)
      "event_settlement_source_mismatch"
    checkStrikeDate library (context.event.get "strike_date") group.closeTime
    let coefficient ← resolveTakerFee library context.series (some context.event)
    feeSchedule library group.seriesTicker (.string group.eventTicker) context.now context.runEnd
      "scheduled_fee_change_during_capture" context.seriesFeeChanges context.eventFeeChanges
    .ok { group with coefficientPpm := coefficient, feeVerified := true }

end Fees

end EventMarket.Scripts
