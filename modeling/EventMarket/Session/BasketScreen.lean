import EventMarket.Core.BasketSizing
import EventMarket.Gateway.MetadataSnapshot
import EventMarket.Session.SessionFiles
import EventMarket.Session.StudyJson

/-!
# The screen of baskets

A basket buys YES of a threshold market, NO of a market with a higher threshold and NO of a range
market between the two. The screen lists the markets with their fees and the baskets; the geometry
of every basket is checked, and a market has the same meaning in all baskets that share it.

## Main definitions

* `ScreenBasket`, `BasketScreen`, `BasketPolicy`: what is loaded.
* `parseScreen`, `parseObservationPolicy`: loading.
* `BasketScreen.Valid`: what the loader has checked.

## Main results

* `parseScreen_valid`: a loaded screen is valid.
-/

namespace EventMarket.Session

open Core Foundations Gateway Market

/-! ### What is loaded -/

structure ScreenMarket where
  id : MarketId
  ticker : String
  deriving DecidableEq, Repr

/-- What a market pays for, as a condition on the common scalar in cents. -/
inductive Meaning where
  | threshold (bound : ℕ)
  | range (lower upper : ℕ)
  deriving DecidableEq, Repr

/-- A basket: YES of the lower threshold market, NO of the upper one, NO of the range market. -/
structure ScreenBasket where
  id : ℕ
  key : String
  markets : Fin 3 → MarketId
  lowerThreshold : ℕ
  upperThreshold : ℕ
  intervalLower : ℕ
  intervalUpper : ℕ

/-- The meanings of the three markets. -/
def ScreenBasket.meanings (basket : ScreenBasket) : Fin 3 → Meaning :=
  ![.threshold basket.lowerThreshold, .threshold basket.upperThreshold,
    .range basket.intervalLower basket.intervalUpper]

structure BasketScreen where
  markets : List ScreenMarket
  fees : List (MarketId × FeePolicy)
  baskets : List ScreenBasket
  limits : SizingLimits
  totalBudget : ℕ

namespace BasketScreen

def marketIds (screen : BasketScreen) : List MarketId := screen.markets.map ScreenMarket.id

/-- The fee policy of a market; every market has one. -/
def fee (screen : BasketScreen) (marketId : MarketId) : FeePolicy :=
  (screen.fees.lookup marketId).getD ⟨0, 0⟩

/-- A basket by its position. -/
def basket (screen : BasketScreen) (index : Fin screen.baskets.length) : ScreenBasket :=
  screen.baskets.get index

/-- The baskets that depend on a market, in the order of their ids. -/
def dependencies (screen : BasketScreen) (marketId : MarketId) :
    List (Fin screen.baskets.length) :=
  (List.finRange screen.baskets.length).filter fun index =>
    decide (∃ leg, (screen.basket index).markets leg = marketId)

/-- Whether the asks (`0`) or the bids (`1`) of a market are needed. -/
def needed (screen : BasketScreen) (marketId : MarketId) (side : Fin 2) : Bool :=
  decide (∃ index, ∃ leg : Fin 3, (screen.basket index).markets leg = marketId ∧
    (leg = 0 ↔ side = 0))

end BasketScreen

/-- The policy of an observation; the window is in nanoseconds of the local wall clock. -/
structure BasketPolicy where
  screen : BasketScreen
  validFrom : ℤ
  validUntil : ℤ
  maximumEvents : ℕ

/-! ### Loading -/

/-- The value is an object with exactly these fields; the error names the first that is missing. -/
def studyShape (value : Json) (fields : List String) : Except StudyException Unit :=
  match value with
  | .object entries =>
    if entries.length ≠ fields.length then invalid "object shape"
    else
      match fields.find? fun name => !value.contains name with
      | some name => invalid name
      | none => .ok ()
  | _ => invalid "object shape"

/-- A field that is only read when the checks before it have passed. -/
def readIf {α : Type} (passed : Prop) [Decidable passed] (read : Except StudyException α)
    (unread : α) : Except StudyException α :=
  if passed then read else .ok unread

def positiveId (row : Json) (field : String) : Except StudyException ℕ := do
  let id ← integer row field uint32Max
  if id = 0 then invalid field else .ok id

/-- The rows of an array. -/
def rowsOf (value : Json) (path : String) (maximum : ℕ) : Except StudyException (List Json) :=
  match value with
  | .array rows => if rows = [] ∨ maximum < rows.length then invalid path else .ok rows
  | _ => invalid path

/-- One more market of the capture. -/
def readMarket (metadata : MetadataSnapshot) (markets : List ScreenMarket) (row : Json) :
    Except StudyException (List ScreenMarket) := do
  studyShape row ["id", "ticker"]
  let id ← positiveId row "id"
  match metadata.markets.findTicker id with
  | none => invalid "basket market binding"
  | some ticker => do
    let given ← string row "ticker"
    if ticker ≠ given ∨ id ∈ markets.map ScreenMarket.id then invalid "basket market binding"
    else .ok (markets ++ [⟨id, given⟩])

/-- The fee policy of one more market. -/
def readFee (marketIds : List MarketId) (fees : List (MarketId × FeePolicy)) (row : Json) :
    Except StudyException (List (MarketId × FeePolicy)) := do
  studyShape row ["market_id", "coefficient_ppm", "balance_quantum_micro"]
  let id ← positiveId row "market_id"
  if id ∉ marketIds ∨ id ∈ fees.map Prod.fst then invalid "basket fee market"
  else do
    let coefficientPpm ← integer row "coefficient_ppm" 1000000
    let balanceQuantumMicro ← integer row "balance_quantum_micro" 10000
    if balanceQuantumMicro ≠ 100 ∧ balanceQuantumMicro ≠ 10000 then
      invalid "basket balance precision"
    else .ok (fees ++ [(id, ⟨coefficientPpm, balanceQuantumMicro⟩)])

/-- The meanings with that of one more leg; a market that is known must mean the same. -/
def bindMeaning (marketIds : List MarketId) (semantics : List (MarketId × Meaning))
    (marketId : MarketId) (meaning : Meaning) :
    Except StudyException (List (MarketId × Meaning)) :=
  if marketId ∉ marketIds then invalid "basket leg market"
  else
    match semantics.lookup marketId with
    | none => .ok (semantics ++ [(marketId, meaning)])
    | some known =>
      if known ≠ meaning then invalid "inconsistent basket market semantics" else .ok semantics

/-- One more basket, with the meanings of its markets. -/
def readBasket (marketIds : List MarketId)
    (state : List ScreenBasket × List (MarketId × Meaning)) (row : Json) :
    Except StudyException (List ScreenBasket × List (MarketId × Meaning)) := do
  let (baskets, semantics) := state
  studyShape row ["id", "key", "lower_market_id", "upper_market_id", "range_market_id",
    "lower_threshold_cents", "upper_threshold_cents", "interval_lower_cents",
    "interval_upper_cents"]
  let id ← positiveId row "id"
  let key ← string row "key"
  let lowerMarket ← positiveId row "lower_market_id"
  let upperMarket ← positiveId row "upper_market_id"
  let rangeMarket ← positiveId row "range_market_id"
  let a ← integer row "lower_threshold_cents"
  let b ← integer row "upper_threshold_cents"
  let lower ← integer row "interval_lower_cents"
  let upper ← integer row "interval_upper_cents"
  if ¬(a < lower ∧ lower ≤ upper ∧ upper ≤ b) ∨ lowerMarket = upperMarket ∨
      lowerMarket = rangeMarket ∨ upperMarket = rangeMarket then
    invalid "basket conditional payoff geometry"
  else
    let basket : ScreenBasket :=
      { id, key, markets := ![lowerMarket, upperMarket, rangeMarket], lowerThreshold := a,
        upperThreshold := b, intervalLower := lower, intervalUpper := upper }
    if id ∈ baskets.map ScreenBasket.id ∨ key ∈ baskets.map ScreenBasket.key ∨
        basket.markets ∈ baskets.map ScreenBasket.markets then invalid "duplicate observed basket"
    else do
      let semantics ← bindMeaning marketIds semantics lowerMarket (.threshold a)
      let semantics ← bindMeaning marketIds semantics upperMarket (.threshold b)
      let semantics ← bindMeaning marketIds semantics rangeMarket (.range lower upper)
      .ok (baskets ++ [basket], semantics)

/-- The limits of the sizing. -/
def readSizing (sizing : Json) : Except StudyException SizingLimits := do
  studyShape sizing ["cap_centicontracts", "step_centicontracts", "available_cash_micro",
    "minimum_margin_micro", "max_evaluations"]
  let cap ← integer sizing "cap_centicontracts" 10000
  if cap < 100 ∨ cap % 100 ≠ 0 then invalid "basket quantity grid"
  else do
    let step ← integer sizing "step_centicontracts"
    if step ≠ 100 then invalid "basket quantity grid"
    else do
      let available ← integer sizing "available_cash_micro" 1000000000000000
      let minimumMargin ← integer sizing "minimum_margin_micro" 1000000000000000
      let maxEvaluations ← integer sizing "max_evaluations" 10000000
      match Quantity.fromRaw cap, Quantity.fromRaw 100, Cash.fromRaw available,
        Cash.fromRaw minimumMargin with
      | some cap, some step, some available, some minimumMargin =>
        .ok { cap, step, available, minimumMargin, maxEvaluations }
      | _, _, _, _ => invalid "basket quantity grid"

def parseScreen (metadata : MetadataSnapshot) (screen : Json) :
    Except StudyException BasketScreen := do
  studyShape screen ["schema_version", "markets", "baskets", "as_of_ms", "max_age_ms",
    "max_skew_ms", "max_total_evaluations", "sizing", "fees", "books"]
  let schema ← integer screen "schema_version"
  let asOf ← readIf (schema = 1) (integer screen "as_of_ms") 0
  let noBooks := match screen.field "books" with
    | .array [] => true
    | _ => false
  if schema ≠ 1 ∨ asOf ≠ 0 ∨ !noBooks then invalid "basket observation cannot seed REST books"
  else do
    -- These are kept for the sake of the schema; they admit no book by its age or skew.
    let _ ← integer screen "max_age_ms"
    let _ ← integer screen "max_skew_ms"
    let totalBudget ← integer screen "max_total_evaluations" 10000000
    let limits ← readSizing (screen.field "sizing")
    if totalBudget = 0 ∨ limits.maxEvaluations = 0 then invalid "basket evaluation budget"
    else do
      let rows ← rowsOf (screen.field "markets") "basket capture markets" 64
      if rows.length ≠ metadata.markets.tickers.length then invalid "basket capture markets"
      else do
        let markets ← rows.foldlM (readMarket metadata) []
        let marketIds := markets.map ScreenMarket.id
        match screen.field "fees" with
        | .array feeRows =>
          if feeRows.length ≠ markets.length then invalid "basket fee coverage"
          else do
            let fees ← feeRows.foldlM (readFee marketIds) []
            let basketRows ← rowsOf (screen.field "baskets") "basket observation count" 100
            let (baskets, _) ← basketRows.foldlM (readBasket marketIds) ([], [])
            let baskets := baskets.mergeSort fun left right => decide (left.id ≤ right.id)
            let result : BasketScreen := { markets, fees, baskets, limits, totalBudget }
            if marketIds.any fun marketId => (result.dependencies marketId).isEmpty then
              invalid "unused basket capture market"
            else .ok result
        | _ => invalid "basket fee coverage"

/-- A digest in 64 lower case hexadecimal digits. -/
def hashField (row : Json) (field : String) : Except StudyException String := do
  let value ← string row field
  if ValidHash value then .ok value else invalid field

/-- The most nanoseconds of the wall clock in milliseconds. -/
def maximumWallMs : ℕ := int64Max / 1000000

def parseObservationPolicy (library : JsonLibrary) (sha256 : List UInt8 → String)
    (metadata : MetadataSnapshot) (bytes : List UInt8) : Except StudyException BasketPolicy := do
  let policy ← parseStrict library bytes
  studyShape policy ["schema_version", "kind", "freshness_mode", "qualification_sha256",
    "metadata_sha256", "valid_from_unix_ms", "valid_until_unix_ms", "max_episode_events", "screen"]
  let schema ← integer policy "schema_version"
  let kind ← readIf (schema = 1) (string policy "kind") ""
  let mode ← readIf (kind = "conditional_basket_observation") (string policy "freshness_mode") ""
  if schema ≠ 1 ∨ kind ≠ "conditional_basket_observation" ∨ mode ≠ "contiguous_shared_stream" then
    invalid "basket observation mode"
  else do
    let _ ← hashField policy "qualification_sha256"
    let metadataHash ← hashField policy "metadata_sha256"
    if metadataHash ≠ sha256 metadata.canonicalJson then invalid "basket metadata binding"
    else do
      let validFrom ← integer policy "valid_from_unix_ms" maximumWallMs
      let validUntil ← integer policy "valid_until_unix_ms" maximumWallMs
      let maximumEvents ← integer policy "max_episode_events" 1000000
      if validUntil ≤ validFrom ∨ maximumEvents = 0 then
        invalid "basket observation window/budget"
      else do
        let screen ← parseScreen metadata (policy.field "screen")
        .ok { screen, validFrom := validFrom * 1000000, validUntil := validUntil * 1000000,
              maximumEvents }

/-! ### What the loader has checked -/

/-- **A valid screen.** The thresholds and the interval of every basket are ordered, its three
markets differ, and every market means the same in all baskets. -/
structure BasketScreen.Valid (screen : BasketScreen) : Prop where
  cap_le : screen.limits.cap.raw ≤ 10000
  cap_ge : 100 ≤ screen.limits.cap.raw
  cap_dvd : screen.limits.cap.raw % 100 = 0
  available_le : screen.limits.available.raw ≤ cashBound
  ids_nodup : (screen.baskets.map ScreenBasket.id).Nodup
  geometry : ∀ basket ∈ screen.baskets, basket.lowerThreshold < basket.intervalLower ∧
    basket.intervalLower ≤ basket.intervalUpper ∧ basket.intervalUpper ≤ basket.upperThreshold
  distinct : ∀ basket ∈ screen.baskets, Function.Injective basket.markets
  known : ∀ basket ∈ screen.baskets, ∀ leg, basket.markets leg ∈ screen.marketIds
  meanings : ∃ semantics : MarketId → Option Meaning, ∀ basket ∈ screen.baskets, ∀ leg,
    semantics (basket.markets leg) = some (basket.meanings leg)
  fees : ∀ marketId ∈ screen.marketIds, (screen.fee marketId).Valid

section Load

variable {metadata : MetadataSnapshot} {marketIds : List MarketId}

theorem positiveId_eq_ok {row : Json} {field : String} {id : ℕ}
    (h : positiveId row field = .ok id) :
    0 < id := by
  unfold positiveId at h
  obtain ⟨number, -, h⟩ := bind_eq_ok h
  split_ifs at h with hzero
  · cases h
  obtain rfl := Except.ok.inj h
  omega

/-- One more market has a new id. -/
theorem readMarket_eq_ok {markets next : List ScreenMarket} {row : Json}
    (h : readMarket metadata markets row = .ok next) :
    ∃ market : ScreenMarket, next = markets ++ [market] ∧
      market.id ∉ markets.map ScreenMarket.id := by
  unfold readMarket at h
  obtain ⟨_, -, h1⟩ := bind_eq_ok h
  obtain ⟨id, -, h2⟩ := bind_eq_ok h1
  cases hticker : metadata.markets.findTicker id with
  | none =>
    rw [hticker] at h2
    cases h2
  | some ticker =>
    rw [hticker] at h2
    obtain ⟨given, -, h3⟩ := bind_eq_ok h2
    split_ifs at h3 with hbound
    · cases h3
    exact ⟨⟨id, given⟩, (Except.ok.inj h3).symm, (not_or.mp hbound).2⟩

/-- One more fee policy is valid and for a new market. -/
theorem readFee_eq_ok {fees next : List (MarketId × FeePolicy)} {row : Json}
    (h : readFee marketIds fees row = .ok next) :
    ∃ entry : MarketId × FeePolicy, next = fees ++ [entry] ∧ entry.1 ∈ marketIds ∧
      entry.1 ∉ fees.map Prod.fst ∧ entry.2.Valid := by
  unfold readFee at h
  obtain ⟨_, -, h1⟩ := bind_eq_ok h
  obtain ⟨id, -, h2⟩ := bind_eq_ok h1
  split_ifs at h2 with hmarket
  · cases h2
  rw [not_or, not_not] at hmarket
  obtain ⟨coefficient, hcoefficient, h3⟩ := bind_eq_ok h2
  obtain ⟨quantum, hquantum, h4⟩ := bind_eq_ok h3
  split_ifs at h4 with hprecision
  · cases h4
  refine ⟨(id, ⟨coefficient, quantum⟩), (Except.ok.inj h4).symm, hmarket.1, hmarket.2,
    (integer_eq_ok hcoefficient).2, ?_⟩
  show quantum = 100 ∨ quantum = 10000
  omega

/-- Binding a leg gives its meaning and keeps the others. -/
theorem bindMeaning_eq_ok {semantics next : List (MarketId × Meaning)} {marketId : MarketId}
    {meaning : Meaning} (h : bindMeaning marketIds semantics marketId meaning = .ok next) :
    marketId ∈ marketIds ∧ next.lookup marketId = some meaning ∧
      ∀ other known, semantics.lookup other = some known → next.lookup other = some known := by
  unfold bindMeaning at h
  by_cases hmarket : marketId ∉ marketIds
  · rw [if_pos hmarket] at h
    cases h
  rw [if_neg hmarket] at h
  rw [not_not] at hmarket
  cases hknown : semantics.lookup marketId with
  | none =>
    rw [hknown] at h
    obtain rfl := Except.ok.inj h
    refine ⟨hmarket, ?_, fun other known hother => ?_⟩
    · rw [List.lookup_append, hknown]
      simp
    · rw [List.lookup_append, hother]
      rfl
  | some known =>
    rw [hknown] at h
    dsimp only at h
    split_ifs at h with hsame
    · cases h
    obtain rfl := Except.ok.inj h
    exact ⟨hmarket, by rw [hknown, not_not.mp hsame], fun other known hother => hother⟩

/-- What is known of the baskets that were read. -/
structure ReadBaskets (marketIds : List MarketId)
    (state : List ScreenBasket × List (MarketId × Meaning)) : Prop where
  ids_nodup : (state.1.map ScreenBasket.id).Nodup
  geometry : ∀ basket ∈ state.1, basket.lowerThreshold < basket.intervalLower ∧
    basket.intervalLower ≤ basket.intervalUpper ∧ basket.intervalUpper ≤ basket.upperThreshold
  distinct : ∀ basket ∈ state.1, Function.Injective basket.markets
  known : ∀ basket ∈ state.1, ∀ leg, basket.markets leg ∈ marketIds
  meanings : ∀ basket ∈ state.1, ∀ leg,
    state.2.lookup (basket.markets leg) = some (basket.meanings leg)

theorem ReadBaskets.readBasket {state next : List ScreenBasket × List (MarketId × Meaning)}
    {row : Json} (h : ReadBaskets marketIds state)
    (hread : readBasket marketIds state row = .ok next) : ReadBaskets marketIds next := by
  obtain ⟨baskets, semantics⟩ := state
  unfold EventMarket.Session.readBasket at hread
  dsimp only at hread
  obtain ⟨_, -, h1⟩ := bind_eq_ok hread
  obtain ⟨id, -, h2⟩ := bind_eq_ok h1
  obtain ⟨key, -, h3⟩ := bind_eq_ok h2
  obtain ⟨lowerMarket, -, h4⟩ := bind_eq_ok h3
  obtain ⟨upperMarket, -, h5⟩ := bind_eq_ok h4
  obtain ⟨rangeMarket, -, h6⟩ := bind_eq_ok h5
  obtain ⟨a, -, h7⟩ := bind_eq_ok h6
  obtain ⟨b, -, h8⟩ := bind_eq_ok h7
  obtain ⟨lower, -, h9⟩ := bind_eq_ok h8
  obtain ⟨upper, -, h10⟩ := bind_eq_ok h9
  clear hread h1 h2 h3 h4 h5 h6 h7 h8 h9
  split_ifs at h10 with hgeometry hduplicate
  · cases h10
  · cases h10
  rw [not_or, not_not, not_or, not_or] at hgeometry
  rw [not_or, not_or] at hduplicate
  obtain ⟨semantics1, hbind1, h11⟩ := bind_eq_ok h10
  obtain ⟨semantics2, hbind2, h12⟩ := bind_eq_ok h11
  obtain ⟨semantics3, hbind3, h13⟩ := bind_eq_ok h12
  obtain rfl := Except.ok.inj h13
  obtain ⟨hmarket1, hmeaning1, hkept1⟩ := bindMeaning_eq_ok hbind1
  obtain ⟨hmarket2, hmeaning2, hkept2⟩ := bindMeaning_eq_ok hbind2
  obtain ⟨hmarket3, hmeaning3, hkept3⟩ := bindMeaning_eq_ok hbind3
  obtain ⟨hordered, hne1, hne2, hne3⟩ := hgeometry
  refine ⟨?_, ?_, ?_, ?_, ?_⟩
  · rw [List.map_append, List.nodup_append]
    refine ⟨h.ids_nodup, List.pairwise_singleton _ _, ?_⟩
    rintro value hvalue _ hlast rfl
    obtain rfl := List.mem_singleton.mp hlast
    exact hduplicate.1 hvalue
  all_goals
    intro basket hbasket
    rcases List.mem_append.mp hbasket with hbasket | hbasket
  · exact h.geometry basket hbasket
  · obtain rfl := List.mem_singleton.mp hbasket
    exact hordered
  · exact h.distinct basket hbasket
  · obtain rfl := List.mem_singleton.mp hbasket
    intro leg other heq
    fin_cases leg <;> fin_cases other <;> simp_all
  · exact h.known basket hbasket
  · obtain rfl := List.mem_singleton.mp hbasket
    intro leg
    fin_cases leg
    exacts [hmarket1, hmarket2, hmarket3]
  · exact fun leg => hkept3 _ _ (hkept2 _ _ (hkept1 _ _ (h.meanings basket hbasket leg)))
  · obtain rfl := List.mem_singleton.mp hbasket
    intro leg
    fin_cases leg
    exacts [hkept3 _ _ (hkept2 _ _ hmeaning1), hkept3 _ _ hmeaning2, hmeaning3]

theorem readSizing_eq_ok {sizing : Json} {limits : SizingLimits}
    (h : readSizing sizing = .ok limits) :
    limits.cap.raw ≤ 10000 ∧ 100 ≤ limits.cap.raw ∧ limits.cap.raw % 100 = 0 ∧
      limits.available.raw ≤ cashBound := by
  unfold readSizing at h
  obtain ⟨_, -, h1⟩ := bind_eq_ok h
  obtain ⟨cap, hcap, h2⟩ := bind_eq_ok h1
  split_ifs at h2 with hgrid
  · cases h2
  obtain ⟨step, -, h3⟩ := bind_eq_ok h2
  split_ifs at h3 with hstep
  · cases h3
  obtain ⟨available, havailable, h4⟩ := bind_eq_ok h3
  obtain ⟨minimumMargin, -, h5⟩ := bind_eq_ok h4
  obtain ⟨maxEvaluations, -, h6⟩ := bind_eq_ok h5
  clear h h1 h2 h3 h4 h5
  have hcapLe := (integer_eq_ok hcap).2
  have havailableLe := (integer_eq_ok havailable).2
  split at h6
  · rename_i cap' step' available' minimumMargin' hcap' _ havailable' _
    obtain rfl := Except.ok.inj h6
    rw [Quantity.fromRaw_eq_some_iff] at hcap'
    have hcash : available'.raw = available := by
      unfold Cash.fromRaw at havailable'
      split_ifs at havailable'
      obtain rfl := Option.some.inj havailable'
      rfl
    dsimp only
    rw [hcash, cashBound]
    omega
  · cases h6

/-- Every market has a fee policy when as many distinct ones were read. -/
theorem fee_valid {fees : List (MarketId × FeePolicy)} (hnodup : (fees.map Prod.fst).Nodup)
    (hknown : ∀ entry ∈ fees, entry.1 ∈ marketIds) (hvalid : ∀ entry ∈ fees, entry.2.Valid)
    (hlength : fees.length = marketIds.length) :
    ∀ marketId ∈ marketIds, ((fees.lookup marketId).getD ⟨0, 0⟩).Valid := by
  intro marketId hmarket
  have hsubset : fees.map Prod.fst ⊆ marketIds := fun id hid => by
    obtain ⟨entry, hentry, rfl⟩ := List.mem_map.mp hid
    exact hknown entry hentry
  have hperm : (fees.map Prod.fst).Perm marketIds :=
    (hnodup.subperm hsubset).perm_of_length_le (by simp [hlength])
  cases hlookup : fees.lookup marketId with
  | none =>
    rw [List.lookup_eq_none_iff] at hlookup
    obtain ⟨entry, hentry, rfl⟩ := List.mem_map.mp (hperm.mem_iff.mpr hmarket)
    simpa using hlookup entry hentry
  | some fee =>
    obtain ⟨before, after, rfl, -⟩ := List.lookup_eq_some_iff.mp hlookup
    exact hvalid (marketId, fee) (by simp)

theorem readFees_eq_ok {rows : List Json} {fees : List (MarketId × FeePolicy)}
    (h : rows.foldlM (readFee marketIds) [] = .ok fees) :
    (fees.map Prod.fst).Nodup ∧ (∀ entry ∈ fees, entry.1 ∈ marketIds) ∧
      ∀ entry ∈ fees, entry.2.Valid := by
  refine runExcept_invariant (P := fun fees : List (MarketId × FeePolicy) =>
    (fees.map Prod.fst).Nodup ∧ (∀ entry ∈ fees, entry.1 ∈ marketIds) ∧
      ∀ entry ∈ fees, entry.2.Valid) (fun fees row next hfees hnext => ?_)
    (by simp) h
  obtain ⟨entry, rfl, hknown, hnew, hvalid⟩ := readFee_eq_ok hnext
  refine ⟨?_, ?_, ?_⟩
  · rw [List.map_append, List.nodup_append]
    refine ⟨hfees.1, List.pairwise_singleton _ _, ?_⟩
    rintro value hvalue _ hlast rfl
    obtain rfl := List.mem_singleton.mp hlast
    exact hnew hvalue
  · exact List.forall_mem_append.mpr ⟨hfees.2.1, by simpa using hknown⟩
  · exact List.forall_mem_append.mpr ⟨hfees.2.2, by simpa using hvalid⟩

/-- **A loaded screen is valid.** -/
theorem parseScreen_valid {json : Json} {screen : BasketScreen}
    (h : parseScreen metadata json = .ok screen) : screen.Valid := by
  unfold parseScreen at h
  obtain ⟨_, -, h1⟩ := bind_eq_ok h
  obtain ⟨schema, -, h2⟩ := bind_eq_ok h1
  obtain ⟨asOf, -, h3⟩ := bind_eq_ok h2
  clear h h1 h2
  dsimp only at h3
  generalize hbooks : (match json.field "books" with
    | .array [] => true
    | _ => false) = noBooks at h3
  split_ifs at h3 with hmode
  · cases h3
  obtain ⟨_, -, h4⟩ := bind_eq_ok h3
  obtain ⟨_, -, h5⟩ := bind_eq_ok h4
  obtain ⟨totalBudget, -, h6⟩ := bind_eq_ok h5
  obtain ⟨limits, hlimits, h7⟩ := bind_eq_ok h6
  clear h3 h4 h5 h6
  split_ifs at h7 with hbudget
  · cases h7
  obtain ⟨rows, -, h8⟩ := bind_eq_ok h7
  clear h7
  split_ifs at h8 with hcount
  · cases h8
  obtain ⟨markets, hmarkets, h9⟩ := bind_eq_ok h8
  clear h8
  split at h9
  · rename_i feeRows _
    split_ifs at h9 with hcoverage
    · cases h9
    obtain ⟨fees, hfees, h10⟩ := bind_eq_ok h9
    obtain ⟨basketRows, -, h11⟩ := bind_eq_ok h10
    obtain ⟨⟨baskets, semantics⟩, hbaskets, h12⟩ := bind_eq_ok h11
    clear h9 h10 h11
    dsimp only at h12
    split_ifs at h12 with hunused
    · cases h12
    obtain rfl := Except.ok.inj h12
    obtain ⟨hcapLe, hcapGe, hcapDvd, havailable⟩ := readSizing_eq_ok hlimits
    obtain ⟨hfeesNodup, hfeesKnown, hfeesValid⟩ := readFees_eq_ok hfees
    have hread : ReadBaskets (markets.map ScreenMarket.id) (baskets, semantics) :=
      runExcept_invariant (fun state row next hstate hnext => hstate.readBasket hnext)
        ⟨by simp, by simp, by simp, by simp, by simp⟩ hbaskets
    have hlength : fees.length = (markets.map ScreenMarket.id).length := by
      rw [List.length_map, ← not_not.mp hcoverage, ← Nat.zero_add feeRows.length]
      refine runExcept_length (fun fees row next hnext => ?_) hfees
      obtain ⟨entry, rfl, -⟩ := readFee_eq_ok hnext
      simp
    have hperm := List.mergeSort_perm baskets fun left right => decide (left.id ≤ right.id)
    exact ⟨hcapLe, hcapGe, hcapDvd, havailable, (hperm.map _).nodup_iff.mpr hread.ids_nodup,
      fun basket hmem => hread.geometry basket (hperm.mem_iff.mp hmem),
      fun basket hmem => hread.distinct basket (hperm.mem_iff.mp hmem),
      fun basket hmem => hread.known basket (hperm.mem_iff.mp hmem),
      ⟨fun marketId => semantics.lookup marketId,
        fun basket hmem => hread.meanings basket (hperm.mem_iff.mp hmem)⟩,
      fee_valid hfeesNodup hfeesKnown hfeesValid hlength⟩
  · cases h9

/-- The screen of a loaded policy is valid. -/
theorem parseObservationPolicy_valid {library : JsonLibrary} {sha256 : List UInt8 → String}
    {bytes : List UInt8} {policy : BasketPolicy}
    (h : parseObservationPolicy library sha256 metadata bytes = .ok policy) :
    policy.screen.Valid := by
  unfold parseObservationPolicy at h
  obtain ⟨json, -, h⟩ := bind_eq_ok h
  obtain ⟨_, -, h⟩ := bind_eq_ok h
  obtain ⟨_, -, h⟩ := bind_eq_ok h
  obtain ⟨_, -, h⟩ := bind_eq_ok h
  obtain ⟨_, -, h⟩ := bind_eq_ok h
  split at h
  · cases h
  obtain ⟨_, -, h⟩ := bind_eq_ok h
  obtain ⟨_, -, h⟩ := bind_eq_ok h
  split at h
  · cases h
  obtain ⟨_, -, h⟩ := bind_eq_ok h
  obtain ⟨_, -, h⟩ := bind_eq_ok h
  obtain ⟨_, -, h⟩ := bind_eq_ok h
  split at h
  · cases h
  obtain ⟨screen, hscreen, h⟩ := bind_eq_ok h
  obtain rfl := Except.ok.inj h
  exact parseScreen_valid hscreen

end Load

end EventMarket.Session
