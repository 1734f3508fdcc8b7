import EventMarket.Gateway.JsonText
import EventMarket.Session.BasketStatement
import Mathlib.Algebra.Order.Ring.Defs
import Mathlib.Algebra.BigOperators.Fin

/-!
# The floor of the completed baskets

All markets settle on one common scalar, or all of them settle NO. A completed basket then pays for
at least two of its three legs, so the floor of a scenario is covered by the baskets that its rows
tell it holds.

## Main definitions

* `Meaning.Holds`, `BasketScreen.SettlesYes`: how the markets settle.
* `Position.payout`: what a position is paid.

## Main results

* `two_legs_pay`: a basket pays for two legs in every settlement.
* `conditional_floor_sound`: the floor and the conditional net of a scenario are lower bounds.
-/

namespace EventMarket.Session

open Core Foundations Gateway Market

/-! ### Settlement -/

section Settlement

variable {K : Type*} [Ring K] [LinearOrder K] [IsStrictOrderedRing K]

/-- A threshold is passed strictly, a range includes its bounds. -/
def Meaning.Holds (scalar : K) : Meaning → Prop
  | .threshold bound => (bound : K) < scalar
  | .range lower upper => (lower : K) ≤ scalar ∧ scalar ≤ (upper : K)

/-- What a market of the screen means: as the first basket with it says. -/
def BasketScreen.meaning (screen : BasketScreen) (marketId : MarketId) : Option Meaning :=
  (screen.baskets.flatMap fun basket =>
    (List.finRange 3).map fun leg => (basket.markets leg, basket.meanings leg)).lookup marketId

/-- **The settlement**: by the common scalar, or all NO. -/
def BasketScreen.SettlesYes (screen : BasketScreen) (world : Option K)
    (marketId : MarketId) : Prop :=
  ∃ scalar ∈ world, ∃ meaning ∈ screen.meaning marketId, meaning.Holds scalar

/-- The first leg is YES, the others are NO. -/
def BasketScreen.LegPays (screen : BasketScreen) (world : Option K) (basket : ScreenBasket)
    (leg : Fin 3) : Prop :=
  leg = 0 ↔ screen.SettlesYes world (basket.markets leg)

open Classical in
/-- A contract that wins pays one dollar. -/
noncomputable def BasketScreen.basketPayout (screen : BasketScreen) (world : Option K)
    (basket : ScreenBasket) (holdings : Fin 3 → ℤ) : ℤ :=
  ∑ leg, if screen.LegPays world basket leg then holdings leg * 10000 else 0

/-- What a position is paid. -/
noncomputable def Position.payout (screen : BasketScreen) (world : Option K) (position : Position) :
    ℤ :=
  match screen.baskets.find? fun basket => decide (basket.id = position.basketId) with
  | some basket => screen.basketPayout world basket position.holdings
  | none => 0

variable {screen : BasketScreen} {basket : ScreenBasket} {world : Option K}

/-- **One meaning for every market**: what a market means is what it means in each basket. -/
theorem BasketScreen.Valid.meaning_eq (h : screen.Valid) (hbasket : basket ∈ screen.baskets)
    (leg : Fin 3) : screen.meaning (basket.markets leg) = some (basket.meanings leg) := by
  obtain ⟨semantics, hsemantics⟩ := h.meanings
  have hentries : ∀ entry ∈ screen.baskets.flatMap (fun basket =>
      (List.finRange 3).map fun leg => (basket.markets leg, basket.meanings leg)),
      semantics entry.1 = some entry.2 := by
    intro entry hentry
    obtain ⟨other, hother, hleg⟩ := List.mem_flatMap.mp hentry
    obtain ⟨otherLeg, -, rfl⟩ := List.mem_map.mp hleg
    exact hsemantics other hother otherLeg
  have hmem : (basket.markets leg, basket.meanings leg) ∈ screen.baskets.flatMap (fun basket =>
      (List.finRange 3).map fun leg => (basket.markets leg, basket.meanings leg)) :=
    List.mem_flatMap.mpr ⟨basket, hbasket, List.mem_map_of_mem (List.mem_finRange leg)⟩
  unfold BasketScreen.meaning
  generalize screen.baskets.flatMap (fun basket =>
    (List.finRange 3).map fun leg => (basket.markets leg, basket.meanings leg)) = entries at *
  induction entries with
  | nil => cases hmem
  | cons entry entries ih =>
    obtain ⟨hfirst, hrest⟩ := List.forall_mem_cons.mp hentries
    obtain ⟨marketId, meaning⟩ := entry
    rw [List.lookup_cons]
    by_cases heq : basket.markets leg = marketId
    · have hmeaning : semantics marketId = some (basket.meanings leg) :=
        heq ▸ hsemantics basket hbasket leg
      rw [heq, beq_self_eq_true]
      exact hfirst.symm.trans hmeaning
    · rw [beq_false_of_ne heq]
      rcases List.mem_cons.mp hmem with hhead | hmem
      · exact absurd (congrArg Prod.fst hhead) heq
      · exact ih hrest hmem

omit [IsStrictOrderedRing K] in
theorem BasketScreen.Valid.settlesYes_iff (h : screen.Valid) (hbasket : basket ∈ screen.baskets)
    (leg : Fin 3) : screen.SettlesYes world (basket.markets leg) ↔
      ∃ scalar ∈ world, (basket.meanings leg).Holds scalar := by
  simp [BasketScreen.SettlesYes, h.meaning_eq hbasket leg]

/-- **Two legs pay.** With `a < l ≤ u ≤ b` at most one leg of a basket loses, wherever the scalar
is, and also when all markets settle NO. -/
theorem two_legs_pay (h : screen.Valid) (hbasket : basket ∈ screen.baskets) (world : Option K) :
    ∃ leg other, leg ≠ other ∧ screen.LegPays world basket leg ∧
      screen.LegPays world basket other := by
  obtain ⟨hlower, hinterval, hupper⟩ := h.geometry basket hbasket
  have hsettles : ∀ leg, screen.SettlesYes world (basket.markets leg) ↔
      ∃ scalar ∈ world, (basket.meanings leg).Holds scalar := fun leg =>
        h.settlesYes_iff hbasket leg
  have hone : (1 : Fin 3) ≠ 0 := by decide
  have htwo : (2 : Fin 3) ≠ 0 := by decide
  cases world with
  | none => exact ⟨1, 2, by decide, by simp [BasketScreen.LegPays, hsettles],
      by simp [BasketScreen.LegPays, hsettles]⟩
  | some scalar =>
    have hlower' : (basket.lowerThreshold : K) < basket.intervalLower := by exact_mod_cast hlower
    have hupper' : (basket.intervalUpper : K) ≤ basket.upperThreshold := by exact_mod_cast hupper
    have hinterval' : (basket.intervalLower : K) ≤ basket.intervalUpper := by
      exact_mod_cast hinterval
    have hpays : ∀ leg, screen.LegPays (some scalar) basket leg ↔
        (leg = 0 ↔ (basket.meanings leg).Holds scalar) := by
      intro leg
      simp [BasketScreen.LegPays, hsettles]
    simp only [hpays]
    -- Below the first threshold both NO legs pay, above it the YES leg and one of the others.
    rcases le_or_gt scalar (basket.lowerThreshold : K) with hlow | habove
    · refine ⟨1, 2, by decide, iff_of_false hone ?_, iff_of_false htwo ?_⟩
      · exact not_lt.mpr (hlow.trans (hlower'.le.trans (hinterval'.trans hupper')))
      · exact fun hrange => absurd (hlow.trans_lt hlower') (not_lt.mpr hrange.1)
    · rcases le_or_gt scalar (basket.upperThreshold : K) with hlow | hhigh
      · exact ⟨0, 1, by decide, iff_of_true rfl habove, iff_of_false hone (not_lt.mpr hlow)⟩
      · refine ⟨0, 2, by decide, iff_of_true rfl habove, iff_of_false htwo fun hrange => ?_⟩
        exact absurd (hupper'.trans_lt hhigh) (not_lt.mpr hrange.2)

/-- A basket with all legs in one quantity is paid at least its floor. -/
theorem basketPayout_ge (h : screen.Valid) (hbasket : basket ∈ screen.baskets) (world : Option K)
    {holdings : Fin 3 → ℤ} (hnonneg : 0 ≤ holdings 0)
    (hequal : ∀ leg, holdings leg = holdings 0) :
    holdings 0 * 20000 ≤ screen.basketPayout world basket holdings := by
  classical
  obtain ⟨leg, other, hne, hleg, hother⟩ := two_legs_pay h hbasket world
  have hterm : ∀ place, 0 ≤ if screen.LegPays world basket place then holdings place * 10000
    else 0 := by
    intro place
    split_ifs
    · rw [hequal place]
      positivity
    · exact le_rfl
  unfold BasketScreen.basketPayout
  calc holdings 0 * 20000
      = ∑ place ∈ {leg, other},
          if screen.LegPays world basket place then holdings place * 10000 else 0 := by
        rw [Finset.sum_pair hne, if_pos hleg, if_pos hother, hequal leg, hequal other]
        ring
    _ ≤ ∑ place, if screen.LegPays world basket place then holdings place * 10000 else 0 :=
        Finset.sum_le_univ_sum_of_nonneg hterm

theorem Position.Complete.payout_ge {policy : BasketExecutionPolicy} {position : Position}
    (h : policy.basket.screen.Valid) (hposition : position.Complete policy) (world : Option K) :
    position.floor ≤ position.payout policy.basket.screen world := by
  obtain ⟨⟨basket, hbasket, hid⟩, hnonneg, hequal⟩ := hposition
  unfold Position.payout
  cases hfind : policy.basket.screen.baskets.find? fun basket =>
      decide (basket.id = position.basketId) with
  | none => simpa [hid] using List.find?_eq_none.mp hfind basket hbasket
  | some found =>
    exact basketPayout_ge h (List.mem_of_find?_eq_some hfind) world hnonneg hequal

end Settlement

/-! ### Whole runs -/

/-- What the completed baskets of a scenario are paid. -/
noncomputable def heldPayout {K : Type*} [Ring K] [LinearOrder K] (screen : BasketScreen)
    (world : Option K) (statement : Statement) : ℤ :=
  (statement.held.map fun position => position.payout screen world).sum

/-- **The floor is sound**: in a settlement the completed baskets are paid at least the floor, so
the cash and the floor are at most the final wealth, and a conditional net in the report is at most
the final profit. -/
structure FloorSound {K : Type*} [Ring K] [LinearOrder K] (policy : BasketExecutionPolicy)
    (world : Option K) (scenario : Scenario) (statement : Statement) : Prop where
  floor_le : scenario.floor ≤ heldPayout policy.basket.screen world statement
  wealth_ge : scenario.cash + scenario.floor ≤
    scenario.cash + heldPayout policy.basket.screen world statement
  net_le : ∀ net ∈ scenario.conditionalNet policy, net ≤
    scenario.cash + heldPayout policy.basket.screen world statement - policy.capital

theorem Told.floorSound {K : Type*} [Ring K] [LinearOrder K] [IsStrictOrderedRing K]
    {policy : BasketExecutionPolicy} {scenario : Scenario} {statement : Statement}
    (h : Told policy scenario statement) (hvalid : policy.basket.screen.Valid) (world : Option K) :
    FloorSound policy world scenario statement := by
  have hfloor : scenario.floor ≤ heldPayout policy.basket.screen world statement := by
    rw [h.floor_eq]
    exact List.sum_le_sum fun position hposition =>
      (h.complete position hposition).payout_ge hvalid world
  refine ⟨hfloor, by omega, fun net hnet => ?_⟩
  simp only [Scenario.conditionalNet] at hnet
  split at hnet
  · obtain rfl := Option.some.inj hnet
    omega
  · cases hnet

/-- A loaded study has a valid screen. -/
theorem loadBasketExecution_valid {library : JsonLibrary} {sha256 : List UInt8 → String}
    {metadata : MetadataSnapshot} {basketBytes policyBytes : List UInt8}
    {policy : BasketExecutionPolicy}
    (h : loadBasketExecution library sha256 metadata basketBytes policyBytes = .ok policy) :
    policy.basket.screen.Valid := by
  unfold loadBasketExecution at h
  obtain ⟨_, -, h⟩ := bind_eq_ok h
  obtain ⟨_, -, h⟩ := bind_eq_ok h
  obtain ⟨_, -, h⟩ := bind_eq_ok h
  obtain ⟨_, -, h⟩ := bind_eq_ok h
  split at h
  · cases h
  obtain ⟨_, -, h⟩ := bind_eq_ok h
  obtain ⟨_, -, h⟩ := bind_eq_ok h
  split at h
  · cases h
  split at h
  · split at h
    · cases h
    obtain ⟨basket, hbasket, h⟩ := bind_eq_ok h
    obtain ⟨_, -, h⟩ := bind_eq_ok h
    obtain rfl := Except.ok.inj h
    exact parseObservationPolicy_valid hbasket
  · cases h

/-- **The conditional floor is sound.** For a loaded policy and in every run, a scenario without
an open attempt is covered: whatever the common scalar is, or when all markets settle NO, the
completed baskets that its rows tell of are paid at least its floor. -/
theorem conditional_floor_sound {K : Type*} [Ring K] [LinearOrder K] [IsStrictOrderedRing K]
    {library : JsonLibrary} {sha256 : List UInt8 → String} {metadata : MetadataSnapshot}
    {basketBytes policyBytes : List UInt8} {policy : BasketExecutionPolicy}
    (hload : loadBasketExecution library sha256 metadata basketBytes policyBytes = .ok policy)
    {calls : List ObserverCall} {study : BasketExecution policy}
    (hrun : runExcept BasketExecution.step (.initial policy) calls = .ok study) (world : Option K) :
    (∀ index scenario, study.scenarios[index]? = some scenario → scenario.attempt = none →
      FloorSound policy world scenario (statementOf index study.trace)) ∧
    ∀ time final, study.finish time = .ok final → ∀ index scenario,
      final.scenarios[index]? = some scenario → scenario.attempt = none →
      FloorSound policy world scenario (statementOf index final.trace) := by
  have hvalid := loadBasketExecution_valid hload
  have hI := toldInvariant policy calls
  have hkeeps := hI.run.of_ok hrun
  refine ⟨fun index scenario hscenario _ => (hkeeps index scenario hscenario).2.floorSound hvalid
    world, fun time final hfinal index scenario hscenario _ => ?_⟩
  have hfinish := @RunInvariant.finish policy calls calls _ study time hI hkeeps
  exact (hfinish.of_ok hfinal index scenario hscenario).2.floorSound hvalid world

/-! ### A sample -/

def sampleBasketMetadata : MetadataSnapshot where
  markets :=
    { metadataVersion := 1
      marketIds := [("A", 1), ("B", 2), ("C", 3)]
      tickers := [(1, "A"), (2, "B"), (3, "C")] }
  constraints := {}
  canonicalJson := ascii "\x7b\x7d"

/-- One basket: YES above 10, NO above 40, NO from 20 to 30. -/
def sampleScreenJson : Json :=
  let market (id : ℕ) (ticker : String) : Json :=
    .object [("id", .unsigned id), ("ticker", .string ticker)]
  let fee (id : ℕ) : Json :=
    .object [("balance_quantum_micro", .unsigned 100), ("coefficient_ppm", .unsigned 0),
      ("market_id", .unsigned id)]
  .object [("as_of_ms", .unsigned 0),
    ("baskets", .array [.object [("id", .unsigned 7), ("interval_lower_cents", .unsigned 20),
      ("interval_upper_cents", .unsigned 30), ("key", .string "ABC"),
      ("lower_market_id", .unsigned 1), ("lower_threshold_cents", .unsigned 10),
      ("range_market_id", .unsigned 3), ("upper_market_id", .unsigned 2),
      ("upper_threshold_cents", .unsigned 40)]]),
    ("books", .array []), ("fees", .array [fee 1, fee 2, fee 3]),
    ("markets", .array [market 1 "A", market 2 "B", market 3 "C"]),
    ("max_age_ms", .unsigned 1), ("max_skew_ms", .unsigned 1),
    ("max_total_evaluations", .unsigned 100), ("schema_version", .unsigned 1),
    ("sizing", .object [("available_cash_micro", .unsigned 5000000),
      ("cap_centicontracts", .unsigned 100), ("max_evaluations", .unsigned 100),
      ("minimum_margin_micro", .unsigned 0), ("step_centicontracts", .unsigned 100)])]

def sampleMetadataHash : String :=
  "44136fa355b3678a1146ad16f7e8649e94fb4fc21fe77e8310c060f61caaff8a"

def sampleBasketHash : String :=
  "b1945fbeea34b27346e7521e73d41e2a6e9d8a5ce0c96e1c5dcac6a3c43f5d59"

def sampleBasketBytes : List UInt8 :=
  compactLibrary.dump (.object [("freshness_mode", .string "contiguous_shared_stream"),
    ("kind", .string "conditional_basket_observation"), ("max_episode_events", .unsigned 100),
    ("metadata_sha256", .string sampleMetadataHash),
    ("qualification_sha256", .string sampleMetadataHash), ("schema_version", .unsigned 1),
    ("screen", sampleScreenJson), ("valid_from_unix_ms", .unsigned 0),
    ("valid_until_unix_ms", .unsigned 1000)])

def sampleExecutionBytes : List UInt8 :=
  compactLibrary.dump (.object [("arrival_and_response_ms", .array [.unsigned 1]),
    ("basket_policy_sha256", .string sampleBasketHash),
    ("kind", .string "chronological_basket_execution"), ("max_attempts", .unsigned 1),
    ("minimum_margin_micro", .unsigned 1), ("schema_version", .unsigned 1)])

/-- The SHA-256 digests of the two documents. -/
def sampleBasketSha256 (bytes : List UInt8) : String :=
  if bytes = sampleBasketMetadata.canonicalJson then sampleMetadataHash else sampleBasketHash

/-- The basket is offered from 3 on, and its three legs are bought by 6000003. -/
def sampleExecutionCalls : List ObserverCall :=
  let half : Price := .capped 5000
  let high : Price := .capped 8000
  let lot : Quantity := .capped 100
  replayCalls (({ scope := .sharedStream } : MarketState).openConnection 1).1
    [(0, 1, .snapshot ⟨1, 1, 1, 1, 0, [], [⟨half, lot⟩]⟩),
      (1, 2, .snapshot ⟨2, 1, 1, 2, 0, [⟨high, lot⟩], []⟩),
      (2, 3, .snapshot ⟨3, 1, 1, 3, 0, [], []⟩),
      (3, 3, .delta ⟨3, 1, 1, 4, 0, .bid, high, ⟨100⟩⟩),
      (6000003, 3, .delta ⟨3, 1, 1, 5, 0, .bid, half, ⟨100⟩⟩)]

/-- One basket of 100 is completed; with the scalar at 25 its NO range leg loses. -/
theorem conditional_floor_sound_sample :
    ∃ policy study scenario,
      loadBasketExecution compactLibrary sampleBasketSha256 sampleBasketMetadata sampleBasketBytes
        sampleExecutionBytes = .ok policy ∧
      runExcept BasketExecution.step (.initial policy) sampleExecutionCalls = .ok study ∧
      study.scenarios[0]? = some scenario ∧ scenario.floor = 2000000 ∧
      FloorSound policy (some (25 : ℤ)) scenario (statementOf 0 study.trace) := by
  have hrun : (loadBasketExecution compactLibrary sampleBasketSha256 sampleBasketMetadata
      sampleBasketBytes sampleExecutionBytes).toOption.bind (fun policy =>
        (runExcept BasketExecution.step (.initial policy) sampleExecutionCalls).toOption.map
          fun study => study.scenarios.map fun scenario =>
            (scenario.attempt.isNone, scenario.floor)) = some [(true, 2000000)] := by decide +kernel
  cases hload : loadBasketExecution compactLibrary sampleBasketSha256 sampleBasketMetadata
      sampleBasketBytes sampleExecutionBytes with
  | error error => simp [hload, Except.toOption] at hrun
  | ok policy =>
  rw [hload] at hrun
  change (runExcept BasketExecution.step (.initial policy) sampleExecutionCalls).toOption.map _ = _
    at hrun
  cases hstudy : runExcept BasketExecution.step (.initial policy) sampleExecutionCalls with
  | error error => simp [hstudy, Except.toOption] at hrun
  | ok study =>
  rw [hstudy] at hrun
  obtain ⟨scenario, hscenario, hvalues⟩ := List.map_eq_singleton_iff.mp (Option.some.inj hrun)
  simp only [Prod.mk.injEq, Option.isNone_iff_eq_none] at hvalues
  have hindex : study.scenarios[0]? = some scenario := by simp [hscenario]
  exact ⟨policy, study, scenario, rfl, hstudy, hindex, hvalues.2,
    (conditional_floor_sound hload hstudy (some (25 : ℤ))).1 0 scenario hindex hvalues.1⟩

end EventMarket.Session
