import EventMarket.Gateway.MetadataCanonical
import EventMarket.Session.BasketScreen
import EventMarket.Session.LegacyStudy

/-!
# The policy file of the study

The study reads its policy from a file, in one of four schemas: the third one has a lifecycle, and
the fourth one residual exits too. Every number is bounded, every market of a constraint has fees,
and the settlements may not contradict a constraint.

## Main definitions

* `loadPolicy`: loading.
* `StudyPolicy.Accepted`, `LifecyclePolicy.Accepted`: what the loader has checked.

## Main results

* `loadPolicy_accepted`: a loaded policy has it.
* `loaded_policy_simulates`: a loaded policy with a lifecycle can be simulated.
-/

namespace EventMarket.Session

open Constraint Core Foundations Gateway Market

/-! ### Fields -/

/-- A text that may be missing. -/
def textOr (value : Json) (field default : String) : Except StudyException String :=
  match value.find field with
  | none => .ok default
  | some (.string text) => .ok text
  | some _ => .error .json

/-- An object without a field. -/
def Json.erase (value : Json) (field : String) : Json :=
  match value with
  | .object fields => .object (fields.filter fun entry => entry.1 != field)
  | other => other

def readLatency (value : Json) : Except StudyException ℕ :=
  integer (.object [("latency", value)]) "latency" cashLimit

def readReject : Json → Except StudyException Bool
  | .boolean reject => .ok reject
  | _ => invalid "reject_legs"

def readFlag (field : String) : Json → Except StudyException Bool
  | .boolean value => .ok value
  | _ => invalid field

/-- The latencies and the rejections of the two legs. -/
def readLegs (root : Json) : Except StudyException ((Fin 2 → ℕ) × (Fin 2 → Bool)) :=
  match root.field "leg_latency_ns", root.field "reject_legs" with
  | .array [first, second], .array [rejectFirst, rejectSecond] => do
    let latencyFirst ← readLatency first
    let rejectFirst ← readReject rejectFirst
    let latencySecond ← readLatency second
    let rejectSecond ← readReject rejectSecond
    .ok (![latencyFirst, latencySecond], ![rejectFirst, rejectSecond])
  | _, _ => invalid "leg policy"

/-! ### Fees -/

/-- The fee policy of one more market. -/
def readStudyFee (markets : MarketRegistry) (fees : List (MarketId × FeePolicy)) (item : Json) :
    Except StudyException (List (MarketId × FeePolicy)) := do
  studyShape item ["market_id", "coefficient_ppm", "balance_quantum_micro"]
  let id ← integer item "market_id" uint32Max
  let coefficientPpm ← integer item "coefficient_ppm" 1000000
  let balanceQuantumMicro ← integer item "balance_quantum_micro" 10000
  if markets.findTicker id = none ∨ (balanceQuantumMicro ≠ 100 ∧ balanceQuantumMicro ≠ 10000) ∨
      id ∈ fees.map Prod.fst then invalid "fee market/quantum"
  else .ok (fees ++ [(id, ⟨coefficientPpm, balanceQuantumMicro⟩)])

/-- The fee policies; every market of a constraint has one. -/
def readFees (metadata : MetadataSnapshot) (root : Json) :
    Except StudyException (List (MarketId × FeePolicy)) :=
  match root.field "fees" with
  | .array items =>
    if metadata.markets.tickers.length < items.length then invalid "fees"
    else do
      let fees ← items.foldlM (readStudyFee metadata.markets) []
      if ∀ id ∈ metadata.constraints.sortedIds, ∀ compiled ∈ metadata.constraints.find id,
          ∀ marketId ∈ compiled.dependentMarkets, marketId ∈ fees.map Prod.fst then .ok fees
      else invalid "missing market fee policy"
  | _ => invalid "fees"

/-! ### The lifecycle -/

/-- The settlement of one more market. -/
def readSettlement (markets : MarketRegistry) (settlements : List Settlement) (value : Json) :
    Except StudyException (List Settlement) := do
  studyShape value ["market_id", "yes_wins", "time_ns", "provenance"]
  let marketId ← integer value "market_id" uint32Max
  match markets.findTicker marketId, value.field "yes_wins" with
  | some _, .boolean yesWins =>
    if marketId ∈ settlements.map Settlement.marketId then invalid "duplicate settlement"
    else do
      let _ ← string value "provenance"
      let time ← integer value "time_ns"
      .ok (settlements ++ [⟨marketId, yesWins, time⟩])
  | _, _ => invalid "settlement market/outcome"

/-- The settlements allow a world: no market of it settles otherwise. -/
def Allows (settlements : List Settlement) (world : WorldState) : Prop :=
  ∀ assignment ∈ world, ∀ settlement ∈ settlements,
    settlement.marketId = assignment.marketId → settlement.yesWins = assignment.settlesYes

instance (settlements : List Settlement) (world : WorldState) :
    Decidable (Allows settlements world) :=
  inferInstanceAs (Decidable (∀ assignment ∈ world, _))

/-- The settlements in the order of their times. -/
def sortSettlements (settlements : List Settlement) : List Settlement :=
  settlements.mergeSort fun settlement next => decide (settlement.time < next.time ∨
    settlement.time = next.time ∧ settlement.marketId ≤ next.marketId)

/-- The settlements; they may be incomplete, but leave every constraint a world. -/
def readSettlements (metadata : MetadataSnapshot) (config : Json) :
    Except StudyException (List Settlement) :=
  match config.field "settlements" with
  | .array items =>
    if metadata.markets.tickers.length < items.length then invalid "settlements"
    else do
      let settlements ← items.foldlM (readSettlement metadata.markets) []
      if ∀ id ∈ metadata.constraints.sortedIds, ∀ compiled ∈ metadata.constraints.find id,
          ∃ world ∈ compiled.validWorlds, Allows settlements world then
        .ok (sortSettlements settlements)
      else invalid "settlement contradicts reviewed relationship"
  | _ => invalid "settlements"

def readResponses (config : Json) : Except StudyException (Fin 2 → ℕ) :=
  match config.field "response_latency_ns" with
  | .array [first, second] => do
    let first ← readLatency first
    let second ← readLatency second
    .ok ![first, second]
  | _ => invalid "response latency"

def readLifecycle (metadata : MetadataSnapshot) (config : Json) :
    Except StudyException LifecyclePolicy := do
  studyShape config ["execution_policy", "first_leg", "response_latency_ns",
    "completion_timeout_ns", "completion_loss_limit_micro_usd", "maximum_completion_orders",
    "settlements"]
  let name ← string config "execution_policy"
  if name ≠ "parallel_hold" ∧ name ≠ "sequential_complete" then invalid "execution_policy"
  else do
    let firstLeg ← integer config "first_leg" 1
    let responseLatency ← readResponses config
    let completionTimeout ← integer config "completion_timeout_ns" cashLimit
    let completionLossLimit ←
      integer config "completion_loss_limit_micro_usd" cashLimit
    let maximumCompletionOrders ← integer config "maximum_completion_orders" 4
    if maximumCompletionOrders = 0 then invalid "completion order budget"
    else do
      let settlements ← readSettlements metadata config
      .ok { sequential := name == "sequential_complete", reverseLegs := firstLeg == 1,
            responseLatency, completionTimeout, completionLossLimit, maximumCompletionOrders,
            settlements }

def readResidualExit (config : Json) : Except StudyException ResidualExitPolicy := do
  studyShape config ["mode", "arrival_latency_ns", "response_latency_ns", "timeout_ns",
    "minimum_price_1e4", "reject", "available_liquidity_bps"]
  let mode ← string config "mode"
  if mode ≠ "hold" ∧ mode ≠ "reduce_once" then invalid "residual exit mode"
  else do
    let reject ← readFlag "residual exit rejection" (config.field "reject")
    let latency ← integer config "arrival_latency_ns" cashLimit
    let responseLatency ← integer config "response_latency_ns" cashLimit
    let timeout ← integer config "timeout_ns" cashLimit
    let minimumPrice ← integer config "minimum_price_1e4" 10000
    let fillBps ← integer config "available_liquidity_bps" 10000
    .ok { reduce := mode == "reduce_once", reject, latency, responseLatency, timeout,
          minimumPrice, fillBps }

/-! ### Policies -/

/-- What the schema and the strategy of a policy ask for. -/
structure PolicyKind where
  optimal : Bool
  lifecycle : Bool
  residualExit : Bool
  deriving DecidableEq, Repr

def readKind (root : Json) : Except StudyException PolicyKind := do
  let version ← integer root "schema_version"
  let strategy ← readIf (version = 1 ∨ version = 2 ∨ version = 3 ∨ version = 4)
    (textOr root "strategy" "") ""
  if version = 4 ∧ strategy = "residual_exit_v4" then .ok ⟨true, true, true⟩
  else if version = 3 ∧ strategy = "execution_lifecycle_v3" then .ok ⟨true, true, false⟩
  else if version = 2 ∧ strategy = "one_attempt_net_profit_v2" then .ok ⟨true, false, false⟩
  else if version = 1 ∧ strategy = "one_attempt_per_constraint_v1" then
    .ok ⟨false, false, false⟩
  else invalid "policy schema/strategy"

/-- The fields that are common to all schemas. -/
def commonShape (kind : PolicyKind) (root : Json) : Json :=
  let root := if kind.residualExit then Json.erase root "residual_exit" else root
  let root := if kind.lifecycle then Json.erase root "lifecycle" else root
  if kind.optimal then Json.erase root "max_sizing_evaluations" else root

/-- The budget of the sizing, which only optimal sizing has. -/
def readBudget (kind : PolicyKind) (root : Json) : Except StudyException ℕ :=
  if kind.optimal then do
    let budget ← integer root "max_sizing_evaluations" 1000000
    if budget = 0 then invalid "sizing evaluation budget" else .ok budget
  else .ok 0

/-- A part of the policy that only some schemas have. -/
def readPart {α : Type} (present : Bool) (root : Json) (field : String)
    (read : Json → Except StudyException α) : Except StudyException (Option α) :=
  if present then do
    let config ← Json.fieldAt root field
    let part ← read config
    .ok (some part)
  else .ok none

def readPolicy (metadata : MetadataSnapshot) (root : Json) : Except StudyException StudyPolicy := do
  let kind ← readKind root
  studyShape (commonShape kind root) ["schema_version", "strategy", "fee_provenance",
    "capital_micro_usd", "operating_cost_micro_usd", "quantity_cap_centicontracts",
    "quantity_step_centicontracts", "min_margin_micro_usd", "max_book_age_ns", "leg_latency_ns",
    "reject_legs", "available_liquidity_bps", "fees"]
  let _ ← string root "fee_provenance"
  let maxSizingEvaluations ← readBudget kind root
  let capital ← integer root "capital_micro_usd" cashLimit
  let operatingCost ← integer root "operating_cost_micro_usd" cashLimit
  let quantityCap ← integer root "quantity_cap_centicontracts" quantityLimit
  let quantityStep ← integer root "quantity_step_centicontracts" 100
  let minMargin ← integer root "min_margin_micro_usd" cashLimit
  let maxAge ← integer root "max_book_age_ns" cashLimit
  let fillBps ← integer root "available_liquidity_bps" 10000
  if capital = 0 ∨ quantityCap = 0 ∨ (quantityStep ≠ 1 ∧ quantityStep ≠ 100) ∨
      quantityCap < quantityStep then invalid "policy bounds/grid"
  else do
    let (latency, reject) ← readLegs root
    let fees ← readFees metadata root
    let lifecycle ← readPart kind.lifecycle root "lifecycle" (readLifecycle metadata)
    let residualExit ← readPart kind.residualExit root "residual_exit" readResidualExit
    .ok { lifecycle, residualExit, optimalSizing := kind.optimal, maxSizingEvaluations
          capital := .capped capital, operatingCost, quantityCap := .capped quantityCap
          quantityStep := .capped quantityStep, minMargin := .capped minMargin, maxAge, latency
          reject, fillBps, fees := fun marketId => (fees.lookup marketId).getD ⟨0, 0⟩ }

/-- The policy in the bytes of a file. -/
def loadPolicy (library : JsonLibrary) (metadata : MetadataSnapshot) (bytes : List UInt8) :
    Except StudyException StudyPolicy := do
  let root ← parseStrict library bytes
  readPolicy metadata root

/-! ### What the loader has checked -/

/-- **An accepted lifecycle.** The settlements come in the order of their times, at most one for
each market, and leave every constraint a world. -/
structure LifecyclePolicy.Accepted (metadata : MetadataSnapshot) (policy : LifecyclePolicy) :
    Prop where
  responses : ∀ leg, policy.responseLatency leg ≤ cashLimit
  timeout : policy.completionTimeout ≤ cashLimit
  lossLimit : policy.completionLossLimit ≤ cashLimit
  orders : 1 ≤ policy.maximumCompletionOrders ∧ policy.maximumCompletionOrders ≤ 4
  chronological : policy.settlements.Pairwise fun settlement next => settlement.time ≤ next.time
  distinct : (policy.settlements.map Settlement.marketId).Nodup
  known : ∀ settlement ∈ policy.settlements,
    (metadata.markets.findTicker settlement.marketId).isSome
  allowed : ∀ id compiled, metadata.constraints.find id = some compiled →
    ∃ world ∈ compiled.validWorlds, Allows policy.settlements world

/-- An accepted residual exit. -/
structure ResidualExitPolicy.Accepted (policy : ResidualExitPolicy) : Prop where
  latencies : policy.latency ≤ cashLimit ∧ policy.responseLatency ≤ cashLimit
  timeout : policy.timeout ≤ cashLimit
  minimumPrice : policy.minimumPrice ≤ 10000
  fillBps : policy.fillBps ≤ 10000

/-- **An accepted policy.** Its numbers are bounded, the markets of all constraints have valid
fees, and a lifecycle is only simulated with optimal sizing, residual exits only with a
lifecycle. -/
structure StudyPolicy.Accepted (metadata : MetadataSnapshot) (policy : StudyPolicy) : Prop where
  capital : 0 < policy.capital.raw ∧ policy.capital.raw ≤ cashLimit
  operatingCost : policy.operatingCost ≤ cashLimit
  cap_le : policy.quantityCap.raw ≤ quantityLimit
  step_eq : policy.quantityStep.raw = 1 ∨ policy.quantityStep.raw = 100
  step_le : policy.quantityStep.raw ≤ policy.quantityCap.raw
  minMargin : policy.minMargin.raw ≤ cashLimit
  maxAge : policy.maxAge ≤ cashLimit
  latency : ∀ leg, policy.latency leg ≤ cashLimit
  fillBps : policy.fillBps ≤ 10000
  fees : ∀ id compiled, metadata.constraints.find id = some compiled →
    ∀ marketId ∈ compiled.dependentMarkets, (policy.fees marketId).Valid
  budget : policy.optimalSizing = true →
    0 < policy.maxSizingEvaluations ∧ policy.maxSizingEvaluations ≤ 1000000
  lifecycle : ∀ lifecycle, policy.lifecycle = some lifecycle →
    policy.optimalSizing = true ∧ lifecycle.Accepted metadata
  residualExit : ∀ exit, policy.residualExit = some exit →
    policy.lifecycle.isSome = true ∧ exit.Accepted

section Load

variable {metadata : MetadataSnapshot}

/-- What a reader yields when it does not fail. -/
abbrev Reads {α : Type} (P : α → Prop) (x : Except StudyException α) : Prop :=
  Yields (fun _ => True) P x

theorem reads_any {α : Type} (x : Except StudyException α) : Reads (fun _ => True) x := by
  cases x <;> trivial

theorem reads_integer (value : Json) (field : String) (maximum : ℕ) :
    Reads (fun number => number ≤ maximum) (integer value field maximum) := by
  cases h : integer value field maximum with
  | error error => trivial
  | ok number => exact (integer_eq_ok h).2

theorem reads_latency (value : Json) : Reads (fun latency => latency ≤ cashLimit)
    (readLatency value) :=
  reads_integer _ _ _

theorem reads_legs (root : Json) :
    Reads (fun legs => ∀ leg, legs.1 leg ≤ cashLimit) (readLegs root) := by
  unfold readLegs
  split
  · refine Yields.bind (reads_latency _) fun first _ hfirst => ?_
    refine Yields.bind (reads_any _) fun _ _ _ => ?_
    refine Yields.bind (reads_latency _) fun second _ hsecond => ?_
    refine Yields.bind (reads_any _) fun _ _ _ => ?_
    exact Fin.forall_fin_two.mpr ⟨hfirst, hsecond⟩
  · trivial

/-- One more fee policy is valid. -/
theorem reads_fee (fees : List (MarketId × FeePolicy)) (item : Json)
    (h : ∀ entry ∈ fees, entry.2.Valid) :
    Reads (fun next => ∀ entry ∈ next, entry.2.Valid)
      (readStudyFee metadata.markets fees item) := by
  refine Yields.bind (reads_any _) fun _ _ _ => ?_
  refine Yields.bind (reads_any _) fun id _ _ => ?_
  refine Yields.bind (reads_integer _ _ _) fun coefficientPpm _ hcoefficient => ?_
  refine Yields.bind (reads_any _) fun balanceQuantumMicro _ _ => ?_
  split
  · trivial
  next hchecked =>
  intro entry hentry
  rcases List.mem_append.mp hentry with hmem | hmem
  · exact h entry hmem
  · obtain rfl := List.mem_singleton.mp hmem
    refine ⟨hcoefficient, ?_⟩
    by_contra hquantum
    exact hchecked (.inr (.inl (not_or.mp hquantum)))

theorem lookup_valid {fees : List (MarketId × FeePolicy)} (h : ∀ entry ∈ fees, entry.2.Valid)
    {marketId : MarketId} (hmem : marketId ∈ fees.map Prod.fst) :
    ((fees.lookup marketId).getD ⟨0, 0⟩).Valid := by
  induction fees with
  | nil => cases hmem
  | cons entry fees ih =>
    obtain ⟨hfirst, hrest⟩ := List.forall_mem_cons.mp h
    rw [List.lookup_cons]
    by_cases heq : marketId = entry.1
    · simpa [heq] using hfirst
    · rw [beq_eq_false_iff_ne.mpr heq]
      exact ih hrest ((List.mem_cons.mp hmem).resolve_left heq)

/-- **The fees** are valid for every market of a constraint. -/
theorem reads_fees (root : Json) :
    Reads (fun fees => ∀ id ∈ metadata.constraints.sortedIds,
        ∀ compiled ∈ metadata.constraints.find id, ∀ marketId ∈ compiled.dependentMarkets,
        ((fees.lookup marketId).getD ⟨0, 0⟩).Valid) (readFees metadata root) := by
  unfold readFees
  split
  · next items _ =>
    split
    · trivial
    have hvalid : Reads (fun fees => ∀ entry ∈ fees, entry.2.Valid)
        (items.foldlM (readStudyFee metadata.markets) []) :=
      Yields.foldlM (I := fun _ fees => ∀ entry ∈ fees, entry.2.Valid)
        (fun _ hmem => absurd hmem List.not_mem_nil) fun _ item _ fees hfees =>
          reads_fee fees item hfees
    refine Yields.bind hvalid fun fees _ hfees => ?_
    split
    · next hcovered =>
      exact fun id hid compiled hcompiled marketId hmem =>
        lookup_valid hfees (hcovered id hid compiled hcompiled marketId hmem)
    · trivial
  · trivial

/-- The settlements of different known markets. -/
structure SettlementsOf (markets : MarketRegistry) (settlements : List Settlement) : Prop where
  distinct : (settlements.map Settlement.marketId).Nodup
  known : ∀ settlement ∈ settlements, (markets.findTicker settlement.marketId).isSome

theorem reads_settlement {settlements : List Settlement} (value : Json)
    (h : SettlementsOf metadata.markets settlements) :
    Reads (SettlementsOf metadata.markets)
      (readSettlement metadata.markets settlements value) := by
  refine Yields.bind (reads_any _) fun _ _ _ => ?_
  refine Yields.bind (reads_any _) fun marketId _ _ => ?_
  split
  · next ticker yesWins hticker _ =>
    split
    · trivial
    next hnew =>
    refine Yields.bind (reads_any _) fun _ _ _ => ?_
    refine Yields.bind (reads_any _) fun time _ _ => ?_
    refine ⟨?_, fun settlement hmem => ?_⟩
    · rw [List.map_append]
      refine List.nodup_append.mpr ⟨h.distinct, List.nodup_singleton _, ?_⟩
      rintro known hknown other hother rfl
      rw [List.mem_singleton.mp hother] at hknown
      exact hnew hknown
    · rcases List.mem_append.mp hmem with hbefore | hlast
      · exact h.known settlement hbefore
      · rw [List.mem_singleton.mp hlast, hticker]
        rfl
  · trivial

/-- The order of two settlements. -/
theorem sortSettlements_sorted (settlements : List Settlement) :
    (sortSettlements settlements).Pairwise fun settlement next => settlement.time ≤ next.time := by
  refine (List.pairwise_mergeSort ?_ ?_ settlements).imp ?_
  · intro first second third
    simp only [decide_eq_true_eq]
    rintro (hlt | ⟨heq, hle⟩) (hlt' | ⟨heq', hle'⟩)
    · exact .inl (hlt.trans hlt')
    · exact .inl (hlt.trans_eq heq')
    · exact .inl (heq.trans_lt hlt')
    · exact .inr ⟨heq.trans heq', hle.trans hle'⟩
  · intro first second
    simp only [Bool.or_eq_true, decide_eq_true_eq]
    rcases Nat.lt_trichotomy first.time second.time with hlt | heq | hlt
    · exact .inl (.inl hlt)
    · exact (Nat.le_total first.marketId second.marketId).imp (fun hle => .inr ⟨heq, hle⟩)
        fun hle => .inr ⟨heq.symm, hle⟩
    · exact .inr (.inl hlt)
  · intro first second
    simp only [decide_eq_true_eq]
    rintro (hlt | ⟨heq, -⟩)
    · exact hlt.le
    · exact heq.le

/-- **The settlements** are in order and leave every constraint a world. -/
theorem reads_settlements (config : Json) :
    Reads (fun settlements => SettlementsOf metadata.markets settlements ∧
        settlements.Pairwise (fun settlement next => settlement.time ≤ next.time) ∧
        ∀ id ∈ metadata.constraints.sortedIds, ∀ compiled ∈ metadata.constraints.find id,
          ∃ world ∈ compiled.validWorlds, Allows settlements world)
      (readSettlements metadata config) := by
  unfold readSettlements
  split
  · next items _ =>
    split
    · trivial
    have hread : Reads (SettlementsOf metadata.markets)
        (items.foldlM (readSettlement metadata.markets) []) :=
      Yields.foldlM (I := fun _ settlements => SettlementsOf metadata.markets settlements)
        ⟨List.nodup_nil, fun _ hmem => absurd hmem List.not_mem_nil⟩
        fun _ value _ settlements hsettlements => reads_settlement value hsettlements
    refine Yields.bind hread fun settlements _ hsettlements => ?_
    split
    · next hallowed =>
      have hperm : (sortSettlements settlements).Perm settlements := List.mergeSort_perm _ _
      refine ⟨⟨(hperm.map _).nodup_iff.mpr hsettlements.distinct, fun settlement hmem =>
        hsettlements.known settlement (hperm.mem_iff.mp hmem)⟩, sortSettlements_sorted _, ?_⟩
      intro id hid compiled hcompiled
      obtain ⟨world, hworld, hallows⟩ := hallowed id hid compiled hcompiled
      exact ⟨world, hworld, fun assignment hassignment settlement hmem =>
        hallows assignment hassignment settlement (hperm.mem_iff.mp hmem)⟩
    · trivial
  · trivial

theorem reads_responses (config : Json) :
    Reads (fun latency => ∀ leg, latency leg ≤ cashLimit) (readResponses config) := by
  unfold readResponses
  split
  · refine Yields.bind (reads_latency _) fun first _ hfirst => ?_
    exact Yields.bind (reads_latency _) fun second _ hsecond =>
      Fin.forall_fin_two.mpr ⟨hfirst, hsecond⟩
  · trivial

theorem mem_sortedIds_of_find {id : ConstraintId} {compiled : CompiledConstraint}
    (h : metadata.constraints.find id = some compiled) : id ∈ metadata.constraints.sortedIds :=
  Std.TreeMap.mem_keys.mpr (Std.TreeMap.mem_iff_isSome_getElem?.mpr (Option.isSome_of_eq_some h))

/-- **A lifecycle** that is read is accepted. -/
theorem reads_lifecycle (config : Json) :
    Reads (LifecyclePolicy.Accepted metadata) (readLifecycle metadata config) := by
  refine Yields.bind (reads_any _) fun _ _ _ => ?_
  refine Yields.bind (reads_any _) fun name _ _ => ?_
  split
  · trivial
  refine Yields.bind (reads_any _) fun firstLeg _ _ => ?_
  refine Yields.bind (reads_responses _) fun responseLatency _ hresponses => ?_
  refine Yields.bind (reads_integer _ _ _) fun completionTimeout _ htimeout => ?_
  refine Yields.bind (reads_integer _ _ _) fun completionLossLimit _ hloss => ?_
  refine Yields.bind (reads_integer _ _ _) fun maximumCompletionOrders _ horders => ?_
  split
  · trivial
  next hpos =>
  refine Yields.bind (reads_settlements _) fun settlements _ hsettlements => ?_
  obtain ⟨hof, hsorted, hallowed⟩ := hsettlements
  exact {
    responses := hresponses
    timeout := htimeout
    lossLimit := hloss
    orders := ⟨Nat.pos_of_ne_zero hpos, horders⟩
    chronological := hsorted
    distinct := hof.distinct
    known := hof.known
    allowed := fun id compiled hcompiled =>
      hallowed id (mem_sortedIds_of_find hcompiled) compiled hcompiled }

theorem reads_residualExit (config : Json) :
    Reads ResidualExitPolicy.Accepted (readResidualExit config) := by
  refine Yields.bind (reads_any _) fun _ _ _ => ?_
  refine Yields.bind (reads_any _) fun mode _ _ => ?_
  split
  · trivial
  refine Yields.bind (reads_any _) fun reject _ _ => ?_
  refine Yields.bind (reads_integer _ _ _) fun latency _ hlatency => ?_
  refine Yields.bind (reads_integer _ _ _) fun responseLatency _ hresponse => ?_
  refine Yields.bind (reads_integer _ _ _) fun timeout _ htimeout => ?_
  refine Yields.bind (reads_integer _ _ _) fun minimumPrice _ hminimum => ?_
  refine Yields.bind (reads_integer _ _ _) fun fillBps _ hfill => ?_
  exact ⟨⟨hlatency, hresponse⟩, htimeout, hminimum, hfill⟩

theorem reads_budget (kind : PolicyKind) (root : Json) :
    Reads (fun budget => kind.optimal = true → 0 < budget ∧ budget ≤ 1000000)
      (readBudget kind root) := by
  unfold readBudget
  split
  · refine Yields.bind (reads_integer _ _ _) fun budget _ hbudget => ?_
    split
    · trivial
    next hpos => exact fun _ => ⟨Nat.pos_of_ne_zero hpos, hbudget⟩
  · next hnone => exact fun hoptimal => absurd hoptimal hnone

/-- A lifecycle is only read with optimal sizing, and residual exits with a lifecycle. -/
theorem reads_kind (root : Json) :
    Reads (fun kind => (kind.lifecycle = true → kind.optimal = true) ∧
      (kind.residualExit = true → kind.lifecycle = true)) (readKind root) := by
  refine Yields.bind (reads_any _) fun version _ _ => ?_
  refine Yields.bind (reads_any _) fun strategy _ _ => ?_
  split
  · exact ⟨fun _ => rfl, fun _ => rfl⟩
  split
  · exact ⟨fun _ => rfl, fun _ => rfl⟩
  split
  · exact ⟨fun _ => rfl, fun h => absurd h Bool.false_ne_true⟩
  split
  · exact ⟨fun h => absurd h Bool.false_ne_true, fun h => absurd h Bool.false_ne_true⟩
  · trivial

theorem reads_part {α : Type} {P : α → Prop} {read : Json → Except StudyException α}
    (present : Bool) (root : Json) (field : String) (h : ∀ config, Reads P (read config)) :
    Reads (fun part => (∀ value, part = some value → P value) ∧ part.isSome = present)
      (readPart present root field read) := by
  unfold readPart
  split
  · next hpresent =>
    refine Yields.bind (reads_any _) fun config _ _ => ?_
    refine Yields.bind (h config) fun value _ hvalue => ?_
    refine ⟨fun other hother => Option.some.inj hother ▸ hvalue, hpresent.symm⟩
  · next habsent =>
    refine ⟨fun _ hsome => (by cases hsome), ?_⟩
    exact (Bool.not_eq_true _ ▸ habsent).symm

theorem capped_le {n bound : ℕ} (h : n ≤ bound) (hbound : bound ≤ int64Max) :
    min n int64Max = n :=
  min_eq_left (h.trans hbound)

/-- **A policy** that is read is accepted. -/
theorem reads_policy (root : Json) :
    Reads (StudyPolicy.Accepted metadata) (readPolicy metadata root) := by
  refine Yields.bind (reads_kind _) fun kind _ hkind => ?_
  refine Yields.bind (reads_any _) fun _ _ _ => ?_
  refine Yields.bind (reads_any _) fun _ _ _ => ?_
  refine Yields.bind (reads_budget _ _) fun maxSizingEvaluations _ hbudget => ?_
  refine Yields.bind (reads_integer _ _ _) fun capital _ hcapital => ?_
  refine Yields.bind (reads_integer _ _ _) fun operatingCost _ hoperating => ?_
  refine Yields.bind (reads_integer _ _ _) fun quantityCap _ hcap => ?_
  refine Yields.bind (reads_integer _ _ _) fun quantityStep _ hstep => ?_
  refine Yields.bind (reads_integer _ _ _) fun minMargin _ hmargin => ?_
  refine Yields.bind (reads_integer _ _ _) fun maxAge _ hage => ?_
  refine Yields.bind (reads_integer _ _ _) fun fillBps _ hfill => ?_
  split
  · trivial
  next hbounds =>
  obtain ⟨hcapital', hcap', hgrid, hle⟩ : capital ≠ 0 ∧ quantityCap ≠ 0 ∧
      (quantityStep = 1 ∨ quantityStep = 100) ∧ quantityStep ≤ quantityCap := by omega
  refine Yields.bind (reads_legs _) fun legs _ hlegs => ?_
  refine Yields.bind (reads_fees _) fun fees _ hfees => ?_
  refine Yields.bind (reads_part _ _ _ reads_lifecycle) fun lifecycle _ hlifecycle => ?_
  refine Yields.bind (reads_part _ _ _ reads_residualExit) fun residualExit _ hresidual => ?_
  have hcapped : min capital int64Max = capital := capped_le hcapital (by decide)
  have hcapCapped : min quantityCap int64Max = quantityCap := capped_le hcap (by decide)
  have hstepCapped : min quantityStep int64Max = quantityStep := capped_le hstep (by decide)
  have hmarginCapped : min minMargin int64Max = minMargin := capped_le hmargin (by decide)
  refine {
    capital := ?_, operatingCost := hoperating, cap_le := ?_, step_eq := ?_, step_le := ?_
    minMargin := ?_, maxAge := hage, latency := hlegs, fillBps := hfill, fees := ?_
    budget := hbudget, lifecycle := ?_, residualExit := ?_ }
  · change 0 < min capital int64Max ∧ min capital int64Max ≤ cashLimit
    rw [hcapped]
    exact ⟨Nat.pos_of_ne_zero hcapital', hcapital⟩
  · exact hcapCapped.trans_le hcap
  · change min quantityStep int64Max = 1 ∨ min quantityStep int64Max = 100
    rwa [hstepCapped]
  · change min quantityStep int64Max ≤ min quantityCap int64Max
    rwa [hstepCapped, hcapCapped]
  · exact hmarginCapped.trans_le hmargin
  · exact fun id compiled hcompiled =>
      hfees id (mem_sortedIds_of_find hcompiled) compiled hcompiled
  · intro life hlife
    refine ⟨hkind.1 ?_, hlifecycle.1 life hlife⟩
    exact hlifecycle.2.symm.trans (Option.isSome_of_eq_some hlife)
  · intro exit hexit
    refine ⟨hlifecycle.2.trans (hkind.2 ?_), hresidual.1 exit hexit⟩
    exact hresidual.2.symm.trans (Option.isSome_of_eq_some hexit)

/-- **A loaded policy is accepted.** -/
theorem loadPolicy_accepted {library : JsonLibrary} {bytes : List UInt8} {policy : StudyPolicy}
    (h : loadPolicy library metadata bytes = .ok policy) : policy.Accepted metadata := by
  obtain ⟨root, -, hpolicy⟩ := bind_eq_ok h
  exact (reads_policy root).of_ok hpolicy

/-! ### The study of a loaded policy -/

/-- The constraints of accepted metadata are compiled ones. -/
theorem wellFormed_of_parse {library : JsonLibrary} {input : List UInt8}
    (h : parseMetadataSnapshot library input = .ok metadata) :
    metadata.constraints.WellFormed := by
  unfold parseMetadataSnapshot at h
  split at h
  · cases h
  obtain ⟨root, -, hread⟩ := bind_eq_ok h
  obtain ⟨header, -, hread⟩ := bind_eq_ok hread
  obtain ⟨registry, -, hread⟩ := bind_eq_ok hread
  obtain ⟨validated, -, hread⟩ := bind_eq_ok hread
  obtain ⟨constraints, hconstraints, hread⟩ := bind_eq_ok hread
  obtain rfl := Except.ok.inj hread
  have hwell : Yields (fun _ => True) ConstraintRegistry.WellFormed
      ((sortDefinitions validated).foldlM addConstraint {}) := by
    refine Yields.foldlM (I := fun _ (registry : ConstraintRegistry) => registry.WellFormed)
      ConstraintRegistry.wellFormed_empty fun _ definition _ registry hregistry => ?_
    unfold addConstraint
    dsimp only
    split
    · exact hregistry.add definition
    · trivial
  exact hwell.of_ok hconstraints

variable {compiled : CompiledConstraint}

/-- A compiled constraint has two legs, on the markets that it depends on. -/
theorem compileLegs_compiled {definition : ConstraintDefinition} (reverse : Bool)
    (h : compileConstraint definition = .ok compiled) :
    (∃ legs, compileLegs reverse compiled.guaranteedLegTemplates = .ok legs) ∧
      ∀ template ∈ compiled.guaranteedLegTemplates,
        template.marketId ∈ compiled.dependentMarkets := by
  obtain ⟨-, -, -, -, rfl⟩ := compileConstraint_eq_ok h
  constructor
  · have hlength : (definition.relationship.legs.mergeSort fun first second =>
        decide (first.marketId ≤ second.marketId)).length = 2 := by
      rw [List.length_mergeSort]
      cases definition.relationship <;> rfl
    obtain ⟨first, second, hpair⟩ := List.length_eq_two.mp hlength
    exact ⟨_, by rw [compileLegs, hpair]⟩
  · cases definition.relationship <;> simp [Relationship.legs, Relationship.markets]

/-- The study of a policy without a lifecycle. -/
theorem StudyPolicy.Accepted.legacyStudy {policy : StudyPolicy} (h : policy.Accepted metadata)
    (hwell : metadata.constraints.WellFormed) (hnone : policy.lifecycle = none) :
    ∃ study : LegacyStudy, study.policy = policy ∧ study.constraints = metadata.constraints :=
  ⟨{ policy, constraints := metadata.constraints, lifecycle_eq := hnone
     cap_le := h.cap_le, step_eq := h.step_eq, step_le := h.step_le
     supported := fun id compiled hfind =>
       (compileLegs_compiled false (hwell id compiled hfind).2).1
     fees_valid := fun id compiled hfind template htemplate => h.fees id compiled hfind _
       ((compileLegs_compiled false (hwell id compiled hfind).2).2 template htemplate) }, rfl, rfl⟩

/-- The study of a policy with a lifecycle. -/
theorem StudyPolicy.Accepted.lifecycleStudy {policy : StudyPolicy} (h : policy.Accepted metadata)
    (hwell : metadata.constraints.WellFormed) {lifecycle : LifecyclePolicy}
    (hsome : policy.lifecycle = some lifecycle) :
    ∃ study : LifecycleStudy, study.policy = policy ∧ study.lifecycle = lifecycle ∧
      study.constraints = metadata.constraints :=
  ⟨{ policy, lifecycle, constraints := metadata.constraints, lifecycle_eq := hsome
     chronological := (h.lifecycle lifecycle hsome).2.chronological
     supported := fun id compiled hfind =>
       (compileLegs_compiled _ (hwell id compiled hfind).2).1 }, rfl, rfl, rfl⟩

/-- **A loaded policy can be simulated.** The loader has checked all that the simulation relies on:
with a lifecycle the settlements are in order, without one the grid and the fees are valid, and the
constraints have two legs. -/
theorem loaded_policy_simulates {library : JsonLibrary} {input bytes : List UInt8}
    {metadata : MetadataSnapshot} {policy : StudyPolicy}
    (hmetadata : parseMetadataSnapshot library input = .ok metadata)
    (hload : loadPolicy library metadata bytes = .ok policy) :
    policy.Accepted metadata ∧
      (policy.lifecycle = none → ∃ study : LegacyStudy, study.policy = policy ∧
        study.constraints = metadata.constraints) ∧
      ∀ lifecycle, policy.lifecycle = some lifecycle → ∃ study : LifecycleStudy,
        study.policy = policy ∧ study.lifecycle = lifecycle ∧
        study.constraints = metadata.constraints := by
  have haccepted := loadPolicy_accepted hload
  have hwell := wellFormed_of_parse hmetadata
  exact ⟨haccepted, haccepted.legacyStudy hwell, fun _ => haccepted.lifecycleStudy hwell⟩

end Load

/-! ### A sample -/

/-- Two markets of which one settles YES. -/
def samplePolicyMetadata : MetadataDocument where
  metadataVersion := 1
  markets := [(1, "A"), (2, "B")]
  definitions := [⟨1, 1, "rain", "reviewed", .complement 1 2⟩]

theorem samplePolicyMetadata_admissible : samplePolicyMetadata.Admissible where
  version_pos := by decide
  version_le := by decide
  markets_ne_nil := by decide
  markets_le := by decide
  definitions_le := by decide
  markets_valid := by simp only [ValidMarket, ValidId]; decide
  ids_nodup := by decide
  tickers_nodup := by decide
  definitions_valid := by
    refine List.forall_mem_singleton.mpr ?_
    exact ⟨⟨by decide, by decide⟩, ⟨by decide, by decide⟩, by decide, by decide,
      ⟨by decide, by decide⟩, ⟨by decide, by decide⟩, by decide, by decide, by decide⟩
  constraint_ids_nodup := by decide
  keys_nodup := by decide

/-- A policy of the fourth schema; the first market settles YES. -/
def samplePolicyJson : Json :=
  let fee (id : ℕ) : Json :=
    .object [("balance_quantum_micro", .unsigned 100), ("coefficient_ppm", .unsigned 70000),
      ("market_id", .unsigned id)]
  let settlement (id : ℕ) (yesWins : Bool) (time : ℕ) : Json :=
    .object [("market_id", .unsigned id), ("provenance", .string "review"),
      ("time_ns", .unsigned time), ("yes_wins", .boolean yesWins)]
  .object [("available_liquidity_bps", .unsigned 10000), ("capital_micro_usd", .unsigned 5000000),
    ("fee_provenance", .string "schedule"), ("fees", .array [fee 1, fee 2]),
    ("leg_latency_ns", .array [.unsigned 5, .unsigned 5]),
    ("lifecycle", .object [("completion_loss_limit_micro_usd", .unsigned 0),
      ("completion_timeout_ns", .unsigned 100), ("execution_policy", .string "sequential_complete"),
      ("first_leg", .unsigned 1), ("maximum_completion_orders", .unsigned 2),
      ("response_latency_ns", .array [.unsigned 5, .unsigned 5]),
      ("settlements", .array [settlement 1 true 50])]),
    ("max_book_age_ns", .unsigned 1000), ("max_sizing_evaluations", .unsigned 1000),
    ("min_margin_micro_usd", .unsigned 1), ("operating_cost_micro_usd", .unsigned 0),
    ("quantity_cap_centicontracts", .unsigned 500),
    ("quantity_step_centicontracts", .unsigned 100),
    ("reject_legs", .array [.boolean false, .boolean false]),
    ("residual_exit", .object [("arrival_latency_ns", .unsigned 5),
      ("available_liquidity_bps", .unsigned 10000), ("minimum_price_1e4", .unsigned 1),
      ("mode", .string "reduce_once"), ("reject", .boolean false),
      ("response_latency_ns", .unsigned 5), ("timeout_ns", .unsigned 100)]),
    ("schema_version", .unsigned 4), ("strategy", .string "residual_exit_v4")]

theorem samplePolicyMetadata_parses : parseMetadataSnapshot compactLibrary
    (compactLibrary.dump samplePolicyMetadata.json) =
      .ok (samplePolicyMetadata.snapshot compactLibrary) :=
  parseMetadataSnapshot_dump compactLibrary_lawful samplePolicyMetadata_admissible
    (by decide +kernel)

theorem samplePolicy_loads :
    ∃ policy lifecycle, loadPolicy compactLibrary (samplePolicyMetadata.snapshot compactLibrary)
      (compactLibrary.dump samplePolicyJson) = .ok policy ∧
        policy.lifecycle = some lifecycle := by
  have hloads : ((loadPolicy compactLibrary (samplePolicyMetadata.snapshot compactLibrary)
      (compactLibrary.dump samplePolicyJson)).toOption.map fun policy =>
        policy.lifecycle.isSome) = some true := by decide +kernel
  obtain ⟨policy, hpolicy, hsome⟩ := Option.map_eq_some_iff.mp hloads
  obtain ⟨lifecycle, hlifecycle⟩ := Option.isSome_iff_exists.mp hsome
  refine ⟨policy, lifecycle, ?_, hlifecycle⟩
  cases hload : loadPolicy compactLibrary (samplePolicyMetadata.snapshot compactLibrary)
      (compactLibrary.dump samplePolicyJson) with
  | error error => simp [hload, Except.toOption] at hpolicy
  | ok loaded =>
    rw [hload] at hpolicy
    exact congrArg _ (Option.some.inj hpolicy)

theorem loaded_policy_simulates_sample :
    ∃ policy, loadPolicy compactLibrary (samplePolicyMetadata.snapshot compactLibrary)
        (compactLibrary.dump samplePolicyJson) = .ok policy ∧
      policy.Accepted (samplePolicyMetadata.snapshot compactLibrary) := by
  obtain ⟨policy, -, hload, -⟩ := samplePolicy_loads
  exact ⟨policy, hload, (loaded_policy_simulates samplePolicyMetadata_parses hload).1⟩

end EventMarket.Session
