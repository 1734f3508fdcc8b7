import EventMarket.Constraint.Payoff

/-!
# The verified payout is exact

What a portfolio pays in a world is the sum of the values of its winning legs, without a bound on
cash and without an order on worlds or legs. The verification computes the least such sum whenever
every sum is an amount of cash.

## Main definitions

* `legWins`, `exactPayout`: what a portfolio pays in a world.
* `Verifiable`: when the verification succeeds.

## Main results

* `worldPayout_eq_ok_iff`, `leastPayout_eq_ok_iff`: what the two loops compute.
* `verify_payoff_exact`: the verification is exact, and blind to the order of its inputs.
-/

namespace EventMarket.Constraint

open Core Market

/-- The cash of a won quantity, ten thousand microdollars for each centicontract. -/
theorem contractSettlementValue_eq (quantity : Quantity) :
    contractSettlementValue quantity =
      if h : quantity.raw * 10000 ≤ int64Max then some ⟨quantity.raw * 10000, h⟩ else none := by
  have hscale : Cash.scale / Quantity.scale = 10000 := by decide
  unfold contractSettlementValue Cash.fromRaw
  simp only [hscale]
  by_cases hfits : quantity.raw * 10000 ≤ int64Max
  · rw [dif_pos hfits, if_neg (not_lt.mpr ((Nat.le_div_iff_mul_le (by decide)).mpr hfits)),
      dif_pos ⟨by positivity, by exact_mod_cast hfits⟩]
    rfl
  · rw [dif_neg hfits, if_pos ((Nat.div_lt_iff_lt_mul (by decide)).mpr (not_le.mp hfits))]

/-! ### Payouts -/

/-- A leg wins in a world that settles its market its way. -/
def legWins (world : WorldState) (leg : PayoffLeg) : Bool :=
  world.any fun assignment =>
    assignment.marketId == leg.marketId && leg.outcome.wins assignment.settlesYes

/-- The exact sum of the values of the winning legs. -/
def exactPayout (world : WorldState) (portfolio : List PayoffLeg) : ℕ :=
  ((portfolio.filter (legWins world)).map fun leg => leg.quantity.raw * 10000).sum

/-- A market is assigned at most once. -/
abbrev Assigns (world : WorldState) : Prop := (world.map WorldAssignment.marketId).Nodup

/-- A portfolio whose payout can be told in a world. -/
structure Payable (world : WorldState) (portfolio : List PayoffLeg) : Prop where
  assigns : Assigns world
  assigned : ∀ leg ∈ portfolio, leg.marketId ∈ world.map WorldAssignment.marketId
  representable : exactPayout world portfolio ≤ int64Max

/-- What a verification asks of worlds and a portfolio. -/
structure Verifiable (worlds : List WorldState) (portfolio : List PayoffLeg) : Prop where
  worlds_ne_nil : worlds ≠ []
  portfolio_ne_nil : portfolio ≠ []
  quantity_ne_zero : ∀ leg ∈ portfolio, leg.quantity.raw ≠ 0
  payable : ∀ world ∈ worlds, Payable world portfolio

theorem exactPayout_cons (world : WorldState) (leg : PayoffLeg) (portfolio : List PayoffLeg) :
    exactPayout world (leg :: portfolio) =
      (if legWins world leg then leg.quantity.raw * 10000 else 0) +
        exactPayout world portfolio := by
  unfold exactPayout
  rw [List.filter_cons]
  split
  · rw [List.map_cons, List.sum_cons]
  · rw [Nat.zero_add]

theorem exactPayout_perm (world : WorldState) {portfolio portfolio' : List PayoffLeg}
    (h : portfolio.Perm portfolio') : exactPayout world portfolio = exactPayout world portfolio' :=
  ((h.filter _).map _).sum_eq

theorem assigns_cons {assignment : WorldAssignment} {rest : WorldState} :
    Assigns (assignment :: rest) ↔
      assignment.marketId ∉ rest.map WorldAssignment.marketId ∧ Assigns rest := by
  unfold Assigns
  rw [List.map_cons, List.nodup_cons]

theorem hasDuplicateMarket_eq_false_iff {world : WorldState} :
    hasDuplicateMarket world = false ↔ Assigns world := by
  induction world with
  | nil => exact ⟨fun _ => List.nodup_nil, fun _ => rfl⟩
  | cons assignment rest ih =>
    rw [hasDuplicateMarket, Bool.or_eq_false_iff, ih, assigns_cons]
    refine and_congr_left fun _ => ?_
    simp

theorem settlement_eq_none_iff {world : WorldState} {marketId : MarketId} :
    settlement world marketId = none ↔ marketId ∉ world.map WorldAssignment.marketId := by
  simp [settlement]

/-- The first assignment of a market is the only one. -/
theorem settlement_eq_some_iff {world : WorldState} (h : Assigns world) {marketId : MarketId}
    {settlesYes : Bool} :
    settlement world marketId = some settlesYes ↔ ⟨marketId, settlesYes⟩ ∈ world := by
  induction world with
  | nil => simp [settlement]
  | cons assignment rest ih =>
    obtain ⟨hnew, hrest⟩ := assigns_cons.mp h
    have ih := ih hrest
    unfold settlement at ih ⊢
    rw [List.find?_cons, List.mem_cons]
    by_cases heq : assignment.marketId = marketId
    · subst heq
      have hnone : ⟨assignment.marketId, settlesYes⟩ ∉ rest := fun hmem =>
        hnew (List.mem_map.mpr ⟨_, hmem, rfl⟩)
      rw [beq_self_eq_true, Option.map_some, Option.some.injEq]
      refine ⟨fun hyes => .inl (hyes ▸ rfl), ?_⟩
      rintro (hhead | htail)
      · exact congrArg WorldAssignment.settlesYes hhead.symm
      · exact absurd htail hnone
    · rw [beq_eq_false_iff_ne.mpr heq, ih]
      refine ⟨Or.inr, ?_⟩
      rintro (hhead | htail)
      · exact absurd (congrArg WorldAssignment.marketId hhead).symm heq
      · exact htail

theorem legWins_eq {world : WorldState} (h : Assigns world) {leg : PayoffLeg} {settlesYes : Bool}
    (hsettles : settlement world leg.marketId = some settlesYes) :
    legWins world leg = leg.outcome.wins settlesYes := by
  have hmem := (settlement_eq_some_iff h).mp hsettles
  rw [Bool.eq_iff_iff, legWins, List.any_eq_true]
  constructor
  · rintro ⟨assignment, hassigned, hwins⟩
    obtain ⟨heq, hwins⟩ := Bool.and_eq_true_iff.mp hwins
    have hother : settlement world leg.marketId = some assignment.settlesYes :=
      (settlement_eq_some_iff h).mpr (beq_iff_eq.mp heq ▸ hassigned)
    rwa [Option.some.inj (hsettles.symm.trans hother)]
  · exact fun hwins => ⟨_, hmem, Bool.and_eq_true_iff.mpr ⟨beq_self_eq_true _, hwins⟩⟩

/-! ### The loops -/

/-- The loop over the legs adds the values of the winning ones. -/
theorem worldPayout_eq_ok_iff {world : WorldState} (h : Assigns world) {legs : List PayoffLeg}
    {payout total : ℕ} (hpayout : payout ≤ int64Max) :
    worldPayout world legs payout = .ok total ↔
      (∀ leg ∈ legs, leg.quantity.raw ≠ 0 ∧ leg.marketId ∈ world.map WorldAssignment.marketId) ∧
        payout + exactPayout world legs = total ∧ total ≤ int64Max := by
  induction legs generalizing payout with
  | nil =>
    have hnil : payout + exactPayout world [] = payout := rfl
    rw [worldPayout, hnil, Except.ok.injEq]
    exact ⟨fun heq => ⟨List.forall_mem_nil _, heq, heq ▸ hpayout⟩, fun hall => hall.2.1⟩
  | cons leg legs ih =>
    rw [worldPayout, List.forall_mem_cons, exactPayout_cons]
    by_cases hzero : leg.quantity.raw = 0
    · rw [if_pos hzero]
      exact ⟨fun heq => (by cases heq), fun hall => absurd hzero hall.1.1.1⟩
    rw [if_neg hzero]
    cases hsettles : settlement world leg.marketId with
    | none =>
      exact ⟨fun heq => (by cases heq),
        fun hall => absurd hall.1.1.2 (settlement_eq_none_iff.mp hsettles)⟩
    | some settlesYes =>
      have hassigned : leg.marketId ∈ world.map WorldAssignment.marketId := by
        by_contra hmissing
        rw [settlement_eq_none_iff.mpr hmissing] at hsettles
        cases hsettles
      have hwins := legWins_eq h hsettles
      dsimp only
      split
      · next hloses =>
        rw [hwins, hloses, if_neg Bool.false_ne_true, Nat.zero_add, ih hpayout]
        exact ⟨fun hall => ⟨⟨⟨hzero, hassigned⟩, hall.1⟩, hall.2⟩,
          fun hall => ⟨hall.1.2, hall.2⟩⟩
      · next hloses =>
        rw [hwins, if_pos (Bool.eq_true_of_not_eq_false hloses), contractSettlementValue_eq,
          ← Nat.add_assoc]
        by_cases hvalue : leg.quantity.raw * 10000 ≤ int64Max
        · rw [dif_pos hvalue]
          dsimp only
          by_cases hroom : int64Max - leg.quantity.raw * 10000 < payout
          · rw [if_pos hroom]
            exact ⟨fun heq => (by cases heq), fun hall => by omega⟩
          · rw [if_neg hroom, ih (by omega)]
            exact ⟨fun hall => ⟨⟨⟨hzero, hassigned⟩, hall.1⟩, hall.2⟩,
              fun hall => ⟨hall.1.2, hall.2⟩⟩
        · rw [dif_neg hvalue]
          exact ⟨fun heq => (by cases heq), fun hall => by omega⟩

/-- The loop over the worlds keeps the least payout. -/
theorem leastPayout_eq_ok_iff {portfolio : List PayoffLeg} {worlds : List WorldState}
    {minimum least : ℕ} :
    leastPayout portfolio worlds minimum = .ok least ↔
      (∀ world ∈ worlds, (∀ leg ∈ portfolio, leg.quantity.raw ≠ 0) ∧ Payable world portfolio) ∧
        (worlds.map fun world => exactPayout world portfolio).foldl min minimum = least := by
  induction worlds generalizing minimum with
  | nil =>
    rw [leastPayout, Except.ok.injEq]
    exact ⟨fun heq => ⟨List.forall_mem_nil _, heq⟩, And.right⟩
  | cons world worlds ih =>
    rw [leastPayout, List.forall_mem_cons, List.map_cons, List.foldl_cons]
    cases hduplicate : hasDuplicateMarket world with
    | true =>
      refine ⟨fun heq => (by cases heq), fun hall => ?_⟩
      rw [hasDuplicateMarket_eq_false_iff.mpr hall.1.1.2.assigns] at hduplicate
      cases hduplicate
    | false =>
      have hassigns := hasDuplicateMarket_eq_false_iff.mp hduplicate
      rw [if_neg Bool.false_ne_true]
      cases hpayout : worldPayout world portfolio 0 with
      | error error =>
        refine ⟨fun heq => (by cases heq), fun hall => ?_⟩
        have hok := (worldPayout_eq_ok_iff hassigns (Nat.zero_le _)).mpr
          ⟨fun leg hmem => ⟨hall.1.1.1 leg hmem, hall.1.1.2.assigned leg hmem⟩, rfl,
            (Nat.zero_add _).symm ▸ hall.1.1.2.representable⟩
        cases hok.symm.trans hpayout
      | ok payout =>
        obtain ⟨hlegs, hsum, hle⟩ := (worldPayout_eq_ok_iff hassigns (Nat.zero_le _)).mp hpayout
        rw [Nat.zero_add] at hsum
        subst hsum
        dsimp only
        rw [ih]
        exact ⟨fun hall => ⟨⟨⟨fun leg hmem => (hlegs leg hmem).1, hassigns,
          fun leg hmem => (hlegs leg hmem).2, hle⟩, hall.1⟩, hall.2⟩,
          fun hall => ⟨hall.1.2, hall.2⟩⟩

/-- The start of the loop is forgotten when no value exceeds it. -/
theorem foldl_min_eq {values : List ℕ} {start : ℕ} (hne : values ≠ [])
    (hle : ∀ value ∈ values, value ≤ start) :
    values.min? = some (values.foldl min start) := by
  obtain ⟨first, rest, rfl⟩ := List.exists_cons_of_ne_nil hne
  rw [List.foldl_cons, min_eq_right (hle first List.mem_cons_self)]
  rfl

/-! ### The verification -/

/-- **What a verification returns.** It succeeds when all payouts can be told, with the least of
them. -/
theorem verifyPayoff_eq_ok_iff {worlds : List WorldState} {portfolio : List PayoffLeg}
    {verified : PayoffVerification} :
    verifyPayoff worlds portfolio = .ok verified ↔ Verifiable worlds portfolio ∧
      (worlds.map fun world => exactPayout world portfolio).min? = some verified.minimumPayout ∧
        verified.worldsEvaluated = worlds.length := by
  unfold verifyPayoff
  by_cases hworlds : worlds = []
  · rw [if_pos hworlds]
    exact ⟨nofun, fun hall => absurd hworlds hall.1.worlds_ne_nil⟩
  by_cases hportfolio : portfolio = []
  · rw [if_neg hworlds, if_pos hportfolio]
    exact ⟨nofun, fun hall => absurd hportfolio hall.1.portfolio_ne_nil⟩
  rw [if_neg hworlds, if_neg hportfolio]
  have hleast : ∀ payable : (∀ world ∈ worlds, Payable world portfolio),
      (worlds.map fun world => exactPayout world portfolio).min? =
        some ((worlds.map fun world => exactPayout world portfolio).foldl min int64Max) := by
    intro payable
    refine foldl_min_eq (mt List.map_eq_nil_iff.mp hworlds) ?_
    rintro value hmem
    obtain ⟨world, hworld, rfl⟩ := List.mem_map.mp hmem
    exact (payable world hworld).representable
  constructor
  · intro hverified
    cases hloop : leastPayout portfolio worlds int64Max with
    | error error =>
      rw [hloop] at hverified
      exact nomatch hverified
    | ok least =>
      rw [hloop] at hverified
      obtain rfl := Except.ok.inj hverified
      obtain ⟨hall, hfold⟩ := leastPayout_eq_ok_iff.mp hloop
      obtain ⟨world, hworld⟩ := List.exists_mem_of_ne_nil worlds hworlds
      have hpayable : ∀ world ∈ worlds, Payable world portfolio := fun world hmem =>
        (hall world hmem).2
      exact ⟨⟨hworlds, hportfolio, (hall world hworld).1, hpayable⟩,
        hfold ▸ hleast hpayable, rfl⟩
  · rintro ⟨hverifiable, hmin, hcount⟩
    have hfold := Option.some.inj ((hleast hverifiable.payable).symm.trans hmin)
    rw [leastPayout_eq_ok_iff.mpr ⟨fun world hmem =>
      ⟨hverifiable.quantity_ne_zero, hverifiable.payable world hmem⟩, hfold⟩]
    cases verified
    subst hcount
    rfl

theorem Payable.perm {world : WorldState} {portfolio portfolio' : List PayoffLeg}
    (h : Payable world portfolio) (hperm : portfolio.Perm portfolio') :
    Payable world portfolio' where
  assigns := h.assigns
  assigned leg hmem := h.assigned leg (hperm.mem_iff.mpr hmem)
  representable := exactPayout_perm world hperm ▸ h.representable

/-- The order of the worlds and of the legs does not matter. -/
theorem verifyPayoff_perm {worlds worlds' : List WorldState} {portfolio portfolio' : List PayoffLeg}
    {verified : PayoffVerification} (hworlds : worlds.Perm worlds')
    (hportfolio : portfolio.Perm portfolio') (h : verifyPayoff worlds portfolio = .ok verified) :
    verifyPayoff worlds' portfolio' = .ok verified := by
  obtain ⟨hverifiable, hmin, hcount⟩ := verifyPayoff_eq_ok_iff.mp h
  refine verifyPayoff_eq_ok_iff.mpr ⟨⟨fun hnil => ?_, fun hnil => ?_, fun leg hmem => ?_,
    fun world hmem => ?_⟩, ?_, hcount.trans hworlds.length_eq⟩
  · exact hverifiable.worlds_ne_nil (List.Perm.eq_nil (hnil ▸ hworlds))
  · exact hverifiable.portfolio_ne_nil (List.Perm.eq_nil (hnil ▸ hportfolio))
  · exact hverifiable.quantity_ne_zero leg (hportfolio.mem_iff.mpr hmem)
  · exact (hverifiable.payable world (hworlds.mem_iff.mpr hmem)).perm hportfolio
  · have hpayouts : (worlds'.map fun world => exactPayout world portfolio') =
        worlds'.map fun world => exactPayout world portfolio :=
      List.map_congr_left fun world _ => (exactPayout_perm world hportfolio).symm
    have hsame : (worlds.map fun world => exactPayout world portfolio).Perm
        (worlds'.map fun world => exactPayout world portfolio) := hworlds.map _
    rw [List.min?_eq_some_iff] at hmin ⊢
    rw [hpayouts]
    exact ⟨hsame.mem_iff.mp hmin.1, fun other hmem => hmin.2 other (hsame.mem_iff.mpr hmem)⟩

/-- **The verification is exact.** For all worlds and every portfolio: it succeeds exactly on a
verifiable portfolio. The returned payout is at most the exact one in every world and equal to it
in one of them, and the order of worlds and legs does not matter. -/
theorem verify_payoff_exact (worlds : List WorldState) (portfolio : List PayoffLeg) :
    ((∃ verified, verifyPayoff worlds portfolio = .ok verified) ↔
        worlds ≠ [] ∧ portfolio ≠ [] ∧ (∀ leg ∈ portfolio, leg.quantity.raw ≠ 0) ∧
          ∀ world ∈ worlds, (world.map WorldAssignment.marketId).Nodup ∧
            (∀ leg ∈ portfolio, leg.marketId ∈ world.map WorldAssignment.marketId) ∧
              exactPayout world portfolio ≤ int64Max) ∧
      ∀ verified, verifyPayoff worlds portfolio = .ok verified →
        (∀ world ∈ worlds, verified.minimumPayout ≤ exactPayout world portfolio) ∧
          (∃ world ∈ worlds, verified.minimumPayout = exactPayout world portfolio) ∧
            ∀ worlds' portfolio', worlds.Perm worlds' → portfolio.Perm portfolio' →
              verifyPayoff worlds' portfolio' = .ok verified := by
  refine ⟨⟨?_, ?_⟩, fun verified hverified => ?_⟩
  · rintro ⟨verified, hverified⟩
    obtain ⟨hverifiable, -⟩ := verifyPayoff_eq_ok_iff.mp hverified
    exact ⟨hverifiable.worlds_ne_nil, hverifiable.portfolio_ne_nil, hverifiable.quantity_ne_zero,
      fun world hmem => ⟨(hverifiable.payable world hmem).assigns,
        (hverifiable.payable world hmem).assigned, (hverifiable.payable world hmem).representable⟩⟩
  · rintro ⟨hworlds, hportfolio, hquantity, hall⟩
    obtain ⟨least, hleast⟩ : ∃ least,
        (worlds.map fun world => exactPayout world portfolio).min? = some least :=
      Option.ne_none_iff_exists'.mp (by simpa [List.min?_eq_none_iff] using hworlds)
    exact ⟨⟨least, worlds.length⟩, verifyPayoff_eq_ok_iff.mpr ⟨⟨hworlds, hportfolio, hquantity,
      fun world hmem => ⟨(hall world hmem).1, (hall world hmem).2.1, (hall world hmem).2.2⟩⟩,
      hleast, rfl⟩⟩
  · obtain ⟨-, hmin, -⟩ := verifyPayoff_eq_ok_iff.mp hverified
    obtain ⟨hmem, hleast⟩ := List.min?_eq_some_iff.mp hmin
    obtain ⟨world, hworld, heq⟩ := List.mem_map.mp hmem
    exact ⟨fun world hworld => hleast _ (List.mem_map_of_mem hworld), ⟨world, hworld, heq.symm⟩,
      fun _ _ hworlds hportfolio => verifyPayoff_perm hworlds hportfolio hverified⟩

end EventMarket.Constraint
