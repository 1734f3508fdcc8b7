import EventMarket.Core.Reservation

/-!
# Orders built from scratch

What a buy order of a given quantity costs on a ladder of levels, worked out without any search:
walk the levels from the best price, take from each a multiple of the grid step, charge the fills
one after the other with a fresh accumulator and reserve at the last price. The sizing searches
keep cursors and prune; these definitions are what they are compared with.

## Main definitions

* `BuyLevel`, `BuyDepth`: a ladder of buy levels with the fee policy of its market.
* `orderFills`: the fills of an order of a given quantity, when the ladder can fill it.
* `buildOrder`: the limit, the notional, the debit and the reservation of that order.

## Main results

* `buildOrder_eq_some_iff`: when an order can be built, and what it costs.
* `orderFills_admissible`: the fills of a built order lie on its grid and below its limit.
* `reservation_mono`: a larger order on the same ladder reserves at least as much.
-/

namespace EventMarket.Core

/-- A buy price with the quantity offered there. -/
structure BuyLevel where
  price : Price
  quantity : Quantity
  deriving DecidableEq, Repr

/-- Buy levels, ascending and unique in price, with the fee policy that applies to them. -/
structure BuyDepth where
  levels : List BuyLevel
  fees : FeePolicy
  deriving DecidableEq, Repr

/-- One leg of a sized order. -/
structure SizedLeg where
  limit : Price
  notional : ℕ
  debit : ℕ
  reservation : ℕ
  deriving DecidableEq, Repr

/-- The fills of an order on the levels, best price first, each level floored to the grid. -/
def orderFills (step : ℕ) : List BuyLevel → ℕ → Option (List BuyFill)
  | [], remaining => if remaining = 0 then some [] else none
  | level :: levels, remaining =>
    let take := min remaining (level.quantity.raw / step * step)
    if take = 0 then orderFills step levels remaining
    else (orderFills step levels (remaining - take)).map (⟨take, level.price⟩ :: ·)

/-- The price of the last fill. -/
def limitOf (fills : List BuyFill) : Price :=
  match fills.getLast? with
  | some fill => fill.price
  | none => ⟨0, Price.zero_le_scale⟩

/-- One order built level by level. -/
def buildOrder (depth : BuyDepth) (step quantity : ℕ) : Option SizedLeg := do
  let fills ← orderFills step depth.levels quantity
  let (charges, _) ← chargeBuyFills depth.fees fills {}
  let reservation ← buyReservation quantity step (limitOf fills) depth.fees
  some ⟨limitOf fills, (charges.map FillCharge.notional).sum, totalDebit charges, reservation⟩

/-- The levels ascend strictly in price. -/
def Ascending (levels : List BuyLevel) : Prop :=
  levels.Pairwise fun first second => first.price.raw < second.price.raw

/-! ### The fills of an order -/

section OrderFills

variable {step quantity quantity' : ℕ} {levels : List BuyLevel} {level : BuyLevel}
  {fills fills' : List BuyFill}

@[simp] theorem orderFills_zero (step : ℕ) (levels : List BuyLevel) :
    orderFills step levels 0 = some [] := by
  induction levels with
  | nil => rfl
  | cons level levels ih => simp [orderFills, ih]

/-- A level with nothing to take is passed over. -/
theorem orderFills_cons_of_empty (h : level.quantity.raw / step * step = 0) :
    orderFills step (level :: levels) quantity = orderFills step levels quantity := by
  simp [orderFills, h]

/-- A level that covers the order takes all of it. -/
theorem orderFills_cons_of_le (hpos : 0 < quantity)
    (hle : quantity ≤ level.quantity.raw / step * step) :
    orderFills step (level :: levels) quantity = some [⟨quantity, level.price⟩] := by
  have htake : min quantity (level.quantity.raw / step * step) = quantity := min_eq_left hle
  simp only [orderFills, htake, if_neg hpos.ne', Nat.sub_self, orderFills_zero, Option.map_some]

/-- A level smaller than the order is taken whole. -/
theorem orderFills_cons_of_ge (hpos : 0 < level.quantity.raw / step * step)
    (hle : level.quantity.raw / step * step ≤ quantity) :
    orderFills step (level :: levels) quantity =
      (orderFills step levels (quantity - level.quantity.raw / step * step)).map
        (⟨level.quantity.raw / step * step, level.price⟩ :: ·) := by
  have htake : min quantity (level.quantity.raw / step * step) =
      level.quantity.raw / step * step := min_eq_right hle
  simp only [orderFills, htake, if_neg hpos.ne']

/-- The three ways an order meets the first level. -/
theorem orderFills_cons_eq_some (hpos : 0 < quantity)
    (h : orderFills step (level :: levels) quantity = some fills) :
    (level.quantity.raw / step * step = 0 ∧ orderFills step levels quantity = some fills) ∨
    (quantity ≤ level.quantity.raw / step * step ∧ fills = [⟨quantity, level.price⟩]) ∨
    (0 < level.quantity.raw / step * step ∧ level.quantity.raw / step * step < quantity ∧
      ∃ rest, orderFills step levels (quantity - level.quantity.raw / step * step) = some rest ∧
        fills = ⟨level.quantity.raw / step * step, level.price⟩ :: rest) := by
  rcases Nat.eq_zero_or_pos (level.quantity.raw / step * step) with hzero | hsize
  · rw [orderFills_cons_of_empty hzero] at h
    exact Or.inl ⟨hzero, h⟩
  rcases le_or_gt quantity (level.quantity.raw / step * step) with hle | hlt
  · rw [orderFills_cons_of_le hpos hle] at h
    exact Or.inr (Or.inl ⟨hle, (Option.some.inj h).symm⟩)
  · rw [orderFills_cons_of_ge hsize hlt.le] at h
    obtain ⟨rest, hrest, rfl⟩ := Option.map_eq_some_iff.mp h
    exact Or.inr (Or.inr ⟨hsize, hlt, rest, hrest, rfl⟩)

/-- The fills of an order sum to its quantity. -/
theorem totalQuantity_orderFills (h : orderFills step levels quantity = some fills) :
    totalQuantity fills = quantity := by
  induction levels generalizing quantity fills with
  | nil =>
    simp only [orderFills] at h
    split_ifs at h with h0
    obtain rfl := Option.some.inj h
    exact h0.symm
  | cons level levels ih =>
    rcases Nat.eq_zero_or_pos quantity with rfl | hpos
    · rw [orderFills_zero] at h
      obtain rfl := Option.some.inj h
      rfl
    rcases orderFills_cons_eq_some hpos h with ⟨-, h⟩ | ⟨-, rfl⟩ | ⟨-, hlt, rest, hrest, rfl⟩
    · exact ih h
    · simp
    · rw [totalQuantity_cons, ih hrest]
      exact Nat.add_sub_of_le hlt.le

/-- The fills of an order lie on the grid and at prices of the ladder. -/
theorem orderFills_mem (hdvd : step ∣ quantity)
    (h : orderFills step levels quantity = some fills) :
    ∀ fill ∈ fills, (0 < fill.quantity ∧ step ∣ fill.quantity) ∧
      ∃ level ∈ levels, fill.price = level.price := by
  induction levels generalizing quantity fills with
  | nil =>
    simp only [orderFills] at h
    split_ifs at h with h0
    obtain rfl := Option.some.inj h
    simp
  | cons level levels ih =>
    have hrest {rest} (hdvd : step ∣ quantity) (h : orderFills step levels quantity = some rest) :
        ∀ fill ∈ rest, (0 < fill.quantity ∧ step ∣ fill.quantity) ∧
          ∃ l ∈ level :: levels, fill.price = l.price := fun fill hmem =>
      have ⟨hgrid, l, hl, hprice⟩ := ih hdvd h fill hmem
      ⟨hgrid, l, List.mem_cons_of_mem _ hl, hprice⟩
    rcases Nat.eq_zero_or_pos quantity with rfl | hpos
    · rw [orderFills_zero] at h
      obtain rfl := Option.some.inj h
      simp
    rcases orderFills_cons_eq_some hpos h with ⟨-, h⟩ | ⟨-, rfl⟩ | ⟨hsize, -, rest, hrec, rfl⟩
    · exact hrest hdvd h
    · simp [hpos, hdvd]
    · intro fill hmem
      rcases List.mem_cons.mp hmem with rfl | hmem
      · exact ⟨⟨hsize, Dvd.intro_left _ rfl⟩, level, List.mem_cons_self, rfl⟩
      · have ⟨hgrid, l, hl, hprice⟩ :=
          ih (Nat.dvd_sub hdvd (Dvd.intro_left _ rfl)) hrec fill hmem
        exact ⟨hgrid, l, List.mem_cons_of_mem _ hl, hprice⟩

theorem orderFills_ne_nil (hpos : 0 < quantity)
    (h : orderFills step levels quantity = some fills) : fills ≠ [] := by
  rintro rfl
  have := totalQuantity_orderFills h
  rw [totalQuantity_nil] at this
  omega

@[simp] theorem limitOf_singleton (fill : BuyFill) : limitOf [fill] = fill.price := rfl

theorem limitOf_cons (fill : BuyFill) (h : fills ≠ []) :
    limitOf (fill :: fills) = limitOf fills := by
  unfold limitOf
  rw [List.getLast?_cons_of_ne_nil h]

theorem limitOf_append (fills : List BuyFill) (h : fills' ≠ []) :
    limitOf (fills ++ fills') = limitOf fills' := by
  unfold limitOf
  rw [List.getLast?_append_of_ne_nil _ h]

theorem limitOf_mem (h : fills ≠ []) : ∃ fill ∈ fills, limitOf fills = fill.price := by
  refine ⟨fills.getLast h, List.getLast_mem h, ?_⟩
  rw [limitOf, List.getLast?_eq_some_getLast h]

theorem Ascending.head_le (h : Ascending (level :: levels)) {other : BuyLevel}
    (hmem : other ∈ level :: levels) : level.price.raw ≤ other.price.raw := by
  rcases List.mem_cons.mp hmem with rfl | hmem
  · exact le_rfl
  · exact (List.rel_of_pairwise_cons h hmem).le

theorem Ascending.tail (h : Ascending (level :: levels)) : Ascending levels :=
  List.Pairwise.of_cons h

/-- Every fill is at or above the first price of the ladder. -/
theorem head_le_of_mem_orderFills (ha : Ascending (level :: levels)) (hdvd : step ∣ quantity)
    (h : orderFills step (level :: levels) quantity = some fills) :
    ∀ fill ∈ fills, level.price.raw ≤ fill.price.raw := by
  intro fill hmem
  obtain ⟨-, other, hother, hprice⟩ := orderFills_mem hdvd h fill hmem
  rw [hprice]
  exact ha.head_le hother

/-- Every fill is at or below the limit. -/
theorem le_limitOf (ha : Ascending levels) (hdvd : step ∣ quantity)
    (h : orderFills step levels quantity = some fills) :
    ∀ fill ∈ fills, fill.price.raw ≤ (limitOf fills).raw := by
  induction levels generalizing quantity fills with
  | nil =>
    simp only [orderFills] at h
    split_ifs at h
    obtain rfl := Option.some.inj h
    simp
  | cons level levels ih =>
    rcases Nat.eq_zero_or_pos quantity with rfl | hpos
    · rw [orderFills_zero] at h
      obtain rfl := Option.some.inj h
      simp
    rcases orderFills_cons_eq_some hpos h with ⟨-, h⟩ | ⟨-, rfl⟩ | ⟨hsize, hlt, rest, hrec, rfl⟩
    · exact ih ha.tail hdvd h
    · simp
    · have hdvd' : step ∣ quantity - level.quantity.raw / step * step :=
        Nat.dvd_sub hdvd (Dvd.intro_left _ rfl)
      have hne := orderFills_ne_nil (by omega) hrec
      rw [limitOf_cons _ hne]
      intro fill hmem
      rcases List.mem_cons.mp hmem with rfl | hmem
      · obtain ⟨last, hlast, hlimit⟩ := limitOf_mem hne
        obtain ⟨-, other, hother, hprice⟩ := orderFills_mem hdvd' hrec last hlast
        rw [hlimit, hprice]
        exact ha.head_le (List.mem_cons_of_mem _ hother)
      · exact ih ha.tail hdvd' hrec fill hmem

/-- A larger order has a limit at least as high. -/
theorem limitOf_mono (ha : Ascending levels) (hdvd' : step ∣ quantity') (hpos : 0 < quantity)
    (hle : quantity ≤ quantity') (h : orderFills step levels quantity = some fills)
    (h' : orderFills step levels quantity' = some fills') :
    (limitOf fills).raw ≤ (limitOf fills').raw := by
  induction levels generalizing quantity quantity' fills fills' with
  | nil =>
    simp only [orderFills] at h
    rw [if_neg hpos.ne'] at h
    exact absurd h (by simp)
  | cons level levels ih =>
    have hpos' : 0 < quantity' := by omega
    rcases orderFills_cons_eq_some hpos h with ⟨hzero, h⟩ | ⟨-, rfl⟩ | ⟨hsize, hlt, rest, hrec, rfl⟩
    · rw [orderFills_cons_of_empty hzero] at h'
      exact ih ha.tail hdvd' hpos hle h h'
    · obtain ⟨last, hlast, hlimit⟩ := limitOf_mem (orderFills_ne_nil hpos' h')
      rw [limitOf_singleton, hlimit]
      exact head_le_of_mem_orderFills ha hdvd' h' last hlast
    · rw [orderFills_cons_of_ge hsize (by omega)] at h'
      obtain ⟨rest', hrec', rfl⟩ := Option.map_eq_some_iff.mp h'
      rw [limitOf_cons _ (orderFills_ne_nil (by omega) hrec),
        limitOf_cons _ (orderFills_ne_nil (by omega) hrec')]
      exact ih ha.tail (Nat.dvd_sub hdvd' (Dvd.intro_left _ rfl)) (by omega) (by omega) hrec hrec'

/-- The fills of an order are admissible for it at its limit. -/
theorem orderFills_admissible (ha : Ascending levels) (hdvd : step ∣ quantity)
    (h : orderFills step levels quantity = some fills) :
    Admissible quantity step (limitOf fills) fills where
  grid := fun fill hmem => (orderFills_mem hdvd h fill hmem).1
  price_le := le_limitOf ha hdvd h
  total_le := (totalQuantity_orderFills h).le

/-- A ladder fills an order when its floored levels add up to it. -/
theorem orderFills_isSome_iff : (orderFills step levels quantity).isSome ↔
    quantity ≤ (levels.map fun level => level.quantity.raw / step * step).sum := by
  induction levels generalizing quantity with
  | nil =>
    simp only [orderFills, List.map_nil, List.sum_nil, Nat.le_zero]
    split_ifs with h0 <;> simp [h0]
  | cons level levels ih =>
    rw [List.map_cons, List.sum_cons]
    rcases Nat.eq_zero_or_pos quantity with rfl | hpos
    · simp
    rcases Nat.eq_zero_or_pos (level.quantity.raw / step * step) with hzero | hsize
    · rw [orderFills_cons_of_empty hzero, ih, hzero, Nat.zero_add]
    rcases le_or_gt quantity (level.quantity.raw / step * step) with hcover | hmore
    · rw [orderFills_cons_of_le hpos hcover]
      exact iff_of_true rfl (hcover.trans (Nat.le_add_right _ _))
    · rw [orderFills_cons_of_ge hsize hmore.le, Option.isSome_map, ih]
      omega

end OrderFills

/-! ### The cost of an order -/

section BuildOrder

variable {depth : BuyDepth} {step quantity quantity' : ℕ} {leg leg' : SizedLeg}

/-- A built order, taken apart. -/
theorem exists_of_buildOrder (h : buildOrder depth step quantity = some leg) :
    ∃ fills charges left, orderFills step depth.levels quantity = some fills ∧
      chargeBuyFills depth.fees fills {} = some (charges, left) ∧
      buyReservation quantity step (limitOf fills) depth.fees = some leg.reservation ∧
      leg.limit = limitOf fills ∧ leg.debit = totalDebit charges := by
  simp only [buildOrder, Option.bind_eq_bind] at h
  obtain ⟨fills, hfills, h⟩ := Option.bind_eq_some_iff.mp h
  obtain ⟨⟨charges, left⟩, hcharges, h⟩ := Option.bind_eq_some_iff.mp h
  obtain ⟨reservation, hreservation, h⟩ := Option.bind_eq_some_iff.mp h
  obtain rfl := Option.some.inj h
  exact ⟨fills, charges, left, hfills, hcharges, hreservation, rfl, rfl⟩

/-- **When an order can be built.** On the grid and with a valid policy nothing but missing depth
can stop it. -/
theorem buildOrder_eq_some_iff (hr : Reservable quantity step depth.fees) :
    buildOrder depth step quantity = some leg ↔
      ∃ fills charges left, orderFills step depth.levels quantity = some fills ∧
        chargeBuyFills depth.fees fills {} = some (charges, left) ∧
        leg = ⟨limitOf fills, (charges.map FillCharge.notional).sum, totalDebit charges,
          reservationAmount quantity step (limitOf fills) depth.fees⟩ := by
  simp only [buildOrder, Option.bind_eq_bind, buyReservation_eq hr, Option.bind_some]
  constructor
  · intro h
    obtain ⟨fills, hfills, h⟩ := Option.bind_eq_some_iff.mp h
    obtain ⟨⟨charges, left⟩, hcharges, h⟩ := Option.bind_eq_some_iff.mp h
    exact ⟨fills, charges, left, hfills, hcharges, (Option.some.inj h).symm⟩
  · rintro ⟨fills, charges, left, hfills, hcharges, rfl⟩
    simp [hfills, hcharges]

/-- An order can be built exactly when the ladder can fill it. -/
theorem buildOrder_isSome_iff (ha : Ascending depth.levels)
    (hr : Reservable quantity step depth.fees) :
    (buildOrder depth step quantity).isSome ↔
      (orderFills step depth.levels quantity).isSome := by
  constructor
  · intro h
    obtain ⟨leg, hleg⟩ := Option.isSome_iff_exists.mp h
    obtain ⟨fills, -, -, hfills, -⟩ := (buildOrder_eq_some_iff hr).mp hleg
    simp [hfills]
  · intro h
    obtain ⟨fills, hfills⟩ := Option.isSome_iff_exists.mp h
    obtain ⟨⟨charges, left⟩, hcharges⟩ := Option.isSome_iff_exists.mp
      (chargeBuyFills_isSome_of_admissible hr (orderFills_admissible ha hr.dvd hfills))
    exact Option.isSome_iff_exists.mpr
      ⟨_, (buildOrder_eq_some_iff hr).mpr ⟨fills, charges, left, hfills, hcharges, rfl⟩⟩

/-- **Funding is monotone.** A larger order on the same ladder reserves at least as much. -/
theorem reservation_mono (ha : Ascending depth.levels) (hr : Reservable quantity step depth.fees)
    (hr' : Reservable quantity' step depth.fees) (hpos : 0 < quantity) (hle : quantity ≤ quantity')
    (h : buildOrder depth step quantity = some leg)
    (h' : buildOrder depth step quantity' = some leg') : leg.reservation ≤ leg'.reservation := by
  obtain ⟨fills, _, _, hfills, -, rfl⟩ := (buildOrder_eq_some_iff hr).mp h
  obtain ⟨fills', _, _, hfills', -, rfl⟩ := (buildOrder_eq_some_iff hr').mp h'
  exact reservationAmount_mono hle (limitOf_mono ha hr'.dvd hpos hle hfills hfills')

/-- A built order costs no more than it reserves. -/
theorem debit_le_reservation (ha : Ascending depth.levels)
    (hr : Reservable quantity step depth.fees)
    (h : buildOrder depth step quantity = some leg) : leg.debit ≤ leg.reservation := by
  obtain ⟨fills, charges, left, hfills, hcharges, rfl⟩ := (buildOrder_eq_some_iff hr).mp h
  exact sum_debit_le hr (orderFills_admissible ha hr.dvd hfills) hcharges

end BuildOrder

end EventMarket.Core
