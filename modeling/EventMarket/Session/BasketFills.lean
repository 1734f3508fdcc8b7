import EventMarket.Core.Reservation
import EventMarket.Session.BasketObservation
import EventMarket.Session.ReplayObserver

/-!
# Simulated fills of the baskets

An order is filled from the books of earlier records, best price first, less what the scenario has
consumed there before. Buying YES and selling NO consume asks, buying NO and selling YES consume
bids; consumption is counted at the physical level, in YES prices.

## Main definitions

* `CachedBook`, `PhysicalLevel`: the books, and what consumption is counted by.
* `levels`: what is left of a side for an outcome.
* `fillLevels`: an order filled from these levels.
* `consume`: the consumption after a fill.

## Main results

* `fill_consumes_le`: after a fill the consumption is at most what is displayed.
* `buy_cash_le`: a buy costs at most its reservation.
-/

namespace EventMarket.Session

open Core Foundations Book Market

/-! ### Levels -/

/-- The bids (`0`, descending) and the asks (`1`, ascending) of a market, in YES prices. -/
structure CachedBook where
  sides : Fin 2 → List Level := fun _ => []
  valid : Bool := false

/-- A level of a book: the market, whether it is an ask, and the YES price. -/
structure PhysicalLevel where
  marketId : MarketId
  ask : Bool
  price : ℕ
  deriving DecidableEq, Repr

/-- The side of a book. -/
def bookSide (ask : Bool) : Fin 2 := if ask then 1 else 0

/-- The price of an outcome at a YES price, and the other way around. -/
def outcomePrice (yes : Bool) (price : Price) : Price := if yes then price else price.complement

/-- What is left of the levels of a side, up to the cap. -/
def remainingLevels (cap : ℕ) (used : ℕ → ℕ) (yes : Bool) : List Level → ℕ → List BuyLevel
  | [], _ => []
  | level :: levels, collected =>
    let take : Quantity := ⟨min (level.quantity.raw - used level.price.raw) (cap - collected),
      (Nat.min_le_left _ _).trans ((Nat.sub_le _ _).trans level.quantity.le_max)⟩
    if take.raw = 0 then remainingLevels cap used yes levels collected
    else
      ⟨outcomePrice yes level.price, take⟩ ::
        (if collected + take.raw = cap then []
        else remainingLevels cap used yes levels (collected + take.raw))

/-- The levels at which an outcome can be bought, or sold, less what was consumed. -/
def levels (cap : ℕ) (books : MarketId → CachedBook) (consumed : PhysicalLevel → ℕ)
    (marketId : MarketId) (yes : Bool) (sell : Bool := false) : List BuyLevel :=
  if !(books marketId).valid then []
  else
    let ask := yes != sell
    remainingLevels cap (fun price => consumed ⟨marketId, ask, price⟩) yes
      ((books marketId).sides (bookSide ask)) 0

/-! ### Fills -/

/-- What is filled at one level; the price is that of the outcome. -/
structure FillLevel where
  price : Price
  quantity : ℕ
  cash : ℕ
  deriving DecidableEq, Repr

/-- The levels of a fill, best price first. -/
abbrev Fill : Type := List FillLevel

namespace Fill

def quantity (fill : Fill) : ℕ := (fill.map FillLevel.quantity).sum

def cash (fill : Fill) : ℕ := (fill.map FillLevel.cash).sum

/-- The price of the last level. -/
def limit (fill : Fill) : Price := (fill.getLast?.map FillLevel.price).getD ⟨0, Price.zero_le_scale⟩

@[simp] theorem quantity_nil : quantity [] = 0 := rfl

@[simp] theorem quantity_cons (level : FillLevel) (fill : Fill) :
    quantity (level :: fill) = level.quantity + quantity fill := by
  simp [quantity]

@[simp] theorem cash_nil : cash [] = 0 := rfl

@[simp] theorem cash_cons (level : FillLevel) (fill : Fill) :
    cash (level :: fill) = level.cash + cash fill := by
  simp [cash]

end Fill

/-- The debit of a buy, or the credit of a sale, at one level. -/
def fillCash (sell : Bool) (quantity : ℕ) (price : Price) (fee : FeePolicy)
    (accumulator : FeeAccumulator) : Option (ℕ × FeeAccumulator) :=
  if sell then
    (creditSellFill quantity price fee accumulator).map fun (fill, left) => (fill.credit, left)
  else (chargeBuyFill quantity price fee accumulator).map fun (fill, left) => (fill.debit, left)

/-- Fill an order from levels, within its limit. -/
def fillLevels (sell : Bool) (limit : ℕ) (fee : FeePolicy) :
    List BuyLevel → ℕ → FeeAccumulator → Except StudyException Fill
  | [], _, _ => .ok []
  | level :: levels, desired, accumulator =>
    if (sell = false ∧ limit < level.price.raw) ∨ (sell = true ∧ level.price.raw < limit) then
      .ok []
    else
      let quantity := min desired level.quantity.raw
      if quantity = 0 then .ok []
      else
        match fillCash sell quantity level.price fee accumulator with
        | none => invalid (if sell then "sell cost" else "buy cost")
        | some (cash, accumulator) => do
          let rest ← fillLevels sell limit fee levels (desired - quantity) accumulator
          .ok (⟨level.price, quantity, cash⟩ :: rest)

/-- The physical level that a price of an outcome stands for. -/
def physicalLevel (marketId : MarketId) (yes sell : Bool) (price : Price) : PhysicalLevel :=
  ⟨marketId, yes != sell, (outcomePrice yes price).raw⟩

/-- The consumption after a fill. -/
def consume (consumed : PhysicalLevel → ℕ) (marketId : MarketId) (yes sell : Bool) (fill : Fill) :
    PhysicalLevel → ℕ :=
  fill.foldl (fun consumed level =>
    Function.update consumed (physicalLevel marketId yes sell level.price)
      (consumed (physicalLevel marketId yes sell level.price) + level.quantity)) consumed

/-- The quantity displayed at a physical level. -/
def displayed (books : MarketId → CachedBook) (level : PhysicalLevel) : ℕ :=
  match ((books level.marketId).sides (bookSide level.ask)).find? fun shown =>
      decide (shown.price.raw = level.price) with
  | some shown => shown.quantity.raw
  | none => 0

/-- Every price of a side is shown once. -/
def DistinctPrices (books : MarketId → CachedBook) : Prop :=
  ∀ marketId side, (((books marketId).sides side).map Level.price).Nodup

/-! ### What a fill takes -/

section Take

variable {cap limit desired collected : ℕ} {used : ℕ → ℕ} {yes sell : Bool} {shown : List Level}
  {fee : FeePolicy} {accumulator : FeeAccumulator} {offered : List BuyLevel} {fill : Fill}

@[simp] theorem outcomePrice_outcomePrice (yes : Bool) (price : Price) :
    outcomePrice yes (outcomePrice yes price) = price := by
  cases yes <;> simp [outcomePrice]

theorem outcomePrice_injective (yes : Bool) : Function.Injective (outcomePrice yes) :=
  Function.LeftInverse.injective (outcomePrice_outcomePrice yes)

/-- What is left of a level was shown there and not consumed. -/
theorem mem_remainingLevels {level : BuyLevel}
    (h : level ∈ remainingLevels cap used yes shown collected) :
    ∃ source ∈ shown, level.price = outcomePrice yes source.price ∧ 0 < level.quantity.raw ∧
      used source.price.raw + level.quantity.raw ≤ source.quantity.raw := by
  induction shown generalizing collected with
  | nil => cases h
  | cons source shown ih =>
    rw [remainingLevels] at h
    dsimp only at h
    split_ifs at h with hzero hfull
    · obtain ⟨other, hother, hlevel⟩ := ih h
      exact ⟨other, List.mem_cons_of_mem _ hother, hlevel⟩
    · obtain rfl := List.mem_singleton.mp h
      refine ⟨source, List.mem_cons_self, rfl, Nat.pos_of_ne_zero hzero, ?_⟩
      dsimp only at hzero ⊢
      omega
    · rcases List.mem_cons.mp h with rfl | h
      · refine ⟨source, List.mem_cons_self, rfl, Nat.pos_of_ne_zero hzero, ?_⟩
        dsimp only at hzero ⊢
        omega
      · obtain ⟨other, hother, hlevel⟩ := ih h
        exact ⟨other, List.mem_cons_of_mem _ hother, hlevel⟩

/-- The levels that are left keep the order of the prices. -/
theorem remainingLevels_sublist :
    ((remainingLevels cap used yes shown collected).map BuyLevel.price).Sublist
      (shown.map fun level => outcomePrice yes level.price) := by
  induction shown generalizing collected with
  | nil => exact List.Sublist.refl _
  | cons source shown ih =>
    rw [remainingLevels]
    dsimp only
    split_ifs
    · exact List.Sublist.cons _ ih
    · exact (List.nil_sublist _).cons_cons _
    · exact ih.cons_cons _

/-- **What a fill takes.** A fill takes the levels in their order, from each at most what it
offers, altogether at most what is desired and within the limit. -/
structure Taken (sell : Bool) (limit desired : ℕ) (offered : List BuyLevel) (fill : Fill) :
    Prop where
  prices : fill.map FillLevel.price <+: offered.map BuyLevel.price
  levels : ∀ row ∈ fill, ∃ level ∈ offered, row.price = level.price ∧ 0 < row.quantity ∧
    row.quantity ≤ level.quantity.raw
  quantity_le : fill.quantity ≤ desired
  price_le : sell = false → ∀ row ∈ fill, row.price.raw ≤ limit

/-- A fill stops at the first level, or takes it and goes on. -/
theorem fillLevels_cons_eq_ok {level : BuyLevel}
    (h : fillLevels sell limit fee (level :: offered) desired accumulator = .ok fill) :
    fill = [] ∨ ∃ quantity cash left rest, quantity = min desired level.quantity.raw ∧
      0 < quantity ∧ (sell = false → level.price.raw ≤ limit) ∧
      fillCash sell quantity level.price fee accumulator = some (cash, left) ∧
      fillLevels sell limit fee offered (desired - quantity) left = .ok rest ∧
      fill = ⟨level.price, quantity, cash⟩ :: rest := by
  rw [fillLevels] at h
  dsimp only at h
  split at h
  · exact .inl (Except.ok.inj h).symm
  rename_i hlimit
  split at h
  · exact .inl (Except.ok.inj h).symm
  rename_i hzero
  cases hcash : fillCash sell (min desired level.quantity.raw) level.price fee accumulator with
  | none =>
    rw [hcash] at h
    cases h
  | some paid =>
    rw [hcash] at h
    obtain ⟨rest, hrest, hfill⟩ := bind_eq_ok h
    rw [not_or] at hlimit
    exact .inr ⟨_, paid.1, paid.2, rest, rfl, Nat.pos_of_ne_zero hzero,
      fun hbuy => Nat.le_of_not_lt fun hlt => hlimit.1 ⟨hbuy, hlt⟩, hcash, hrest,
      (Except.ok.inj hfill).symm⟩

theorem taken_nil : Taken sell limit desired offered [] :=
  ⟨List.nil_prefix, by simp, Nat.zero_le _, by simp⟩

theorem fillLevels_taken
    (h : fillLevels sell limit fee offered desired accumulator = .ok fill) :
    Taken sell limit desired offered fill := by
  induction offered generalizing desired accumulator fill with
  | nil =>
    obtain rfl := Except.ok.inj h
    exact taken_nil
  | cons level offered ih =>
    obtain rfl | ⟨quantity, cash, left, rest, hquantity, hpos, hprice, -, hrest, rfl⟩ :=
      fillLevels_cons_eq_ok h
    · exact taken_nil
    have htaken := ih hrest
    refine ⟨?_, List.forall_mem_cons.mpr ⟨?_, fun row hrow => ?_⟩, ?_, fun hbuy => ?_⟩
    · simpa using htaken.prices
    · exact ⟨level, List.mem_cons_self, rfl, hpos, by dsimp only; omega⟩
    · obtain ⟨other, hother, hlevel⟩ := htaken.levels row hrow
      exact ⟨other, List.mem_cons_of_mem _ hother, hlevel⟩
    · have hle := htaken.quantity_le
      rw [Fill.quantity_cons]
      dsimp only
      omega
    · exact List.forall_mem_cons.mpr ⟨hprice hbuy, htaken.price_le hbuy⟩

/-- The cash of a buy is what the fee ledger charges for its levels. -/
theorem fillLevels_charges (h : fillLevels false limit fee offered desired accumulator = .ok fill) :
    ∃ charges left, chargeBuyFills fee (fill.map fun row => ⟨row.quantity, row.price⟩) accumulator =
      some (charges, left) ∧ totalDebit charges = fill.cash := by
  induction offered generalizing desired accumulator fill with
  | nil =>
    obtain rfl := Except.ok.inj h
    exact ⟨[], accumulator, rfl, rfl⟩
  | cons level offered ih =>
    obtain rfl | ⟨quantity, cash, left, rest, -, -, -, hcash, hrest, rfl⟩ :=
      fillLevels_cons_eq_ok h
    · exact ⟨[], accumulator, rfl, rfl⟩
    obtain ⟨charges, last, hcharges, hdebit⟩ := ih hrest
    rw [fillCash, if_neg Bool.false_ne_true] at hcash
    obtain ⟨⟨charge, next⟩, hcharge, hpaid⟩ := Option.map_eq_some_iff.mp hcash
    obtain ⟨rfl, rfl⟩ := Prod.mk.inj hpaid
    refine ⟨charge :: charges, last, ?_, ?_⟩
    · simp [chargeBuyFills, hcharge, hcharges]
    · rw [totalDebit_cons, hdebit, Fill.cash_cons]

/-- **A buy costs at most its reservation.** -/
theorem buy_cash_le {quantity : ℕ} {bound : Price} (hr : Reservable quantity 1 fee)
    (h : fillLevels false bound.raw fee offered quantity {} = .ok fill) :
    fill.cash ≤ reservationAmount quantity 1 bound fee := by
  obtain ⟨charges, left, hcharges, hdebit⟩ := fillLevels_charges h
  have htaken := fillLevels_taken h
  rw [← hdebit]
  refine sum_debit_le hr ⟨?_, ?_, ?_⟩ hcharges
  · intro buy hbuy
    obtain ⟨row, hrow, rfl⟩ := List.mem_map.mp hbuy
    obtain ⟨_, _, _, hpos, _⟩ := htaken.levels row hrow
    exact ⟨hpos, one_dvd _⟩
  · intro buy hbuy
    obtain ⟨row, hrow, rfl⟩ := List.mem_map.mp hbuy
    exact htaken.price_le rfl row hrow
  · have htotal : totalQuantity (fill.map fun row => ⟨row.quantity, row.price⟩) =
      fill.quantity := by
      simp [totalQuantity, Fill.quantity, Function.comp_def]
    rw [htotal]
    exact htaken.quantity_le

end Take

/-! ### Consumption -/

section Consume

variable {cap limit desired : ℕ} {books : MarketId → CachedBook} {consumed : PhysicalLevel → ℕ}
  {marketId : MarketId} {yes sell : Bool} {fee : FeePolicy} {accumulator : FeeAccumulator}
  {fill : Fill} {row : FillLevel}

theorem physicalLevel_injective : Function.Injective (physicalLevel marketId yes sell) := by
  intro price other h
  have hraw : (outcomePrice yes price).raw = (outcomePrice yes other).raw :=
    congrArg PhysicalLevel.price h
  apply outcomePrice_injective yes
  cases hprice : outcomePrice yes price
  cases hother : outcomePrice yes other
  simpa [hprice, hother] using hraw

theorem consume_cons : consume consumed marketId yes sell (row :: fill) =
    consume (Function.update consumed (physicalLevel marketId yes sell row.price)
      (consumed (physicalLevel marketId yes sell row.price) + row.quantity)) marketId yes
        sell fill :=
  rfl

/-- Levels that a fill does not take keep their consumption. -/
theorem consume_of_forall_ne {level : PhysicalLevel}
    (h : ∀ row ∈ fill, physicalLevel marketId yes sell row.price ≠ level) :
    consume consumed marketId yes sell fill level = consumed level := by
  induction fill generalizing consumed with
  | nil => rfl
  | cons row fill ih =>
    obtain ⟨hrow, hrest⟩ := List.forall_mem_cons.mp h
    rw [consume_cons, ih hrest, Function.update_of_ne hrow.symm]

/-- A level that a fill takes is consumed by as much more. -/
theorem consume_of_mem (hnodup : (fill.map FillLevel.price).Nodup) (hrow : row ∈ fill) :
    consume consumed marketId yes sell fill (physicalLevel marketId yes sell row.price) =
      consumed (physicalLevel marketId yes sell row.price) + row.quantity := by
  induction fill generalizing consumed with
  | nil => cases hrow
  | cons first fill ih =>
    obtain ⟨hfirst, hrest⟩ := List.nodup_cons.mp hnodup
    rcases List.mem_cons.mp hrow with rfl | hrow
    · rw [consume_cons, consume_of_forall_ne, Function.update_self]
      intro other hother heq
      exact hfirst (physicalLevel_injective heq ▸ List.mem_map_of_mem hother)
    · have hne : row.price ≠ first.price := fun heq =>
        hfirst (heq ▸ List.mem_map_of_mem hrow)
      rw [consume_cons, ih hrest hrow,
        Function.update_of_ne fun heq => hne (physicalLevel_injective heq)]

theorem displayed_of_mem (hbooks : DistinctPrices books) {level : Level} {ask : Bool}
    (hlevel : level ∈ (books marketId).sides (bookSide ask)) :
    displayed books ⟨marketId, ask, level.price.raw⟩ = level.quantity.raw := by
  have hnodup := hbooks marketId (bookSide ask)
  unfold displayed
  dsimp only
  generalize (books marketId).sides (bookSide ask) = shown at hlevel hnodup
  induction shown with
  | nil => cases hlevel
  | cons first shown ih =>
    rw [List.map_cons, List.nodup_cons] at hnodup
    rcases List.mem_cons.mp hlevel with rfl | hlevel
    · rw [List.find?_cons_of_pos (by simp)]
    · have hne : first.price.raw ≠ level.price.raw := fun heq => hnodup.1 (by
        have hprice : first.price = level.price := by
          cases hfirst : first.price
          cases hsecond : level.price
          simpa [hfirst, hsecond] using heq
        rw [hprice]
        exact List.mem_map_of_mem hlevel)
      rw [List.find?_cons_of_neg (by simpa using hne)]
      exact ih hlevel hnodup.2

/-- The prices of a fill are distinct. -/
theorem fill_nodup (hbooks : DistinctPrices books)
    (h : fillLevels sell limit fee (levels cap books consumed marketId yes sell) desired
      accumulator = .ok fill) : (fill.map FillLevel.price).Nodup := by
  refine List.Nodup.sublist (fillLevels_taken h).prices.sublist ?_
  unfold levels
  split
  · exact List.nodup_nil
  · refine List.Nodup.sublist remainingLevels_sublist ?_
    have hmap := (hbooks marketId (bookSide (yes != sell))).map (outcomePrice_injective yes)
    rwa [List.map_map] at hmap

/-- **No displayed quantity is consumed twice.** After a fill, the consumption at every level that
it takes is at most the quantity displayed there. -/
theorem fill_consumes_le (hbooks : DistinctPrices books)
    (h : fillLevels sell limit fee (levels cap books consumed marketId yes sell) desired
      accumulator = .ok fill) (hrow : row ∈ fill) :
    consume consumed marketId yes sell fill (physicalLevel marketId yes sell row.price) ≤
      displayed books (physicalLevel marketId yes sell row.price) := by
  rw [consume_of_mem (fill_nodup hbooks h) hrow]
  obtain ⟨level, hlevel, hprice, -, hle⟩ := (fillLevels_taken h).levels row hrow
  unfold levels at hlevel
  split at hlevel
  · cases hlevel
  · obtain ⟨source, hsource, hlevelPrice, -, hused⟩ := mem_remainingLevels hlevel
    have hphysical : physicalLevel marketId yes sell row.price =
        ⟨marketId, yes != sell, source.price.raw⟩ := by
      rw [physicalLevel, hprice, hlevelPrice, outcomePrice_outcomePrice]
    rw [hphysical, displayed_of_mem hbooks hsource]
    omega

end Consume

end EventMarket.Session
