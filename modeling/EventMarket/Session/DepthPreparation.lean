import EventMarket.Core.PairAgreement
import EventMarket.Session.StudyWalk

/-!
# Preparing depth does not change sizing

A search sees a book as a ladder. Four loops prepare ladders: the cache of the basket observation
cuts the levels at the cap, the reader of published bids saturates every level, the basket
simulator cuts at the cap what is left after its fills, and the pair study floors to the grid as
well. Each ladder agrees, up to the cap, with the whole ladder of what is left; so the search
returns the same for both.

## Main definitions

* `netLevels`, `netLadder`: what is left of a side, whole.
* `parseBids`: published bids as a ladder.
* `CutFrom`: a ladder whose prices are among those of another.

## Main results

* `takeDepth_agrees`, `parseBids_eq_ok`, `remainingLevels_agrees`, `sizingLevels_agrees`: each
  prepared ladder agrees with the whole one.
* `preparation_keeps_sizing`: the search returns the same for both.
-/

namespace EventMarket.Session

open Book Constraint Core Foundations Gateway Market

/-! ### Whole ladders -/

/-- What is left of every level of a side; the prices are those of the outcome, while `used` goes
by the price shown. -/
def netLevels (yes : Bool) (used : Price → ℕ) (shown : List Level) : List BuyLevel :=
  shown.map fun level => ⟨outcomePrice yes level.price,
    ⟨level.quantity.raw - used level.price, (Nat.sub_le _ _).trans level.quantity.le_max⟩⟩

theorem netLevels_cons (yes : Bool) (used : Price → ℕ) (level : Level) (shown : List Level) :
    netLevels yes used (level :: shown) = ⟨outcomePrice yes level.price,
      ⟨level.quantity.raw - used level.price, (Nat.sub_le _ _).trans level.quantity.le_max⟩⟩ ::
        netLevels yes used shown := rfl

/-- The levels of a side of which something is left. -/
def netLadder (yes : Bool) (used : Price → ℕ) (shown : List Level) : List BuyLevel :=
  (netLevels yes used shown).filter fun level => decide (level.quantity.raw ≠ 0)

/-- A ladder whose prices are among those of another, without empty levels. -/
structure CutFrom (whole cut : List BuyLevel) : Prop where
  prices : List.Sublist (cut.map BuyLevel.price) (whole.map BuyLevel.price)
  nonempty : ∀ level ∈ cut, level.quantity.raw ≠ 0

namespace CutFrom

variable {whole cut : List BuyLevel} {level other : BuyLevel} {fees : FeePolicy}

theorem nil (whole : List BuyLevel) : CutFrom whole [] :=
  ⟨List.nil_sublist _, by simp⟩

theorem skip (h : CutFrom whole cut) (level : BuyLevel) : CutFrom (level :: whole) cut :=
  ⟨h.prices.cons _, h.nonempty⟩

theorem keep (h : CutFrom whole cut) (hprice : other.price = level.price)
    (hne : other.quantity.raw ≠ 0) : CutFrom (level :: whole) (other :: cut) := by
  refine ⟨?_, ?_⟩
  · rw [List.map_cons, List.map_cons, hprice]
    exact h.prices.cons_cons _
  · intro next hnext
    rcases List.mem_cons.mp hnext with rfl | hnext
    · exact hne
    · exact h.nonempty next hnext

theorem ascending (h : CutFrom whole cut) (ha : Ascending whole) : Ascending cut := by
  have hprices : (cut.map BuyLevel.price).Pairwise fun first second => first.raw < second.raw :=
    List.Pairwise.sublist h.prices (List.pairwise_map.mpr ha)
  rwa [List.pairwise_map] at hprices

theorem length_le (h : CutFrom whole cut) : cut.length ≤ whole.length := by
  simpa using h.prices.length_le

/-- A ladder cut from a valid one is valid. -/
theorem validBasket (h : CutFrom whole cut) (hvalid : BuyDepth.ValidBasket ⟨whole, fees⟩) :
    BuyDepth.ValidBasket ⟨cut, fees⟩ :=
  ⟨h.length_le.trans hvalid.1, hvalid.2.1, h.ascending hvalid.2.2.1, h.nonempty⟩

theorem valid (h : CutFrom whole cut) (hvalid : BuyDepth.Valid ⟨whole, fees⟩) :
    BuyDepth.Valid ⟨cut, fees⟩ :=
  ⟨hvalid.1, h.length_le.trans hvalid.2.1, h.ascending hvalid.2.2⟩

end CutFrom

section Ladder

variable {yes : Bool} {used : Price → ℕ} {level : Level} {shown : List Level}

theorem netLadder_cons_of_empty (h : level.quantity.raw - used level.price = 0) :
    netLadder yes used (level :: shown) = netLadder yes used shown :=
  List.filter_cons_of_neg (by rw [decide_eq_true_iff]; exact not_not.mpr h)

theorem netLadder_cons_of_pos (h : 0 < level.quantity.raw - used level.price) :
    netLadder yes used (level :: shown) =
      ⟨outcomePrice yes level.price, ⟨level.quantity.raw - used level.price,
        (Nat.sub_le _ _).trans level.quantity.le_max⟩⟩ :: netLadder yes used shown :=
  List.filter_cons_of_pos (decide_eq_true h.ne')

end Ladder

/-! ### The levels of the basket simulator -/

section Remaining

variable {cap collected : ℕ} {used : ℕ → ℕ} {yes : Bool}

/-- **What the basket simulator keeps** agrees with the whole ladder up to the cap. -/
theorem remainingLevels_agrees (shown : List Level) (hlt : collected < cap) :
    Agrees (cap - collected) (netLadder yes (fun price => used price.raw) shown)
        (remainingLevels cap used yes shown collected) ∧
      CutFrom (netLadder yes (fun price => used price.raw) shown)
        (remainingLevels cap used yes shown collected) := by
  induction shown generalizing collected with
  | nil => exact ⟨.nil _, .nil _⟩
  | cons level shown ih =>
    rw [remainingLevels]
    dsimp only
    rcases Nat.eq_zero_or_pos (level.quantity.raw - used level.price.raw) with hempty | hpos
    · rw [if_pos (by rw [hempty, Nat.zero_min]), netLadder_cons_of_empty hempty]
      exact ih hlt
    rw [if_neg (by omega), netLadder_cons_of_pos hpos]
    rcases le_or_gt (cap - collected) (level.quantity.raw - used level.price.raw) with hle | hgt
    · -- The level reaches the cap: it is cut, and the ladder ends.
      rw [if_pos (by omega)]
      refine ⟨.reached _ _ rfl hle (le_min hle le_rfl), (CutFrom.nil _).keep rfl ?_⟩
      dsimp only
      omega
    · rw [if_neg (by omega)]
      have htake : min (level.quantity.raw - used level.price.raw) (cap - collected) =
          level.quantity.raw - used level.price.raw := min_eq_left hgt.le
      simp only [htake]
      have hroom : collected + (level.quantity.raw - used level.price.raw) < cap := by omega
      obtain ⟨hagrees, hcut⟩ := ih hroom
      rw [← Nat.sub_sub] at hagrees
      exact ⟨.cons _ hagrees, hcut.keep rfl hpos.ne'⟩

end Remaining

/-! ### The cache of the observation -/

/-- **What the observation caches** agrees with the whole ladder up to the cap. -/
theorem takeDepth_agrees {cap available : ℕ} (side : Fin 2) (shown : List Level)
    (depth : List BuyLevel) (hlt : available < cap) :
    ∃ cut, (Observation.takeDepth cap side shown (depth, available)).1 = depth ++ cut ∧
      Agrees (cap - available) (netLadder (decide (side = 0)) (fun _ => 0) shown) cut ∧
      CutFrom (netLadder (decide (side = 0)) (fun _ => 0) shown) cut := by
  induction shown generalizing depth available with
  | nil => exact ⟨[], (List.append_nil _).symm, .nil _, .nil _⟩
  | cons level shown ih =>
    have hprice : (if side = 0 then level.price else level.price.complement) =
        outcomePrice (decide (side = 0)) level.price := by
      simp only [outcomePrice, decide_eq_true_eq]
    rw [Observation.takeDepth]
    dsimp only
    rw [hprice]
    rcases Nat.eq_zero_or_pos level.quantity.raw with hempty | hpos
    · have htake : ¬0 < min level.quantity.raw (cap - available) := by omega
      rw [if_neg htake, if_pos hlt, netLadder_cons_of_empty (by omega)]
      exact ih depth hlt
    have htake : 0 < min level.quantity.raw (cap - available) := by omega
    rw [if_pos htake, netLadder_cons_of_pos (by omega)]
    dsimp only [Nat.sub_zero]
    rcases le_or_gt (cap - available) level.quantity.raw with hle | hgt
    · rw [if_neg (by omega)]
      refine ⟨_, rfl, .reached _ _ rfl hle (le_min hle le_rfl), (CutFrom.nil _).keep rfl ?_⟩
      dsimp only
      omega
    · rw [if_pos (by omega)]
      have htake : min level.quantity.raw (cap - available) = level.quantity.raw :=
        min_eq_left hgt.le
      simp only [htake]
      have hroom : available + level.quantity.raw < cap := by omega
      obtain ⟨cut, heq, hagrees, hcut⟩ :=
        ih (depth ++ [⟨outcomePrice (decide (side = 0)) level.price, level.quantity⟩]) hroom
      rw [← Nat.sub_sub] at hagrees
      refine ⟨⟨outcomePrice (decide (side = 0)) level.price, level.quantity⟩ :: cut, ?_,
        .cons _ hagrees, hcut.keep rfl hpos.ne'⟩
      rw [heq, List.append_assoc]
      rfl

/-! ### The levels of a pair -/

section Pair

variable {cap step total : ℕ} {used : Price → ℕ} {yes : Bool}

/-- Levels of a price are floored alike when they offer the same on the grid. -/
theorem gridLevel_congr {level other : BuyLevel} (hprice : level.price = other.price)
    (hsize : level.quantity.raw / step * step = other.quantity.raw / step * step) :
    gridLevel step level = gridLevel step other := by
  simp only [gridLevel, hprice, hsize]

theorem gridLevel_quantity (level : BuyLevel) :
    (gridLevel step level).quantity.raw = level.quantity.raw / step * step := rfl

/-- What is taken of a level, in steps. -/
theorem sizingTake_eq {steps : ℕ} (offered : ℕ) :
    min offered (cap - step * steps) / step * step =
      min (offered / step) (cap / step - steps) * step := by
  have hmono : Monotone fun quantity : ℕ => quantity / step :=
    fun _ _ hle => Nat.div_le_div_right hle
  have hmin : min offered (cap - step * steps) / step =
      min (offered / step) ((cap - step * steps) / step) := hmono.map_min
  rw [hmin, Nat.sub_mul_div]

/-- **What the quote of a pair prepares** agrees on the grid with the whole ladder, up to the grid
cap. -/
theorem sizingLevels_agrees (shown : List Level) (hdvd : step ∣ total)
    (hlt : total < cap / step * step) :
    Agrees (cap / step * step - total)
        (gridLevels step (netLevels yes (fun price => used (outcomePrice yes price)) shown))
        (gridLevels step (sizingLevels cap step used yes shown total)) ∧
      CutFrom (netLevels yes (fun price => used (outcomePrice yes price)) shown)
        (sizingLevels cap step used yes shown total) := by
  induction shown generalizing total with
  | nil => exact ⟨.nil _, .nil _⟩
  | cons level shown ih =>
    obtain ⟨steps, rfl⟩ := hdvd
    have hstep : 0 < step := Nat.pos_of_ne_zero fun hzero => by simp [hzero] at hlt
    have hsteps : steps < cap / step := by
      rw [mul_comm (cap / step)] at hlt
      exact Nat.lt_of_mul_lt_mul_left hlt
    obtain ⟨count, hcount⟩ :
        ∃ count, (level.quantity.raw - used (outcomePrice yes level.price)) / step = count :=
      ⟨_, rfl⟩
    have hgrid : (level.quantity.raw - used (outcomePrice yes level.price)) / step * step =
        count * step := by rw [hcount]
    rw [sizingLevels, netLevels_cons]
    dsimp only
    simp only [sizingTake_eq, hcount]
    rcases Nat.eq_zero_or_pos count with rfl | hpos
    · -- The level is too small for the grid.
      rw [Nat.zero_mul] at hgrid
      simp only [Nat.zero_min, Nat.zero_mul, Nat.add_zero, if_true, if_pos hlt]
      rw [gridLevels_cons_of_empty hgrid]
      obtain ⟨hagrees, hcut⟩ := ih (Dvd.intro _ rfl) hlt
      exact ⟨hagrees, hcut.skip _⟩
    have hcountPos : 0 < count * step := Nat.mul_pos hpos hstep
    rw [gridLevels_cons_of_pos (hgrid.symm ▸ hcountPos)]
    rcases le_or_gt (cap / step - steps) count with hle | hgt
    · -- The level reaches the grid cap.
      have hreach : step * steps + (cap / step - steps) * step = cap / step * step := by
        rw [mul_comm step, ← Nat.add_mul, Nat.add_sub_cancel' hsteps.le]
      have hne : 0 < (cap / step - steps) * step := Nat.mul_pos (Nat.sub_pos_of_lt hsteps) hstep
      have hfloor : (cap / step - steps) * step / step * step = (cap / step - steps) * step := by
        rw [Nat.mul_div_cancel _ hstep]
      have hstop : ¬step * steps + (cap / step - steps) * step < cap / step * step := by
        rw [hreach]
        exact lt_irrefl _
      simp only [min_eq_right hle, if_neg hne.ne', if_neg hstop]
      rw [gridLevels_cons_of_pos (hfloor.symm ▸ hne)]
      refine ⟨.reached _ _ rfl ?_ ?_, (CutFrom.nil _).keep rfl hne.ne'⟩
      · calc cap / step * step - step * steps = (cap / step - steps) * step := by omega
          _ ≤ count * step := Nat.mul_le_mul_right _ hle
          _ = _ := hgrid.symm
      · calc cap / step * step - step * steps = (cap / step - steps) * step := by omega
          _ ≤ _ := hfloor.ge
    · have hnext : step * steps + count * step < cap / step * step := by
        calc step * steps + count * step = (steps + count) * step := by ring
          _ < cap / step * step := Nat.mul_lt_mul_of_pos_right (by omega) hstep
      have hfloor : count * step / step * step = count * step := by
        rw [Nat.mul_div_cancel _ hstep]
      simp only [min_eq_left hgt.le, if_neg hcountPos.ne', if_pos hnext]
      rw [gridLevels_cons_of_pos (hfloor.symm ▸ hcountPos)]
      obtain ⟨hagrees, hcut⟩ := ih ((Dvd.intro _ rfl).add (Dvd.intro_left _ rfl)) hnext
      refine ⟨?_, hcut.keep rfl hcountPos.ne'⟩
      rw [← Nat.sub_sub] at hagrees
      have hsame (hle hle') :
          gridLevel step ⟨outcomePrice yes level.price,
            ⟨level.quantity.raw - used (outcomePrice yes level.price), hle⟩⟩ =
          gridLevel step ⟨outcomePrice yes level.price, ⟨count * step, hle'⟩⟩ :=
        gridLevel_congr rfl (hgrid.trans hfloor.symm)
      rw [hsame]
      refine .cons _ ?_
      rwa [gridLevel_quantity, hfloor]

end Pair

/-! ### Published bids -/

/-- Read one bid: a price above the previous one and a quantity. -/
def readBid (previous : ℤ) : Json → Except StudyException Level
  | .array [.unsigned price, .unsigned quantity] =>
    if h : price ≤ 10000 ∧ quantity ≤ int64Max then
      if quantity = 0 then invalid "bid price/quantity"
      else if (price : ℤ) ≤ previous then invalid "bids must be ascending and unique"
      else .ok ⟨⟨price, h.1⟩, ⟨quantity, h.2⟩⟩
    else invalid "bid price/quantity"
  | _ => invalid "bid price/quantity"

/-- A quantity within the largest one. -/
def saturated (quantity : Quantity) : Quantity :=
  ⟨min quantity.raw maximumBasketQuantity, (min_le_left _ _).trans quantity.le_max⟩

/-- Read the rows of the bids; the levels that buy the complement come out best first. -/
def parseBidRows : List Json → ℤ → List BuyLevel → ℕ → Except StudyException (List BuyLevel × ℕ)
  | [], _, result, available => .ok (result, available)
  | row :: rows, previous, result, available => do
    let bid ← readBid previous row
    parseBidRows rows bid.price.raw (⟨bid.price.complement, saturated bid.quantity⟩ :: result)
      (min maximumBasketQuantity (available + (saturated bid.quantity).raw))

/-- Read published bids, with the number of levels so far and the quantity so far. -/
def parseBids (rows : Json) (totalLevels available : ℕ) :
    Except StudyException (List BuyLevel × ℕ × ℕ) :=
  match rows with
  | .array rows =>
    if 10001 < rows.length ∨ 1000000 < totalLevels + rows.length then invalid "bid levels"
    else do
      let (levels, available) ← parseBidRows rows (-1) [] available
      .ok (levels, totalLevels + rows.length, available)
  | _ => invalid "bid levels"

/-- A bid as it is published. -/
def bidRow (bid : Level) : Json := .array [.unsigned bid.price.raw, .unsigned bid.quantity.raw]

/-- The level that buys the complement from a bid. -/
def bidLevel (bid : Level) : BuyLevel := ⟨bid.price.complement, saturated bid.quantity⟩

section Bids

variable {bids : List Level}

/-- A bid is read back. -/
theorem readBid_bidRow {previous : ℤ} {bid : Level} (hprevious : previous < bid.price.raw)
    (hne : bid.quantity.raw ≠ 0) : readBid previous (bidRow bid) = .ok bid := by
  have hrange : bid.price.raw ≤ 10000 ∧ bid.quantity.raw ≤ int64Max :=
    ⟨bid.price.le_scale, bid.quantity.le_max⟩
  rw [bidRow, readBid, dif_pos hrange, if_neg hne, if_neg (not_le.mpr hprevious)]

/-- Bids in ascending order are read, the last one first. -/
theorem parseBidRows_map {previous : ℤ} (hprevious : ∀ bid ∈ bids, previous < bid.price.raw)
    (hascending : bids.Pairwise fun first second => first.price.raw < second.price.raw)
    (hne : ∀ bid ∈ bids, bid.quantity.raw ≠ 0) (result : List BuyLevel) (available : ℕ) :
    ∃ offered, parseBidRows (bids.map bidRow) previous result available =
      .ok ((bids.map bidLevel).reverse ++ result, offered) := by
  induction bids generalizing previous result available with
  | nil => exact ⟨available, rfl⟩
  | cons bid bids ih =>
    rw [List.map_cons, parseBidRows,
      readBid_bidRow (hprevious bid List.mem_cons_self) (hne bid List.mem_cons_self)]
    have hnext (next) (hmem : next ∈ bids) : (bid.price.raw : ℤ) < next.price.raw :=
      Int.ofNat_lt.mpr (List.rel_of_pairwise_cons hascending hmem)
    obtain ⟨offered, hoffered⟩ := ih hnext
      hascending.of_cons (fun next hnext => hne next (List.mem_cons_of_mem _ hnext))
      (bidLevel bid :: result)
      (min maximumBasketQuantity (available + (saturated bid.quantity).raw))
    refine ⟨offered, hoffered.trans ?_⟩
    rw [List.map_cons, List.reverse_cons, List.append_assoc]
    rfl

/-- What is read was published so. -/
theorem readBid_eq_ok {previous : ℤ} {row : Json} {bid : Level}
    (h : readBid previous row = .ok bid) : row = bidRow bid := by
  unfold readBid at h
  split at h
  · split_ifs at h with hrange hzero horder
    · cases h
    · cases h
    · cases h
      rfl
    · cases h
  · cases h

/-- **What was published.** Rows are accepted only when they list bids, and the ladder buys the
complements from these, the best bid first. -/
theorem parseBidRows_eq_ok {rows : List Json} {previous : ℤ} {result levels : List BuyLevel}
    {available offered : ℕ} (h : parseBidRows rows previous result available =
      .ok (levels, offered)) :
    ∃ bids : List Level, rows = bids.map bidRow ∧
      levels = (bids.map bidLevel).reverse ++ result := by
  induction rows generalizing previous result available with
  | nil =>
    cases h
    exact ⟨[], rfl, rfl⟩
  | cons row rows ih =>
    obtain ⟨bid, hbid, hrest⟩ := bind_eq_ok h
    obtain ⟨bids, rfl, rfl⟩ := ih hrest
    refine ⟨bid :: bids, ?_, ?_⟩
    · rw [readBid_eq_ok hbid, List.map_cons]
    · rw [List.map_cons, List.reverse_cons, List.append_assoc]
      rfl

theorem parseBids_eq_ok {rows : Json} {totalLevels available : ℕ}
    {result : List BuyLevel × ℕ × ℕ} (h : parseBids rows totalLevels available = .ok result) :
    ∃ bids : List Level, rows = .array (bids.map bidRow) ∧
      result.1 = (bids.map bidLevel).reverse := by
  unfold parseBids at h
  split at h
  · split_ifs at h with hlong
    · cases h
    obtain ⟨⟨levels, offered⟩, hrows, hresult⟩ := bind_eq_ok h
    obtain ⟨bids, rfl, hlevels⟩ := parseBidRows_eq_ok hrows
    cases hresult
    exact ⟨bids, rfl, hlevels.trans (List.append_nil _)⟩
  · cases h

/-- **What is read from published bids** agrees with the whole ladder up to any cap within the
largest quantity. -/
theorem bidLevels_agrees {needed : ℕ} (hle : needed ≤ maximumBasketQuantity) (shown : List Level) :
    Agrees needed (netLevels false (fun _ => 0) shown) (shown.map bidLevel) := by
  induction shown generalizing needed with
  | nil => exact .nil _
  | cons bid shown ih =>
    rw [List.map_cons, netLevels_cons]
    rcases le_or_gt bid.quantity.raw maximumBasketQuantity with hfits | hlarge
    · have hsame : saturated bid.quantity = bid.quantity := by
        rw [saturated]
        simp only [min_eq_left hfits]
      rw [bidLevel, hsame]
      exact .cons _ (ih ((Nat.sub_le _ _).trans hle))
    · refine .reached _ _ rfl (hle.trans hlarge.le) ?_
      rw [bidLevel, saturated]
      dsimp only
      rwa [min_eq_right hlarge.le]

end Bids

/-! ### Sizing -/

/-- The ladders of three legs with their fees. -/
def basketDepth (fees : Fin 3 → FeePolicy) (ladders : Fin 3 → List BuyLevel) (leg : Fin 3) :
    BuyDepth := ⟨ladders leg, fees leg⟩

/-- A basket is sized alike on ladders cut from whole ones that agree with them up to the cap. -/
theorem sizeBuyBasket_cut {fees : Fin 3 → FeePolicy} {whole cut : Fin 3 → List BuyLevel}
    {limits : SizingLimits} (hvalid : ∀ leg, (basketDepth fees whole leg).ValidBasket)
    (hcut : limits.ValidBasket → ∀ leg,
      Agrees limits.cap.raw (whole leg) (cut leg) ∧ CutFrom (whole leg) (cut leg)) :
    sizeBuyBasket (basketDepth fees cut) limits =
      sizeBuyBasket (basketDepth fees whole) limits := by
  by_cases hlimits : limits.ValidBasket
  · exact (sizeBuyBasket_congr hvalid
      (fun leg => (hcut hlimits leg).2.validBasket (hvalid leg)) (fun _ => rfl)
      fun _ leg => (hcut hlimits leg).1).symm
  · rw [sizeBuyBasket, sizeBuyBasket, if_neg fun h => hlimits h.1, if_neg fun h => hlimits h.1]

/-- The ladders of two legs with their fees. -/
def pairDepth (fees : Fin 2 → FeePolicy) (ladders : Fin 2 → List BuyLevel) (leg : Fin 2) :
    BuyDepth := ⟨ladders leg, fees leg⟩

/-- A pair is sized alike on ladders that agree with whole ones on the grid. -/
theorem sizeBuyPair_cut {fees : Fin 2 → FeePolicy} {whole cut : Fin 2 → List BuyLevel}
    {limits : SizingLimits} (hvalid : ∀ leg, (pairDepth fees whole leg).Valid)
    (hcut : limits.Valid → ∀ leg, Agrees limits.gridCap (gridLevels limits.step.raw (whole leg))
      (gridLevels limits.step.raw (cut leg)) ∧ CutFrom (whole leg) (cut leg)) :
    sizeBuyPair (pairDepth fees cut) limits = sizeBuyPair (pairDepth fees whole) limits := by
  by_cases hlimits : limits.Valid
  · exact (sizeBuyPair_congr hvalid
      (fun leg => (hcut hlimits leg).2.valid (hvalid leg)) (fun _ => rfl)
      fun _ leg => (hcut hlimits leg).1).symm
  · rw [sizeBuyPair, sizeBuyPair, if_neg fun h => hlimits h.1, if_neg fun h => hlimits h.1]

section Keeps

variable {limits : SizingLimits} {fees : Fin 3 → FeePolicy} {shown bids : Fin 3 → List Level}

/-- The cache of the observation keeps sizing. -/
theorem takeDepth_keeps_sizing {side : Fin 3 → Fin 2}
    (hvalid : ∀ leg, (basketDepth fees
      (fun leg => netLadder (decide (side leg = 0)) (fun _ => 0) (shown leg)) leg).ValidBasket) :
    sizeBuyBasket (basketDepth fees fun leg =>
        (Observation.takeDepth limits.cap.raw (side leg) (shown leg) ([], 0)).1) limits =
      sizeBuyBasket (basketDepth fees fun leg =>
        netLadder (decide (side leg = 0)) (fun _ => 0) (shown leg)) limits := by
  refine sizeBuyBasket_cut hvalid fun hlimits leg => ?_
  obtain ⟨cut, heq, hagrees, hcut⟩ :=
    takeDepth_agrees (side leg) (shown leg) [] hlimits.cap_pos
  rw [heq, List.nil_append]
  exact ⟨hagrees, hcut⟩

/-- The reader of published bids keeps sizing. -/
theorem bidLevels_keep_sizing
    (hvalid : ∀ leg, (basketDepth fees
      (fun leg => netLevels false (fun _ => 0) (bids leg).reverse) leg).ValidBasket) :
    sizeBuyBasket (basketDepth fees fun leg => (bids leg).reverse.map bidLevel) limits =
      sizeBuyBasket (basketDepth fees fun leg =>
        netLevels false (fun _ => 0) (bids leg).reverse) limits := by
  refine sizeBuyBasket_cut hvalid fun hlimits leg => ⟨bidLevels_agrees hlimits.2.1 _, ?_, ?_⟩
  · rw [netLevels, List.map_map, List.map_map]
    exact List.Sublist.refl _
  · intro level hlevel
    obtain ⟨bid, hbid, rfl⟩ := List.mem_map.mp hlevel
    have hne : bid.quantity.raw ≠ 0 :=
      (hvalid leg).2.2.2 _ (List.mem_map_of_mem hbid)
    have hmax : 0 < maximumBasketQuantity := Nat.succ_pos _
    exact (lt_min (Nat.pos_of_ne_zero hne) hmax).ne'

/-- Bids whose ladder is valid are accepted. -/
theorem parseBids_of_valid {fee : FeePolicy} {bids : List Level} {totalLevels : ℕ}
    (hvalid : BuyDepth.ValidBasket ⟨netLevels false (fun _ => 0) bids.reverse, fee⟩)
    (htotal : totalLevels + bids.length ≤ 1000000) (available : ℕ) :
    ∃ offered, parseBids (.array (bids.map bidRow)) totalLevels available =
      .ok (bids.reverse.map bidLevel, totalLevels + bids.length, offered) := by
  obtain ⟨hlength, -, hascending, hne⟩ := hvalid
  rw [netLevels, List.length_map, List.length_reverse] at hlength
  have hne (bid) (hbid : bid ∈ bids) : bid.quantity.raw ≠ 0 :=
    hne _ (List.mem_map_of_mem (List.mem_reverse.mpr hbid))
  have hascending : bids.Pairwise fun first second => first.price.raw < second.price.raw := by
    rw [Ascending, netLevels, List.pairwise_map, List.pairwise_reverse] at hascending
    refine hascending.imp fun {first second} h => ?_
    have hfirst := first.price.le_scale
    have hsecond := second.price.le_scale
    simp only [outcomePrice, Bool.false_eq_true, if_false, Price.complement] at h
    omega
  have hprevious (bid) (_ : bid ∈ bids) : (-1 : ℤ) < bid.price.raw := by omega
  obtain ⟨offered, hoffered⟩ := parseBidRows_map hprevious hascending hne [] available
  refine ⟨offered, ?_⟩
  rw [parseBids, List.length_map, if_neg (by omega), hoffered, List.append_nil,
    ← List.map_reverse]
  rfl

/-- The levels of the basket simulator keep sizing. -/
theorem remainingLevels_keep_sizing {yes : Fin 3 → Bool} {used : Fin 3 → ℕ → ℕ}
    (hvalid : ∀ leg, (basketDepth fees
      (fun leg => netLadder (yes leg) (fun price => used leg price.raw)
        (shown leg)) leg).ValidBasket) :
    sizeBuyBasket (basketDepth fees fun leg =>
        remainingLevels limits.cap.raw (used leg) (yes leg) (shown leg) 0) limits =
      sizeBuyBasket (basketDepth fees fun leg =>
        netLadder (yes leg) (fun price => used leg price.raw) (shown leg)) limits :=
  sizeBuyBasket_cut hvalid fun hlimits leg => remainingLevels_agrees (shown leg) hlimits.cap_pos

/-- The levels of a pair keep sizing. -/
theorem sizingLevels_keep_sizing {fees : Fin 2 → FeePolicy} {yes : Fin 2 → Bool}
    {used : Fin 2 → Price → ℕ} {shown : Fin 2 → List Level}
    (hvalid : ∀ leg, (pairDepth fees (fun leg => netLevels (yes leg)
      (fun price => used leg (outcomePrice (yes leg) price)) (shown leg)) leg).Valid) :
    sizeBuyPair (pairDepth fees fun leg =>
        sizingLevels limits.cap.raw limits.step.raw (used leg) (yes leg) (shown leg) 0) limits =
      sizeBuyPair (pairDepth fees fun leg => netLevels (yes leg)
        (fun price => used leg (outcomePrice (yes leg) price)) (shown leg)) limits :=
  sizeBuyPair_cut hvalid fun hlimits leg =>
    sizingLevels_agrees (shown leg) (Nat.dvd_zero _) hlimits.gridCap_pos

end Keeps

/-- **Preparing depth does not change sizing.** Whatever the side, the consumption, the fees and the
limits: when the whole ladders are valid, the search returns the same result, with its status, its
quote and its number of evaluations, on the ladders of the observation's cache, on published bids
(which are then accepted), on the levels of the basket simulator, and on the levels of a pair. -/
theorem preparation_keeps_sizing :
    (∀ (fees : Fin 3 → FeePolicy) (limits : SizingLimits) (side : Fin 3 → Fin 2)
      (shown : Fin 3 → List Level),
      (∀ leg, (basketDepth fees (fun leg =>
        netLadder (decide (side leg = 0)) (fun _ => 0) (shown leg)) leg).ValidBasket) →
      sizeBuyBasket (basketDepth fees fun leg =>
          (Observation.takeDepth limits.cap.raw (side leg) (shown leg) ([], 0)).1) limits =
        sizeBuyBasket (basketDepth fees fun leg =>
          netLadder (decide (side leg = 0)) (fun _ => 0) (shown leg)) limits) ∧
    (∀ (fees : Fin 3 → FeePolicy) (limits : SizingLimits) (bids : Fin 3 → List Level)
      (totalLevels available : Fin 3 → ℕ),
      (∀ leg, (basketDepth fees (fun leg =>
        netLevels false (fun _ => 0) (bids leg).reverse) leg).ValidBasket) →
      (∀ leg, totalLevels leg + (bids leg).length ≤ 1000000) →
      ∃ read : Fin 3 → List BuyLevel × ℕ × ℕ,
        (∀ leg, parseBids (.array ((bids leg).map bidRow)) (totalLevels leg) (available leg) =
          .ok (read leg)) ∧
        sizeBuyBasket (basketDepth fees fun leg => (read leg).1) limits =
          sizeBuyBasket (basketDepth fees fun leg =>
            netLevels false (fun _ => 0) (bids leg).reverse) limits) ∧
    (∀ (fees : Fin 3 → FeePolicy) (limits : SizingLimits) (yes : Fin 3 → Bool)
      (used : Fin 3 → ℕ → ℕ) (shown : Fin 3 → List Level),
      (∀ leg, (basketDepth fees (fun leg =>
        netLadder (yes leg) (fun price => used leg price.raw) (shown leg)) leg).ValidBasket) →
      sizeBuyBasket (basketDepth fees fun leg =>
          remainingLevels limits.cap.raw (used leg) (yes leg) (shown leg) 0) limits =
        sizeBuyBasket (basketDepth fees fun leg =>
          netLadder (yes leg) (fun price => used leg price.raw) (shown leg)) limits) ∧
    (∀ (fees : Fin 2 → FeePolicy) (limits : SizingLimits) (yes : Fin 2 → Bool)
      (used : Fin 2 → Price → ℕ) (shown : Fin 2 → List Level),
      (∀ leg, (pairDepth fees (fun leg => netLevels (yes leg)
        (fun price => used leg (outcomePrice (yes leg) price)) (shown leg)) leg).Valid) →
      sizeBuyPair (pairDepth fees fun leg =>
          sizingLevels limits.cap.raw limits.step.raw (used leg) (yes leg) (shown leg) 0) limits =
        sizeBuyPair (pairDepth fees fun leg => netLevels (yes leg)
          (fun price => used leg (outcomePrice (yes leg) price)) (shown leg)) limits) := by
  refine ⟨fun _ _ _ _ => takeDepth_keeps_sizing, ?_, fun _ _ _ _ _ => remainingLevels_keep_sizing,
    fun _ _ _ _ _ => sizingLevels_keep_sizing⟩
  intro fees limits bids totalLevels available hvalid htotal
  choose offered hoffered using fun leg =>
    parseBids_of_valid (hvalid leg) (htotal leg) (available leg)
  exact ⟨_, hoffered, bidLevels_keep_sizing hvalid⟩

/-- Bids of which one is larger than any search, and limits whose cap they exceed. -/
def sampleBids (leg : Fin 3) : List Level :=
  [⟨⟨2000 + leg.val, by omega⟩, ⟨40, by decide⟩⟩, ⟨⟨7500, by decide⟩, ⟨30000, by decide⟩⟩]

def sampleFees {legs : ℕ} (_ : Fin legs) : FeePolicy := ⟨70000, 10000⟩

def sampleBidLimits : SizingLimits where
  cap := .capped 300
  step := .capped 100
  available := .capped 1000000000
  minimumMargin := .capped 0
  maxEvaluations := 100

theorem preparation_keeps_sizing_sample :
    (∃ read : Fin 3 → List BuyLevel × ℕ × ℕ,
      (∀ leg, parseBids (.array ((sampleBids leg).map bidRow)) 0 0 = .ok (read leg)) ∧
      sizeBuyBasket (basketDepth sampleFees fun leg => (read leg).1) sampleBidLimits =
        sizeBuyBasket (basketDepth sampleFees fun leg =>
          netLevels false (fun _ => 0) (sampleBids leg).reverse) sampleBidLimits) ∧
    sizeBuyPair (pairDepth sampleFees fun leg =>
        sizingLevels 300 100 (fun _ => 0) false (sampleBids leg.castSucc).reverse 0)
        sampleBidLimits =
      sizeBuyPair (pairDepth sampleFees fun leg =>
        netLevels false (fun _ => 0) (sampleBids leg.castSucc).reverse) sampleBidLimits :=
  ⟨preparation_keeps_sizing.2.1 sampleFees sampleBidLimits sampleBids (fun _ => 0) (fun _ => 0)
      (by decide) (by decide),
    preparation_keeps_sizing.2.2.2 sampleFees sampleBidLimits (fun _ => false)
      (fun _ _ => 0) (fun leg => (sampleBids leg.castSucc).reverse) (by decide)⟩

end EventMarket.Session
