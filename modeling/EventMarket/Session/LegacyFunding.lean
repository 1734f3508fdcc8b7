import EventMarket.Session.LegacyQuote
import EventMarket.Session.StudyArrival

/-!
# The largest funded quantity

The first policies quote both legs of a pair at the largest quantity that both books fill and that
is funded. A walk for more fills the same levels first, so that a larger quantity has a worst price
and a reservation that are no smaller: what is funded is a lower part of the grid, and the bisection
ends at the largest funded quantity.

## Main definitions

* `StudyPolicy.Sized`: what a loaded policy guarantees of the sizes.
* `Affordable`: a grid quantity that both books fill and that is funded.
* `QuotesLargest`: the quote of the largest of them.

## Main results

* `walkLevels_nested`: the walks for two quantities.
* `fundedSteps_eq`: the bisection ends at the largest funded number of steps.
* `legacyQuote_eq`: the quote of the first policies.
-/

namespace EventMarket.Session

open Book Constraint Core Market

/-- The sizes of a loaded policy. -/
structure StudyPolicy.Sized (policy : StudyPolicy) : Prop where
  cap_le : policy.quantityCap.raw ≤ quantityLimit
  step_eq : policy.quantityStep.raw = 1 ∨ policy.quantityStep.raw = 100
  step_le : policy.quantityStep.raw ≤ policy.quantityCap.raw

theorem StudyPolicy.Sized.step_pos {policy : StudyPolicy} (h : policy.Sized) :
    0 < policy.quantityStep.raw := by
  rcases h.step_eq with h | h <;> omega

/-! ### Walks that only quote -/

/-- The order of a quote. -/
def depthOrder (leg : PayoffLegTemplate) (quantity : ℕ) : WalkOrder where
  leg := leg
  quantity := quantity
  limit := 10000
  execute := false

section Walk

variable {policy : StudyPolicy} {leg : PayoffLegTemplate} {quantity more fill : ℕ} {walk : Walk}
  {shown : List Level}

/-- A quote leaves no trace. -/
theorem take_depthOrder (hfees : (policy.fees leg.marketId).Valid) (price : Price)
    (hpos : 0 < fill) (hle : fill ≤ quantityLimit)
    (hrounding : walk.fees.roundingMicro ≤ 1000000000000000000) (quantity : ℕ) :
    ∃ next, walk.take policy (depthOrder leg quantity) price fill = .ok next ∧
      next.execution.quantity = walk.execution.quantity + fill ∧
      next.execution.worstPrice = price.raw ∧
      next.fees.roundingMicro ≤ walk.fees.roundingMicro + 10000 := by
  have hcharged := @chargeBuyFill_isSome _ price _ _ hfees hpos (hle.trans (by decide)) hrounding
  obtain ⟨⟨charge, left⟩, hcharge⟩ := Option.isSome_iff_exists.mp hcharged
  obtain ⟨-, -, -, -, -, -, hgrow⟩ := chargeBuyFill_spec hcharge
  have hquantum : (policy.fees leg.marketId).balanceQuantumMicro ≤ 10000 := by
    rcases hfees.2 with h | h <;> omega
  have hbuys : ¬(depthOrder leg quantity).sell = true := Bool.false_ne_true
  have hquotes : ¬(depthOrder leg quantity).execute = true := Bool.false_ne_true
  have hleg : (depthOrder leg quantity).leg = leg := rfl
  unfold Walk.take WalkOrder.charge
  dsimp only
  rw [if_neg hbuys, hleg, hcharge]
  dsimp only [Bind.bind, Except.bind]
  rw [if_neg hquotes]
  exact ⟨_, rfl, rfl, rfl, by dsimp only; omega⟩

/-- What a quote takes of a level, in steps. -/
theorem fillable_depthOrder (leg : PayoffLegTemplate) (quantity shown used filled : ℕ) :
    (depthOrder leg quantity).fillable policy shown used filled =
      min (min (shown - used) quantityLimit / policy.quantityStep.raw)
        ((quantity - filled) / policy.quantityStep.raw) * policy.quantityStep.raw := by
  have hmono : Monotone fun offered : ℕ => offered / policy.quantityStep.raw :=
    fun _ _ hle => Nat.div_le_div_right hle
  exact congrArg (· * policy.quantityStep.raw) hmono.map_min

theorem beyond_depthOrder (leg : PayoffLegTemplate) (quantity : ℕ) (price : Price) :
    (depthOrder leg quantity).beyond price = false := decide_eq_false (not_lt.mpr price.le_scale)

/-- **A walk that only quotes** ends, between what it had and its quantity. -/
theorem walkLevels_depthOrder (hfees : (policy.fees leg.marketId).Valid)
    (hle : quantity ≤ quantityLimit)
    (hwalk : policy.quantityStep.raw ∣ walk.execution.quantity)
    (hbelow : walk.execution.quantity < quantity)
    (hrounding : walk.fees.roundingMicro ≤ walk.execution.quantity * 10000)
    (hascending : shown.Pairwise fun first second =>
      (legPrice leg first.price).raw < (legPrice leg second.price).raw)
    (hworst : ∀ level ∈ shown, walk.execution.worstPrice ≤ (legPrice leg level.price).raw) :
    ∃ done, walkLevels policy (depthOrder leg quantity) shown walk = .ok done ∧
      walk.execution.quantity ≤ done.execution.quantity ∧ done.execution.quantity ≤ quantity ∧
      policy.quantityStep.raw ∣ done.execution.quantity ∧
      walk.execution.worstPrice ≤ done.execution.worstPrice ∧
      (done.execution.quantity = walk.execution.quantity → done = walk) ∧
      (walk.execution.worstPrice ≤ 10000 → done.execution.worstPrice ≤ 10000) := by
  induction shown generalizing walk with
  | nil => exact ⟨walk, rfl, le_rfl, hbelow.le, hwalk, le_rfl, fun _ => rfl, fun hprice => hprice⟩
  | cons level shown ih =>
    obtain ⟨hlevel, hothers⟩ := List.forall_mem_cons.mp hworst
    rw [walkLevels]
    dsimp only
    rw [show (depthOrder leg quantity).leg = leg from rfl, beyond_depthOrder,
      if_neg Bool.false_ne_true]
    obtain ⟨fill, hfill⟩ : ∃ fill, (depthOrder leg quantity).fillable policy level.quantity.raw
        (walk.consumed ((depthOrder leg quantity).key (legPrice leg level.price)))
        walk.execution.quantity = fill := ⟨_, rfl⟩
    have hfillLe : fill ≤ quantity - walk.execution.quantity := by
      rw [← hfill, fillable_depthOrder]
      exact (Nat.mul_le_mul_right _ (Nat.min_le_right _ _)).trans (Nat.div_mul_le_self _ _)
    have hfillDvd : policy.quantityStep.raw ∣ fill := by
      rw [← hfill, fillable_depthOrder]
      exact Dvd.intro_left _ rfl
    rw [hfill]
    by_cases hzero : fill = 0
    · rw [if_pos hzero]
      exact ih hwalk hbelow hrounding hascending.of_cons hothers
    · rw [if_neg hzero]
      have hpos := Nat.pos_of_ne_zero hzero
      have hlimit : quantityLimit = 100000000 := rfl
      obtain ⟨next, hnext, hquantity, hprice, hgrow⟩ :=
        @take_depthOrder policy leg fill walk hfees (legPrice leg level.price) hpos (by omega)
          (by omega) quantity
      have hnextDvd : policy.quantityStep.raw ∣ next.execution.quantity :=
        hquantity ▸ hwalk.add hfillDvd
      have hmore : next.execution.quantity ≠ walk.execution.quantity := by omega
      rw [hnext]
      by_cases hend : next.execution.quantity < quantity
      · obtain ⟨done, hdone, hfirst, hlast, hdoneDvd, hdoneWorst, -, hscale⟩ := ih hnextDvd hend
          (by omega) hascending.of_cons fun other hother =>
            hprice.le.trans (List.rel_of_pairwise_cons hascending hother).le
        exact ⟨done, (if_pos hend).trans hdone, by omega, hlast, hdoneDvd,
          (hlevel.trans hprice.ge).trans hdoneWorst, by omega,
          fun _ => hscale (hprice.le.trans (legPrice leg level.price).le_scale)⟩
      · exact ⟨next, if_neg hend, by omega, by omega, hnextDvd, hlevel.trans hprice.ge,
          fun heq => absurd heq hmore,
          fun _ => hprice.le.trans (legPrice leg level.price).le_scale⟩

/-- **Nested walks.** The walk for a smaller quantity stops on the way of the walk for a larger one.
The induction goes along the levels, as long as the two walks have taken the same. -/
theorem walkLevels_nested (hsized : policy.Sized) (hfees : (policy.fees leg.marketId).Valid)
    (hdvd : policy.quantityStep.raw ∣ quantity) (hdvdMore : policy.quantityStep.raw ∣ more)
    (hmore : quantity ≤ more) (hle : more ≤ quantityLimit)
    (hwalk : policy.quantityStep.raw ∣ walk.execution.quantity)
    (hbelow : walk.execution.quantity < quantity)
    (hrounding : walk.fees.roundingMicro ≤ walk.execution.quantity * 10000)
    (hascending : shown.Pairwise fun first second =>
      (legPrice leg first.price).raw < (legPrice leg second.price).raw)
    (hworst : ∀ level ∈ shown, walk.execution.worstPrice ≤ (legPrice leg level.price).raw) :
    ∃ small large, walkLevels policy (depthOrder leg quantity) shown walk = .ok small ∧
      walkLevels policy (depthOrder leg more) shown walk = .ok large ∧
      small.execution.quantity = min quantity large.execution.quantity ∧
      small.execution.worstPrice ≤ large.execution.worstPrice ∧
      (large.execution.quantity ≤ quantity → small = large) := by
  induction shown generalizing walk with
  | nil => exact ⟨walk, walk, rfl, rfl, (min_eq_right hbelow.le).symm, le_rfl, fun _ => rfl⟩
  | cons level shown ih =>
    obtain ⟨hlevel, hothers⟩ := List.forall_mem_cons.mp hworst
    rw [walkLevels, walkLevels]
    dsimp only
    rw [show (depthOrder leg quantity).leg = leg from rfl, show (depthOrder leg more).leg = leg from
      rfl, beyond_depthOrder, beyond_depthOrder, if_neg Bool.false_ne_true,
      if_neg Bool.false_ne_true, fillable_depthOrder, fillable_depthOrder]
    obtain ⟨offer, hoffer⟩ : ∃ offer, min (level.quantity.raw -
        walk.consumed ((depthOrder leg quantity).key (legPrice leg level.price))) quantityLimit /
          policy.quantityStep.raw = offer := ⟨_, rfl⟩
    have hofferMore : min (level.quantity.raw -
        walk.consumed ((depthOrder leg more).key (legPrice leg level.price))) quantityLimit /
          policy.quantityStep.raw = offer := hoffer
    rw [hoffer, hofferMore]
    have hstep := hsized.step_pos
    obtain ⟨rest, hrest⟩ := Nat.dvd_sub hdvd hwalk
    obtain ⟨restMore, hrestMore⟩ := Nat.dvd_sub hdvdMore hwalk
    rw [hrest, hrestMore, Nat.mul_div_cancel_left _ hstep, Nat.mul_div_cancel_left _ hstep]
    have hrests : rest ≤ restMore := by
      have hmul : policy.quantityStep.raw * rest ≤ policy.quantityStep.raw * restMore := by omega
      exact Nat.le_of_mul_le_mul_left hmul hstep
    have hrestPos : 0 < rest := by
      rcases Nat.eq_zero_or_pos rest with rfl | hpos
      · omega
      · exact hpos
    by_cases hzero : offer = 0
    · rw [hzero, Nat.zero_min, Nat.zero_min, Nat.zero_mul, if_pos rfl, if_pos rfl]
      exact ih hwalk hbelow hrounding hascending.of_cons hothers
    have htake : ∀ fill, 0 < fill → fill ≤ more → ∃ next,
        walk.take policy (depthOrder leg quantity) (legPrice leg level.price) fill = .ok next ∧
        walk.take policy (depthOrder leg more) (legPrice leg level.price) fill = .ok next ∧
        next.execution.quantity = walk.execution.quantity + fill ∧
        next.execution.worstPrice = (legPrice leg level.price).raw ∧
        next.fees.roundingMicro ≤ next.execution.quantity * 10000 := by
      intro fill hpos hfill
      have hlimit : quantityLimit = 100000000 := rfl
      obtain ⟨next, hnext, hquantity, hprice, hgrow⟩ := @take_depthOrder policy leg fill walk hfees
        (legPrice leg level.price) hpos (hfill.trans hle) (by omega) quantity
      exact ⟨next, hnext, hnext, hquantity, hprice, by omega⟩
    have hnextWorst : ∀ next : Walk, next.execution.worstPrice = (legPrice leg level.price).raw →
        ∀ other ∈ shown, next.execution.worstPrice ≤ (legPrice leg other.price).raw :=
      fun next hprice other hother =>
        hprice.le.trans (List.rel_of_pairwise_cons hascending hother).le
    by_cases hshort : offer < rest
    · -- both walks take the whole level
      rw [min_eq_left hshort.le, min_eq_left (hshort.le.trans hrests)]
      have hpos : 0 < offer * policy.quantityStep.raw :=
        Nat.mul_pos (Nat.pos_of_ne_zero hzero) hstep
      have hlt : offer * policy.quantityStep.raw < policy.quantityStep.raw * rest := by
        rw [Nat.mul_comm]
        exact Nat.mul_lt_mul_of_pos_left hshort hstep
      obtain ⟨next, hsmall, hlarge, hquantity, hprice, hnextRounding⟩ :=
        htake _ hpos (by omega)
      rw [if_neg hpos.ne', if_neg hpos.ne', hsmall, hlarge]
      have hgo : next.execution.quantity < quantity := by omega
      obtain ⟨small, large, hsmallDone, hlargeDone, hmin, hworsts, hsame⟩ := ih
        (hquantity ▸ hwalk.add (Dvd.intro_left _ rfl)) hgo hnextRounding hascending.of_cons
        (hnextWorst next hprice)
      exact ⟨small, large, (if_pos hgo).trans hsmallDone,
        (if_pos (hgo.trans_le hmore)).trans hlargeDone, hmin, hworsts, hsame⟩
    · -- the smaller walk ends here
      rw [min_eq_right (not_lt.mp hshort)]
      have hfill : rest * policy.quantityStep.raw = quantity - walk.execution.quantity := by
        rw [hrest, Nat.mul_comm]
      have hfillMore : rest * policy.quantityStep.raw ≤
          min offer restMore * policy.quantityStep.raw :=
        Nat.mul_le_mul_right _ (le_min (not_lt.mp hshort) hrests)
      have hfillMoreLe : min offer restMore * policy.quantityStep.raw ≤
          more - walk.execution.quantity := by
        rw [hrestMore, Nat.mul_comm policy.quantityStep.raw]
        exact Nat.mul_le_mul_right _ (Nat.min_le_right _ _)
      obtain ⟨small, hsmall, -, hsmallQuantity, hsmallPrice, -⟩ :=
        htake _ (by omega : 0 < rest * policy.quantityStep.raw) (by omega)
      obtain ⟨next, hnextSmall, hnext, hquantity, hprice, hnextRounding⟩ :=
        htake _ (by omega : 0 < min offer restMore * policy.quantityStep.raw) (by omega)
      rw [if_neg (by omega), if_neg (by omega), hsmall, hnext]
      have hstop : ¬small.execution.quantity < quantity := by omega
      have hequal : next.execution.quantity ≤ quantity → small = next := by
        intro hsameQuantity
        have hfills : rest * policy.quantityStep.raw = min offer restMore *
            policy.quantityStep.raw := by omega
        rw [hfills, hnextSmall] at hsmall
        exact (Except.ok.inj hsmall).symm
      by_cases hgo : next.execution.quantity < more
      · obtain ⟨large, hlarge, hgrow, -, -, hlargeWorst, hkept, -⟩ :=
          walkLevels_depthOrder hfees hle
          (hquantity ▸ hwalk.add (Dvd.intro_left _ rfl)) hgo hnextRounding hascending.of_cons
          (hnextWorst next hprice)
        refine ⟨small, large, if_neg hstop, (if_pos hgo).trans hlarge, ?_, ?_, ?_⟩
        · omega
        · rw [hsmallPrice, ← hprice]
          exact hlargeWorst
        · intro hlargeLe
          rw [hkept (by omega)]
          exact hequal (by omega)
      · refine ⟨small, next, if_neg hstop, if_neg hgo, ?_, ?_, hequal⟩
        · omega
        · rw [hsmallPrice, hprice]

end Walk

/-! ### Quotes -/

section Quote

variable {policy : StudyPolicy} {consumed : LiquidityKey → ℕ} {state : MarketState}
  {leg : PayoffLegTemplate} {legs : Fin 2 → PayoffLegTemplate} {quantity more : ℕ}

theorem depthLevels_ascending (state : MarketState) (leg : PayoffLegTemplate) (quantity : ℕ) :
    (shownLevels state leg.marketId (depthOrder leg quantity).side).Pairwise fun first second =>
      (legPrice leg first.price).raw < (legPrice leg second.price).raw := by
  have hside : (depthOrder leg quantity).side = if leg.outcome.isYes then .ask else .bid := by
    simp only [WalkOrder.side, depthOrder, Bool.bne_false]
  rw [hside]
  exact shownLevels_ascending state leg.marketId leg.outcome.isYes

/-- **The quote of a leg** ends, within its quantity. -/
theorem quoteLeg_eq_ok (hfees : (policy.fees leg.marketId).Valid) (hle : quantity ≤ quantityLimit)
    (hpos : 0 < quantity) (consumed : LiquidityKey → ℕ) (state : MarketState) :
    ∃ quote, quoteLeg policy consumed state leg quantity = .ok quote ∧ quote.quantity ≤ quantity ∧
      policy.quantityStep.raw ∣ quote.quantity ∧ quote.worstPrice ≤ 10000 := by
  obtain ⟨done, hdone, -, hdoneLe, hdvd, -, -, hprice⟩ := @walkLevels_depthOrder policy leg quantity
    { consumed } _ hfees hle (Nat.dvd_zero _) hpos (Nat.zero_le _)
    (depthLevels_ascending state leg quantity) fun _ _ => Nat.zero_le _
  exact ⟨done.execution, congrArg (Except.map Walk.execution) hdone, hdoneLe, hdvd,
    hprice (Nat.zero_le _)⟩

/-- **A quote for more** takes the same and more. -/
theorem quoteLeg_nested (hsized : policy.Sized) (hfees : (policy.fees leg.marketId).Valid)
    (hdvd : policy.quantityStep.raw ∣ quantity) (hdvdMore : policy.quantityStep.raw ∣ more)
    (hpos : 0 < quantity) (hmore : quantity ≤ more) (hle : more ≤ quantityLimit)
      {small large : Execution}
    (hsmall : quoteLeg policy consumed state leg quantity = .ok small)
    (hlarge : quoteLeg policy consumed state leg more = .ok large) :
    small.quantity = min quantity large.quantity ∧ small.worstPrice ≤ large.worstPrice ∧
      (large.quantity ≤ quantity → small = large) := by
  obtain ⟨walked, walkedMore, hwalked, hwalkedMore, hmin, hworst, hsame⟩ :=
    @walkLevels_nested policy leg quantity more { consumed } _ hsized hfees hdvd hdvdMore hmore hle
      (Nat.dvd_zero _) hpos (Nat.zero_le _) (depthLevels_ascending state leg quantity)
      fun _ _ => Nat.zero_le _
  have hfirst : walked.execution = small :=
    Except.ok.inj ((congrArg (Except.map Walk.execution) hwalked).symm.trans hsmall)
  have hsecond : walkedMore.execution = large :=
    Except.ok.inj ((congrArg (Except.map Walk.execution) hwalkedMore).symm.trans hlarge)
  rw [hfirst, hsecond] at hmin hworst
  refine ⟨hmin, hworst, fun hshort => ?_⟩
  rw [← hfirst, ← hsecond, hsame (hsecond ▸ hshort)]

theorem reservation_eq_ok (hsized : policy.Sized) (hfees : (policy.fees leg.marketId).Valid)
    (hdvd : policy.quantityStep.raw ∣ quantity) (hle : quantity ≤ quantityLimit) (limit : Price) :
    reservation policy leg quantity limit.raw =
      .ok (reservationAmount quantity policy.quantityStep.raw limit
        (policy.fees leg.marketId)) := by
  have hprice : Price.fromRaw (limit.raw : ℤ) = some limit := Price.fromRaw_eq_some_iff.mpr rfl
  have hreserve := @buyReservation_eq quantity policy.quantityStep.raw limit
    (policy.fees leg.marketId) ⟨hle, hsized.step_eq, hdvd, hfees⟩
  unfold reservation
  rw [hprice, Option.bind_some, hreserve]

/-- A leg that was quoted is sized: at the worst price of its walk. -/
structure SizedAt (policy : StudyPolicy) (consumed : LiquidityKey → ℕ) (state : MarketState)
    (leg : PayoffLegTemplate) (quantity : ℕ) (quote : Execution) (sized : SizedLeg) : Prop where
  walked : quoteLeg policy consumed state leg quantity = .ok quote
  limit : sized.limit.raw = quote.worstPrice
  notional : sized.notional = quote.notional
  debit : sized.debit = quote.debit
  reserved : reservation policy leg quantity quote.worstPrice = .ok sized.reservation

theorem sizeLeg_eq_ok (hsized : policy.Sized) (hfees : (policy.fees leg.marketId).Valid)
    (hdvd : policy.quantityStep.raw ∣ quantity) (hle : quantity ≤ quantityLimit) {quote : Execution}
    (hquote : quoteLeg policy consumed state leg quantity = .ok quote)
    (hprice : quote.worstPrice ≤ 10000) :
    ∃ sized, sizeLeg policy leg quantity quote = .ok sized ∧
      SizedAt policy consumed state leg quantity quote sized := by
  obtain ⟨limit, hlimit⟩ : ∃ limit : Price, limit.raw = quote.worstPrice :=
    ⟨⟨quote.worstPrice, hprice⟩, rfl⟩
  have hfrom : Price.fromRaw (quote.worstPrice : ℤ) = some limit :=
    Price.fromRaw_eq_some_iff.mpr (congrArg Nat.cast hlimit)
  have hreserve := reservation_eq_ok hsized hfees hdvd hle limit
  rw [hlimit] at hreserve
  refine ⟨⟨limit, quote.notional, quote.debit, _⟩, ?_, hquote, hlimit, rfl, rfl, hreserve⟩
  unfold sizeLeg
  rw [hfrom]
  dsimp only
  rw [hreserve]
  rfl

/-- **Both legs at a grid quantity.** -/
theorem quoteLegs_eq_ok (hsized : policy.Sized)
    (hfees : ∀ leg, (policy.fees (legs leg).marketId).Valid)
    (hdvd : policy.quantityStep.raw ∣ quantity) (hpos : 0 < quantity)
    (hle : quantity ≤ quantityLimit) (consumed : LiquidityKey → ℕ) (state : MarketState) :
    ∃ quotes sized, quoteLegs policy consumed state legs quantity = .ok sized ∧
      sizeLegs policy legs quantity quotes = .ok sized ∧
      ∀ leg, SizedAt policy consumed state (legs leg) quantity (quotes leg) (sized leg) := by
  obtain ⟨quote0, hquote0, -, -, hprice0⟩ := quoteLeg_eq_ok (hfees 0) hle hpos consumed state
  obtain ⟨quote1, hquote1, -, -, hprice1⟩ := quoteLeg_eq_ok (hfees 1) hle hpos consumed state
  obtain ⟨sized0, hsized0, hat0⟩ := sizeLeg_eq_ok hsized (hfees 0) hdvd hle hquote0 hprice0
  obtain ⟨sized1, hsized1, hat1⟩ := sizeLeg_eq_ok hsized (hfees 1) hdvd hle hquote1 hprice1
  have hlegs : sizeLegs policy legs quantity ![quote0, quote1] = .ok ![sized0, sized1] := by
    simp only [sizeLegs, Matrix.cons_val_zero, Matrix.cons_val_one, hsized0, hsized1, bind,
      Except.bind]
  refine ⟨![quote0, quote1], ![sized0, sized1], ?_, hlegs, ?_⟩
  · unfold quoteLegs
    simp only [hquote0, hquote1, bind, Except.bind]
    exact hlegs
  · intro leg
    fin_cases leg
    · exact hat0
    · exact hat1

/-- **Funding is monotone**: more needs no less. -/
theorem SizedAt.mono (hsized : policy.Sized) (hfees : (policy.fees leg.marketId).Valid)
    (hdvd : policy.quantityStep.raw ∣ quantity) (hdvdMore : policy.quantityStep.raw ∣ more)
    (hpos : 0 < quantity) (hmore : quantity ≤ more) (hle : more ≤ quantityLimit)
    {quote quoteMore : Execution} {sized sizedMore : SizedLeg}
    (h : SizedAt policy consumed state leg quantity quote sized)
    (hlarge : SizedAt policy consumed state leg more quoteMore sizedMore) :
    sized.reservation ≤ sizedMore.reservation := by
  obtain ⟨-, hworst, -⟩ :=
    quoteLeg_nested hsized hfees hdvd hdvdMore hpos hmore hle h.walked hlarge.walked
  have hsmallReserve := h.reserved
  have hlargeReserve := hlarge.reserved
  rw [← h.limit, reservation_eq_ok hsized hfees hdvd (hmore.trans hle)] at hsmallReserve
  rw [← hlarge.limit, reservation_eq_ok hsized hfees hdvdMore hle] at hlargeReserve
  rw [← Except.ok.inj hsmallReserve, ← Except.ok.inj hlargeReserve]
  exact reservationAmount_mono hmore (by rw [h.limit, hlarge.limit]; exact hworst)

/-! ### The bisection -/

/-- A number of steps is funded. -/
def FundedSteps (policy : StudyPolicy) (consumed : LiquidityKey → ℕ) (state : MarketState)
    (legs : Fin 2 → PayoffLegTemplate) (available : ℤ) (steps : ℕ) : Prop :=
  ∃ sized, quoteLegs policy consumed state legs (steps * policy.quantityStep.raw) = .ok sized ∧
    (needed sized : ℤ) ≤ available

/-- **The bisection ends at the largest funded number of steps**, when all quotes succeed and
funding is monotone. What is below the interval is funded, and nothing above it is. -/
theorem fundedSteps_eq {available : ℤ} {top : ℕ}
    (hquotes : ∀ steps, 0 < steps → steps ≤ top → ∃ sized,
      quoteLegs policy consumed state legs (steps * policy.quantityStep.raw) = .ok sized)
    (hmono : ∀ steps more, 0 < steps → steps ≤ more → more ≤ top →
      FundedSteps policy consumed state legs available more →
      FundedSteps policy consumed state legs available steps)
    {fuel lo hi : ℕ} (hfuel : hi - lo ≤ fuel) (hle : lo ≤ hi) (htop : hi ≤ top)
    (hlow : lo = 0 ∨ FundedSteps policy consumed state legs available lo)
    (hhigh : ∀ steps, hi < steps → steps ≤ top →
      ¬FundedSteps policy consumed state legs available steps) :
    ∃ steps, fundedSteps policy consumed state legs available fuel lo hi = .ok steps ∧
      steps ≤ top ∧ (steps = 0 ∨ FundedSteps policy consumed state legs available steps) ∧
      ∀ more, steps < more → more ≤ top →
        ¬FundedSteps policy consumed state legs available more := by
  induction fuel generalizing lo hi with
  | zero =>
    obtain rfl : lo = hi := by omega
    exact ⟨lo, rfl, htop, hlow, hhigh⟩
  | succ fuel ih =>
    rw [fundedSteps]
    by_cases hopen : lo < hi
    · rw [if_pos hopen]
      dsimp only
      obtain ⟨mid, hmid⟩ : ∃ mid, lo + (hi - lo + 1) / 2 = mid := ⟨_, rfl⟩
      obtain ⟨sized, hsized⟩ := hquotes mid (by omega) (by omega)
      rw [hmid, hsized]
      dsimp only [bind, Except.bind]
      by_cases hfunded : (needed sized : ℤ) ≤ available
      · rw [if_pos hfunded]
        exact ih (by omega) (by omega) htop (Or.inr ⟨sized, hsized, hfunded⟩) hhigh
      · rw [if_neg hfunded]
        have hmidUnfunded : ¬FundedSteps policy consumed state legs available mid := by
          rintro ⟨other, hother, hle⟩
          rw [Except.ok.inj (hother.symm.trans hsized)] at hle
          exact hfunded hle
        refine ih (by omega) (by omega) (by omega) hlow
          fun steps hsteps hstepsTop hfundedSteps => ?_
        exact hmidUnfunded (hmono mid steps (by omega) (by omega) hstepsTop hfundedSteps)
    · obtain rfl : lo = hi := by omega
      rw [if_neg hopen]
      exact ⟨lo, rfl, htop, hlow, hhigh⟩

/-! ### The largest fundable quantity -/

/-- **A grid quantity that both books fill and that is funded**, with its legs: the limits and the
debits are those of the walks at the quantity, the reservations those at the limits. -/
structure Affordable (policy : StudyPolicy) (consumed : LiquidityKey → ℕ) (state : MarketState)
    (legs : Fin 2 → PayoffLegTemplate) (available : ℤ) (quantity : ℕ)
    (sized : Fin 2 → SizedLeg) : Prop where
  pos : 0 < quantity
  grid : policy.quantityStep.raw ∣ quantity
  le_cap : quantity ≤ policy.quantityCap.raw
  walked : ∀ leg, ∃ quote : Execution, quote.quantity = quantity ∧
    SizedAt policy consumed state (legs leg) quantity quote (sized leg)
  funded : ((sized 0).reservation + (sized 1).reservation : ℤ) ≤ available

/-- The largest grid quantity below the cap. -/
def StudyPolicy.gridCap (policy : StudyPolicy) : ℕ :=
  policy.quantityCap.raw / policy.quantityStep.raw * policy.quantityStep.raw

theorem StudyPolicy.Sized.gridCap_pos (h : policy.Sized) : 0 < policy.gridCap :=
  Nat.mul_pos (Nat.div_pos h.step_le h.step_pos) h.step_pos

theorem StudyPolicy.Sized.gridCap_le (h : policy.Sized) : policy.gridCap ≤ quantityLimit :=
  (Nat.div_mul_le_self _ _).trans h.cap_le

theorem le_gridCap (hdvd : policy.quantityStep.raw ∣ quantity)
    (hle : quantity ≤ policy.quantityCap.raw) : quantity ≤ policy.gridCap :=
  (Nat.div_mul_cancel hdvd).symm.le.trans
    (Nat.mul_le_mul_right _ (Nat.div_le_div_right hle))

variable {available : ℤ} {sized : Fin 2 → SizedLeg} {depth : Fin 2 → Execution}

/-- Both books reach an affordable quantity. -/
theorem Affordable.le_depth (h : Affordable policy consumed state legs available quantity sized)
    (hsized : policy.Sized) (hfees : ∀ leg, (policy.fees (legs leg).marketId).Valid) (leg : Fin 2)
    (hdepth : quoteLeg policy consumed state (legs leg) policy.gridCap = .ok (depth leg)) :
    quantity ≤ (depth leg).quantity := by
  obtain ⟨quote, hquantity, hat⟩ := h.walked leg
  obtain ⟨hmin, -, -⟩ := quoteLeg_nested hsized (hfees leg) h.grid (Nat.dvd_mul_left _ _) h.pos
    (le_gridCap h.grid h.le_cap) hsized.gridCap_le hat.walked hdepth
  omega

/-- An affordable quantity is funded by its quotes. -/
theorem Affordable.fundedLegs (h : Affordable policy consumed state legs available quantity sized)
    (hsized : policy.Sized) (hfees : ∀ leg, (policy.fees (legs leg).marketId).Valid) :
    ∃ other, quoteLegs policy consumed state legs quantity = .ok other ∧
      (needed other : ℤ) ≤ available := by
  obtain ⟨quotes, other, hother, -, hat⟩ := quoteLegs_eq_ok hsized hfees h.grid h.pos
    (h.le_cap.trans hsized.cap_le) consumed state
  have hsame : ∀ leg, (other leg).reservation = (sized leg).reservation := by
    intro leg
    obtain ⟨quote, -, hquote⟩ := h.walked leg
    have hquotes := Except.ok.inj ((hat leg).walked.symm.trans hquote.walked)
    have hreserved := (hat leg).reserved
    rw [hquotes] at hreserved
    exact Except.ok.inj (hreserved.symm.trans hquote.reserved)
  refine ⟨other, hother, ?_⟩
  rw [needed, hsame 0, hsame 1, Nat.cast_add]
  exact h.funded

/-- What both books reach is affordable when it is funded. -/
theorem affordable_of_quoteLegs (hsized : policy.Sized)
    (hfees : ∀ leg, (policy.fees (legs leg).marketId).Valid)
    (hdvd : policy.quantityStep.raw ∣ quantity) (hpos : 0 < quantity)
    (hdepth : ∀ leg, quoteLeg policy consumed state (legs leg) policy.gridCap = .ok (depth leg))
    (hle : ∀ leg, quantity ≤ (depth leg).quantity) (hcap : quantity ≤ policy.gridCap)
    (hlegs : quoteLegs policy consumed state legs quantity = .ok sized)
    (hfunded : (needed sized : ℤ) ≤ available) :
    Affordable policy consumed state legs available quantity sized := by
  obtain ⟨quotes, other, hother, -, hat⟩ := quoteLegs_eq_ok hsized hfees hdvd hpos
    (hcap.trans hsized.gridCap_le) consumed state
  obtain rfl := Except.ok.inj (hother.symm.trans hlegs)
  refine ⟨hpos, hdvd, hcap.trans (Nat.div_mul_le_self _ _), fun leg =>
    ⟨quotes leg, ?_, hat leg⟩, ?_⟩
  · obtain ⟨hmin, -, -⟩ := quoteLeg_nested hsized (hfees leg) hdvd (Nat.dvd_mul_left _ _) hpos hcap
      hsized.gridCap_le (hat leg).walked (hdepth leg)
    rw [hmin, min_eq_left (hle leg)]
  · rw [← Nat.cast_add]
    exact hfunded

/-- A walk to the cap that ended at the quantity is the walk for the quantity. -/
theorem requoteLeg_eq (hsized : policy.Sized) (hfees : (policy.fees leg.marketId).Valid)
    (hdvd : policy.quantityStep.raw ∣ quantity) (hpos : 0 < quantity)
    (hcap : quantity ≤ policy.gridCap) {reached : Execution}
    (hreached : quoteLeg policy consumed state leg policy.gridCap = .ok reached) :
    requoteLeg policy consumed state leg quantity reached =
      quoteLeg policy consumed state leg quantity := by
  unfold requoteLeg
  split
  · next hend =>
    obtain ⟨quote, hquote, -⟩ := quoteLeg_eq_ok hfees (hcap.trans hsized.gridCap_le) hpos consumed
      state
    obtain ⟨-, -, hsame⟩ := quoteLeg_nested hsized hfees hdvd (Nat.dvd_mul_left _ _) hpos hcap
      hsized.gridCap_le hquote hreached
    rw [hquote, hsame hend.le]
  · rfl

/-- What needs less is funded, too. -/
theorem FundedSteps.mono (hsized : policy.Sized)
    (hfees : ∀ leg, (policy.fees (legs leg).marketId).Valid) {steps moreSteps : ℕ}
    (h : FundedSteps policy consumed state legs available moreSteps) (hpos : 0 < steps)
    (hle : steps ≤ moreSteps) (hlimit : moreSteps * policy.quantityStep.raw ≤ quantityLimit) :
    FundedSteps policy consumed state legs available steps := by
  have hstep := hsized.step_pos
  have hmul : steps * policy.quantityStep.raw ≤ moreSteps * policy.quantityStep.raw :=
    Nat.mul_le_mul_right _ hle
  obtain ⟨large, hlarge, hfunded⟩ := h
  obtain ⟨quotes, sized, hlegs, -, hat⟩ := quoteLegs_eq_ok hsized hfees (Nat.dvd_mul_left _ steps)
    (Nat.mul_pos hpos hstep) (hmul.trans hlimit) consumed state
  obtain ⟨quotesMore, other, hother, -, hatMore⟩ := quoteLegs_eq_ok hsized hfees
    (Nat.dvd_mul_left _ moreSteps) (Nat.mul_pos (hpos.trans_le hle) hstep) hlimit consumed state
  obtain rfl := Except.ok.inj (hother.symm.trans hlarge)
  have hreserve : ∀ leg, (sized leg).reservation ≤ (other leg).reservation := fun leg =>
    (hat leg).mono hsized (hfees leg) (Nat.dvd_mul_left _ _) (Nat.dvd_mul_left _ _)
      (Nat.mul_pos hpos hstep) hmul hlimit (hatMore leg)
  have hneeded : needed sized ≤ needed other := Nat.add_le_add (hreserve 0) (hreserve 1)
  exact ⟨sized, hlegs, (Int.ofNat_le.mpr hneeded).trans hfunded⟩

/-- **The largest fundable quote.** The result is the quote of the largest affordable quantity, if
its margin is above the minimum, and there is no affordable quantity when none is found. -/
def QuotesLargest (policy : StudyPolicy) (consumed : LiquidityKey → ℕ) (state : MarketState)
    (legs : Fin 2 → PayoffLegTemplate) (available : ℤ) (result : Except String SizedPair) : Prop :=
  (∀ quantity sized, ¬Affordable policy consumed state legs available quantity sized) ∧
      (result = .error "no_depth" ∨ result = .error "insufficient_cash") ∨
    ∃ quantity sized margin, Affordable policy consumed state legs available quantity sized ∧
      (∀ other sized', Affordable policy consumed state legs available other sized' →
        other ≤ quantity) ∧
      margin = (quantity * 10000 : ℤ) - ((sized 0).debit + (sized 1).debit) ∧
      (policy.minMargin.raw < margin ∧ result = .ok ⟨quantity, sized, quantity * 10000, margin⟩ ∨
        margin ≤ policy.minMargin.raw ∧ result = .error "non_positive_costed_margin")

theorem quotesLargest_costedQuote
    (h : Affordable policy consumed state legs available quantity sized)
    (hlargest : ∀ other sized', Affordable policy consumed state legs available other sized' →
      other ≤ quantity) :
    QuotesLargest policy consumed state legs available (costedQuote policy quantity sized) := by
  refine Or.inr ⟨quantity, sized, _, h, hlargest, rfl, ?_⟩
  unfold costedQuote
  dsimp only
  rw [Nat.cast_add]
  split
  · next hmargin => exact Or.inr ⟨hmargin, rfl⟩
  · next hmargin => exact Or.inl ⟨not_le.mp hmargin, rfl⟩

/-- The quote below what both books reach. -/
theorem fundedQuote_eq (hsized : policy.Sized)
    (hfees : ∀ leg, (policy.fees (legs leg).marketId).Valid)
    (hdepth : ∀ leg, quoteLeg policy consumed state (legs leg) policy.gridCap = .ok (depth leg))
    {top : ℕ} (hdvd : policy.quantityStep.raw ∣ top) (hpos : 0 < top) (hcap : top ≤ policy.gridCap)
    (hreach : ∀ leg, top ≤ (depth leg).quantity)
    (hbound : ∀ quantity sized, Affordable policy consumed state legs available quantity sized →
      quantity ≤ top)
    (hlegs : quoteLegs policy consumed state legs top = .ok sized) :
    ∃ result, fundedQuote policy consumed state legs available top sized = .ok result ∧
      QuotesLargest policy consumed state legs available result := by
  unfold fundedQuote
  by_cases hfunded : (needed sized : ℤ) ≤ available
  · rw [if_pos hfunded]
    exact ⟨_, rfl, quotesLargest_costedQuote (affordable_of_quoteLegs hsized hfees hdvd hpos hdepth
      hreach hcap hlegs hfunded) hbound⟩
  rw [if_neg hfunded]
  have hstep := hsized.step_pos
  have hsteps : ∀ steps ≤ top / policy.quantityStep.raw,
      steps * policy.quantityStep.raw ≤ top := fun steps hle =>
    (Nat.mul_le_mul_right _ hle).trans (Nat.div_mul_le_self _ _)
  have hlimit := hcap.trans hsized.gridCap_le
  obtain ⟨steps, hfound, hle, hgood, hlargest⟩ := @fundedSteps_eq policy consumed state legs
    available (top / policy.quantityStep.raw)
    (fun steps hstepsPos hle => by
      obtain ⟨-, sized, hsized, -⟩ := quoteLegs_eq_ok hsized hfees (Nat.dvd_mul_left _ steps)
        (Nat.mul_pos hstepsPos hstep) ((hsteps steps hle).trans hlimit) consumed state
      exact ⟨sized, hsized⟩)
    (fun steps more hstepsPos hle hmore h =>
      h.mono hsized hfees hstepsPos hle ((hsteps more hmore).trans hlimit))
    _ 0 _ (Nat.sub_le _ _) (Nat.zero_le _) le_rfl (Or.inl rfl) fun steps hlt hle =>
      absurd hle (not_le.mpr hlt)
  have hnone : ∀ quantity sized, Affordable policy consumed state legs available quantity sized →
      quantity ≤ steps * policy.quantityStep.raw := by
    intro quantity sized h
    obtain ⟨count, hcount⟩ := h.grid
    by_contra hmore
    have hlt : steps < count := by
      refine lt_of_mul_lt_mul_right ?_ hstep.le
      rw [Nat.mul_comm count, ← hcount]
      exact not_le.mp hmore
    have hcountTop : count ≤ top / policy.quantityStep.raw := by
      rw [Nat.le_div_iff_mul_le hstep, Nat.mul_comm, ← hcount]
      exact hbound quantity sized h
    obtain ⟨other, hother, hle⟩ := h.fundedLegs hsized hfees
    refine hlargest count hlt hcountTop ⟨other, ?_, hle⟩
    rw [Nat.mul_comm, ← hcount]
    exact hother
  dsimp only
  rw [hfound]
  dsimp only [bind, Except.bind]
  by_cases hzero : steps * policy.quantityStep.raw = 0
  · rw [if_pos hzero]
    refine ⟨_, rfl, Or.inl ⟨fun quantity sized h => ?_, Or.inr rfl⟩⟩
    have hquantity := h.pos
    have hquantityLe := hnone quantity sized h
    omega
  · have hstepsPos : 0 < steps := Nat.pos_of_mul_pos_right (Nat.pos_of_ne_zero hzero)
    obtain ⟨found, hfoundLegs, hfoundFunded⟩ := hgood.resolve_left hstepsPos.ne'
    rw [if_neg hzero, hfoundLegs]
    have haffordable : Affordable policy consumed state legs available
        (steps * policy.quantityStep.raw) found :=
      affordable_of_quoteLegs hsized hfees (Nat.dvd_mul_left _ _) (Nat.pos_of_ne_zero hzero) hdepth
        (fun leg => (hsteps steps hle).trans (hreach leg)) ((hsteps steps hle).trans hcap)
        hfoundLegs hfoundFunded
    exact ⟨_, rfl, quotesLargest_costedQuote haffordable hnone⟩

/-- **The quote of the first policies** is that of the largest affordable quantity. -/
theorem legacyQuote_eq (hsized : policy.Sized)
    (hfees : ∀ leg, (policy.fees (legs leg).marketId).Valid) (consumed : LiquidityKey → ℕ)
    (state : MarketState) (available : ℤ) :
    ∃ result, legacyQuote policy consumed state legs available = .ok result ∧
      QuotesLargest policy consumed state legs available result := by
  have hquote : ∀ leg, ∃ quote : Execution,
      quoteLeg policy consumed state (legs leg) policy.gridCap = .ok quote ∧
        quote.quantity ≤ policy.gridCap ∧ policy.quantityStep.raw ∣ quote.quantity := by
    intro leg
    obtain ⟨quote, hquote, hle, hdvd, -⟩ :=
      quoteLeg_eq_ok (hfees leg) hsized.gridCap_le hsized.gridCap_pos consumed state
    exact ⟨quote, hquote, hle, hdvd⟩
  choose depth hdepth hdepthLe hdepthDvd using hquote
  obtain ⟨top, htop⟩ : ∃ top, min (depth 0).quantity (depth 1).quantity = top := ⟨_, rfl⟩
  have hdvd : policy.quantityStep.raw ∣ top := by
    rcases min_choice (depth 0).quantity (depth 1).quantity with hmin | hmin
    · rw [← htop, hmin]
      exact hdepthDvd 0
    · rw [← htop, hmin]
      exact hdepthDvd 1
  have hcap : top ≤ policy.gridCap := htop ▸ (min_le_left _ _).trans (hdepthLe 0)
  have hreach : ∀ leg, top ≤ (depth leg).quantity := by
    intro leg
    fin_cases leg
    · exact htop ▸ min_le_left _ _
    · exact htop ▸ min_le_right _ _
  have hbound : ∀ quantity sized, Affordable policy consumed state legs available quantity sized →
      quantity ≤ top := by
    intro quantity sized h
    rw [← htop]
    exact le_min (h.le_depth hsized hfees 0 (hdepth 0)) (h.le_depth hsized hfees 1 (hdepth 1))
  unfold legacyQuote
  dsimp only
  rw [← StudyPolicy.gridCap, hdepth 0, hdepth 1]
  dsimp only [bind, Except.bind]
  rw [htop]
  by_cases hzero : top = 0
  · rw [if_pos hzero]
    refine ⟨_, rfl, Or.inl ⟨fun quantity sized h => ?_, Or.inl rfl⟩⟩
    have hquantity := h.pos
    have hquantityLe := hbound quantity sized h
    omega
  have hpos : 0 < top := Nat.pos_of_ne_zero hzero
  obtain ⟨quotes, sized, hlegs, hsizes, hat⟩ := quoteLegs_eq_ok hsized hfees hdvd hpos
    (hcap.trans hsized.gridCap_le) consumed state
  have hsizeLegs : sizeLegs policy legs top ![quotes 0, quotes 1] = .ok sized := hsizes
  rw [if_neg hzero, requoteLeg_eq hsized (hfees 0) hdvd hpos hcap (hdepth 0),
    requoteLeg_eq hsized (hfees 1) hdvd hpos hcap (hdepth 1), (hat 0).walked, (hat 1).walked]
  dsimp only
  rw [hsizeLegs]
  exact fundedQuote_eq hsized hfees hdepth hdvd hpos hcap hreach hbound hlegs

end Quote

end EventMarket.Session
