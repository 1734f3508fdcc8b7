import EventMarket.Core.DepthAgreement
import EventMarket.Core.NetSizingOptimal

/-!
# Pairs on ladders that agree

A pair search floors every level to the grid and skips the levels that are too small for it. Two
ladders whose floored levels agree within the grid cap are searched alike: the same stretches, the
same evaluations and prunings, and the same result.

## Main definitions

* `gridLevels`: the levels of a ladder floored to the grid, without the empty ones.
* `Cursor.Alike`, `Search.Alike`: the same charges so far, on floored ladders that agree.

## Main results

* `Cursor.Alike.onLevel`: where two such cursors stand.
* `Search.Alike.loop`: the searches go on alike.
* `sizeBuyPair_congr`: a pair is sized alike on such ladders.
-/

namespace EventMarket.Core

/-- A level floored to the grid. -/
def gridLevel (step : ℕ) (level : BuyLevel) : BuyLevel where
  price := level.price
  quantity := ⟨level.quantity.raw / step * step,
    (Nat.div_mul_le_self _ _).trans level.quantity.le_max⟩

/-- The levels of a ladder that offer anything on the grid. -/
def gridLevels (step : ℕ) (levels : List BuyLevel) : List BuyLevel :=
  (levels.map (gridLevel step)).filter fun level => decide (level.quantity.raw ≠ 0)

section GridLevels

variable {step : ℕ} {level : BuyLevel} {levels : List BuyLevel}

theorem gridLevels_cons_of_empty (h : level.quantity.raw / step * step = 0) :
    gridLevels step (level :: levels) = gridLevels step levels :=
  List.filter_cons_of_neg (by rw [decide_eq_true_iff]; exact not_not.mpr h)

theorem gridLevels_cons_of_pos (h : 0 < level.quantity.raw / step * step) :
    gridLevels step (level :: levels) = gridLevel step level :: gridLevels step levels :=
  List.filter_cons_of_pos (decide_eq_true h.ne')

end GridLevels

/-! ### Cursors -/

/-- **Cursors that cannot be told apart** on the grid and within the cap. -/
structure Cursor.Alike (limits : SizingLimits) (cursor other : Cursor) : Prop where
  fees : cursor.fees = other.fees
  passed : cursor.passed = other.passed
  step : cursor.step = limits.step.raw
  step' : other.step = limits.step.raw
  cap : cursor.cap = limits.cap.raw
  cap' : other.cap = limits.cap.raw
  levels : Agrees (limits.gridCap - cursor.passed.quantity)
    (gridLevels limits.step.raw cursor.levels) (gridLevels limits.step.raw other.levels)

section Cursor

variable {limits : SizingLimits} {cursor other : Cursor} {levels : List BuyLevel}

theorem SizingLimits.Valid.gridCap_pos (hl : limits.Valid) : 0 < limits.gridCap := by
  have hstep : 0 < limits.step.raw := by
    have := hl.2.1
    omega
  exact Nat.mul_pos (Nat.div_pos hl.2.2.1 hstep) hstep

/-- Seeking skips levels that offer nothing on the grid. -/
theorem gridLevels_seek (hl : limits.Valid) (levels : List BuyLevel) :
    gridLevels limits.step.raw (levels.dropWhile fun level =>
      decide (Cursor.levelSize limits.step.raw limits.cap.raw level = 0)) =
        gridLevels limits.step.raw levels := by
  have hcap := hl.gridCap_pos
  induction levels with
  | nil => rfl
  | cons level levels ih =>
    rw [List.dropWhile_cons]
    split_ifs with hzero
    · rw [decide_eq_true_eq, levelSize_eq] at hzero
      rw [ih, gridLevels_cons_of_empty (by omega)]
    · rfl

/-- A cursor that was sought is on a level with something to take, or has none left. -/
theorem Cursor.seek_cases (hl : limits.Valid) (hstep : cursor.step = limits.step.raw)
    (hcap : cursor.cap = limits.cap.raw) :
    (cursor.seek.2 = false ∧ gridLevels limits.step.raw cursor.levels = []) ∨
    ∃ level rest, cursor.seek.2 = true ∧ cursor.seek.1 = { cursor with levels := level :: rest } ∧
      0 < level.quantity.raw / limits.step.raw * limits.step.raw ∧
      gridLevels limits.step.raw cursor.levels =
        gridLevel limits.step.raw level :: gridLevels limits.step.raw rest ∧
      rest.length < cursor.levels.length := by
  have hgrid := gridLevels_seek hl cursor.levels
  have hlength := cursor.seek_length_le
  unfold Cursor.seek at hlength ⊢
  rw [hstep, hcap] at hlength ⊢
  cases hlevels : cursor.levels.dropWhile fun level =>
      decide (Cursor.levelSize limits.step.raw limits.cap.raw level = 0) with
  | nil =>
    rw [hlevels] at hgrid
    exact Or.inl ⟨rfl, hgrid.symm⟩
  | cons level rest =>
    rw [hlevels] at hgrid hlength
    have hhead := List.head_dropWhile_not (fun level =>
      decide (Cursor.levelSize limits.step.raw limits.cap.raw level = 0)) (l := cursor.levels)
      (hlevels ▸ List.cons_ne_nil _ _)
    simp only [hlevels, List.head_cons, decide_eq_false_iff_not] at hhead
    rw [levelSize_eq] at hhead
    have hpos : 0 < level.quantity.raw / limits.step.raw * limits.step.raw := by omega
    rw [gridLevels_cons_of_pos hpos] at hgrid
    exact Or.inr ⟨level, rest, rfl, rfl, hpos, hgrid.symm, hlength⟩

/-- Seeking keeps cursors alike. -/
theorem Cursor.Alike.sought (h : cursor.Alike limits other) (hl : limits.Valid) :
    cursor.seek.1.Alike limits other.seek.1 where
  fees := h.fees
  passed := h.passed
  step := h.step
  step' := h.step'
  cap := h.cap
  cap' := h.cap'
  levels := by
    have hgrid := gridLevels_seek hl cursor.levels
    have hgrid' := gridLevels_seek hl other.levels
    unfold Cursor.seek
    dsimp only
    rw [h.step, h.step', h.cap, h.cap', hgrid, hgrid']
    exact h.levels

/-- **Where cursors stand that are alike.** They are on levels of one price that end together
within the cap; a level that ends below the cap is of one size on both ladders, and what lies
behind it is alike. -/
structure Cursor.Standing (limits : SizingLimits) (cursor other : Cursor) : Prop where
  alike : cursor.Alike limits other
  price : cursor.price = other.price
  stop : min limits.gridCap cursor.stop = min limits.gridCap other.stop
  behind : cursor.stop < limits.gridCap → cursor.size = other.size ∧
    Agrees (limits.gridCap - (cursor.passed.quantity + cursor.size))
      (gridLevels limits.step.raw cursor.levels.tail) (gridLevels limits.step.raw other.levels.tail)

/-- Both cursors have no level left, or both are found on one. -/
theorem Cursor.Alike.seek (h : cursor.Alike limits other) (hl : limits.Valid) :
    (cursor.seek.2 = false ∧ other.seek.2 = false) ∨
    (cursor.seek.2 = true ∧ other.seek.2 = true ∧ cursor.seek.1.Standing limits other.seek.1 ∧
      cursor.seek.1.levels.tail.length < cursor.levels.length ∧
      other.seek.1.levels.tail.length < other.levels.length) := by
  have hagrees := h.levels
  rcases Cursor.seek_cases hl h.step h.cap with
    ⟨hnone, hgrid⟩ | ⟨level, rest, hfound, hseek, hpos, hgrid, hlength⟩
  · rcases Cursor.seek_cases hl h.step' h.cap' with
      ⟨hnone', -⟩ | ⟨level', rest', -, -, -, hgrid', -⟩
    · exact Or.inl ⟨hnone, hnone'⟩
    · rw [hgrid, hgrid'] at hagrees
      cases hagrees
  · rcases Cursor.seek_cases hl h.step' h.cap' with
      ⟨-, hgrid'⟩ | ⟨level', rest', hfound', hseek', hpos', hgrid', hlength'⟩
    · rw [hgrid, hgrid'] at hagrees
      cases hagrees
    rw [hgrid, hgrid'] at hagrees
    have hsize : cursor.seek.1.size =
        min (level.quantity.raw / limits.step.raw * limits.step.raw) limits.gridCap := by
      rw [hseek]
      dsimp only [Cursor.size]
      rw [h.step, h.cap, levelSize_eq]
    have hsize' : other.seek.1.size =
        min (level'.quantity.raw / limits.step.raw * limits.step.raw) limits.gridCap := by
      rw [hseek']
      dsimp only [Cursor.size]
      rw [h.step', h.cap', levelSize_eq]
    have hstop : cursor.seek.1.stop = cursor.passed.quantity + cursor.seek.1.size := by
      rw [hseek]
      rfl
    have hstop' : other.seek.1.stop = cursor.passed.quantity + other.seek.1.size := by
      rw [hseek', h.passed]
      rfl
    have hprices : cursor.seek.1.price = level.price ∧ other.seek.1.price = level'.price := by
      rw [hseek, hseek']
      exact ⟨rfl, rfl⟩
    have htails : cursor.seek.1.levels.tail = rest ∧ other.seek.1.levels.tail = rest' := by
      rw [hseek, hseek']
      exact ⟨rfl, rfl⟩
    have hpassed : cursor.seek.1.passed = cursor.passed := rfl
    suffices hstanding : cursor.seek.1.price = other.seek.1.price ∧
        min limits.gridCap cursor.seek.1.stop = min limits.gridCap other.seek.1.stop ∧
        (cursor.seek.1.stop < limits.gridCap → cursor.seek.1.size = other.seek.1.size ∧
          Agrees (limits.gridCap - (cursor.passed.quantity + cursor.seek.1.size))
            (gridLevels limits.step.raw rest) (gridLevels limits.step.raw rest')) by
      refine Or.inr ⟨hfound, hfound', ⟨h.sought hl, hstanding.1, hstanding.2.1, ?_⟩, ?_⟩
      · rw [hpassed, htails.1, htails.2]
        exact hstanding.2.2
      · rw [htails.1, htails.2]
        exact ⟨hlength, hlength'⟩
    rw [hprices.1, hprices.2, hstop, hstop', hsize, hsize']
    generalize hneeded : limits.gridCap - cursor.passed.quantity = needed at hagrees
    generalize hfirst : gridLevel limits.step.raw level = first at hagrees
    generalize hfirst' : gridLevel limits.step.raw level' = first' at hagrees
    generalize gridLevels limits.step.raw rest = behind at hagrees ⊢
    generalize gridLevels limits.step.raw rest' = behind' at hagrees ⊢
    have hquantity : first.quantity.raw =
        level.quantity.raw / limits.step.raw * limits.step.raw := hfirst ▸ rfl
    have hquantity' : first'.quantity.raw =
        level'.quantity.raw / limits.step.raw * limits.step.raw := hfirst' ▸ rfl
    have hprice : level.price = first.price ∧ level'.price = first'.price :=
      ⟨hfirst ▸ rfl, hfirst' ▸ rfl⟩
    rw [hprice.1, hprice.2, ← hquantity, ← hquantity']
    cases hagrees with
    | reached _ _ hsame hle hle' => exact ⟨hsame, by omega, fun hlt => by omega⟩
    | cons _ hbehind =>
      refine ⟨rfl, rfl, fun hlt => ⟨rfl, ?_⟩⟩
      have hneed : limits.gridCap - (cursor.passed.quantity +
          min first.quantity.raw limits.gridCap) = needed - first.quantity.raw := by omega
      rwa [hneed]

end Cursor

/-! ### Searches that differ in their cursors -/

/-- Cursors with the same charges at the same price. -/
structure Cursor.SameSpot (cursor other : Cursor) : Prop where
  fees : cursor.fees = other.fees
  passed : cursor.passed = other.passed
  price : cursor.price = other.price

/-- The search with other cursors. -/
def Search.withCursors (search : Search) (cursors : Fin 2 → Cursor) : Search :=
  { search with cursors }

namespace Search

variable {search next : Search} {cursors : Fin 2 → Cursor} {value : Evaluation} {q : ℕ}

theorem evaluateLeg_withCursors (h : ∀ leg, (search.cursors leg).SameSpot (cursors leg))
    (leg : Fin 2) (q : ℕ) :
    (search.withCursors cursors).evaluateLeg leg q = search.evaluateLeg leg q := by
  obtain ⟨hfees, hpassed, hprice⟩ := h leg
  simp only [evaluateLeg, legReservation, withCursors, hfees, hpassed, hprice]

theorem feeCeilError_congr {cursor other : Cursor} (h : cursor.SameSpot other) (q : ℕ) :
    feeCeilError other q = feeCeilError cursor q := by
  unfold feeCeilError feeFactor
  rw [h.fees, h.passed, h.price]

/-- An evaluation is the same with cursors at the same spot. -/
theorem evaluate_withCursors (h : ∀ leg, (search.cursors leg).SameSpot (cursors leg)) (q : ℕ) :
    (search.withCursors cursors).evaluate q =
      (search.evaluate q).map fun result => (result.1, result.2.withCursors cursors) := by
  unfold evaluate
  by_cases hbudget : search.evaluatedQuantities = search.limits.maxEvaluations
  · have hbudget' : (search.withCursors cursors).evaluatedQuantities =
        (search.withCursors cursors).limits.maxEvaluations := hbudget
    rw [if_pos hbudget, if_pos hbudget']
    rfl
  have hbudget' : ¬(search.withCursors cursors).evaluatedQuantities =
      (search.withCursors cursors).limits.maxEvaluations := hbudget
  rw [if_neg hbudget, if_neg hbudget']
  dsimp only [withCursors]
  have hlegs (leg : Fin 2) := @evaluateLeg_withCursors
    { search with evaluatedQuantities := search.evaluatedQuantities + 1 } cursors h leg q
  dsimp only [withCursors] at hlegs
  rw [hlegs 0, hlegs 1]
  rcases evaluateLeg { search with
    evaluatedQuantities := search.evaluatedQuantities + 1 } 0 q with _ | ⟨leg0, rounding0⟩
  · rfl
  rcases evaluateLeg { search with
    evaluatedQuantities := search.evaluatedQuantities + 1 } 1 q with _ | ⟨leg1, rounding1⟩
  · rfl
  dsimp only
  rw [feeCeilError_congr (h 0) q, feeCeilError_congr (h 1) q]
  rfl

/-- An evaluation moves no cursor. -/
theorem cursors_of_evaluate (h : search.evaluate q = .ok (value, next)) :
    next.cursors = search.cursors ∧ next.limits = search.limits := by
  unfold evaluate at h
  split_ifs at h
  dsimp only at h
  split at h
  · rw [← (Prod.mk.inj (Except.ok.inj h)).2]
    exact ⟨rfl, rfl⟩
  · cases h

theorem cursors_of_interval (fuel : ℕ) {low high : Evaluation}
    (h : search.interval fuel low high = .ok next) :
    next.cursors = search.cursors ∧ next.limits = search.limits := by
  induction fuel generalizing search low high next with
  | zero =>
    rw [← Except.ok.inj h]
    exact ⟨rfl, rfl⟩
  | succ fuel ih =>
    unfold interval at h
    dsimp only at h
    by_cases hnear : high.q - low.q ≤ search.limits.step.raw
    · rw [if_pos hnear] at h
      rw [← Except.ok.inj h]
      exact ⟨rfl, rfl⟩
    rw [if_neg hnear] at h
    by_cases hprune : search.prunable low
        (if search.slope ≥ 0 then high.upper else low.upper) = true
    · rw [if_pos hprune] at h
      rw [← Except.ok.inj h]
      exact ⟨rfl, rfl⟩
    rw [if_neg hprune] at h
    cases hmid : search.evaluate (low.q + (high.q - low.q) / search.limits.step.raw / 2 *
        search.limits.step.raw) with
    | error result =>
      rw [hmid] at h
      cases h
    | ok evaluated =>
      rw [hmid] at h
      obtain ⟨hcursors, hlimits⟩ := cursors_of_evaluate hmid
      cases hlow : evaluated.2.interval fuel low evaluated.1 with
      | error result =>
        simp only [bind, Except.bind, hlow] at h
        cases h
      | ok between =>
        simp only [bind, Except.bind, hlow] at h
        have hfirst := ih hlow
        have hsecond := ih h
        exact ⟨hsecond.1.trans (hfirst.1.trans hcursors), hsecond.2.trans (hfirst.2.trans hlimits)⟩

/-- An interval is searched alike with cursors at the same spot. -/
theorem interval_withCursors (fuel : ℕ) (h : ∀ leg, (search.cursors leg).SameSpot (cursors leg))
    (low high : Evaluation) :
    (search.withCursors cursors).interval fuel low high =
      (search.interval fuel low high).map fun next => next.withCursors cursors := by
  induction fuel generalizing search low high with
  | zero => rfl
  | succ fuel ih =>
    unfold interval
    have hstep : (search.withCursors cursors).limits = search.limits := rfl
    have hslope : (search.withCursors cursors).slope = search.slope := rfl
    have hprunable (low : Evaluation) (upper : ℤ) :
        (search.withCursors cursors).prunable low upper = search.prunable low upper := rfl
    simp only [hstep, hslope, hprunable]
    by_cases hnear : high.q - low.q ≤ search.limits.step.raw
    · rw [if_pos hnear, if_pos hnear]
      rfl
    rw [if_neg hnear, if_neg hnear]
    by_cases hprune : search.prunable low
        (if search.slope ≥ 0 then high.upper else low.upper) = true
    · rw [if_pos hprune, if_pos hprune]
      rfl
    rw [if_neg hprune, if_neg hprune, evaluate_withCursors h]
    cases hmid : search.evaluate (low.q + (high.q - low.q) / search.limits.step.raw / 2 *
        search.limits.step.raw) with
    | error result => rfl
    | ok evaluated =>
      obtain ⟨mid, search'⟩ := evaluated
      obtain ⟨hcursors, -⟩ := cursors_of_evaluate hmid
      have hspot : ∀ leg, (search'.cursors leg).SameSpot (cursors leg) := hcursors ▸ h
      show ((search'.withCursors cursors).interval fuel low mid >>= fun search =>
        search.interval fuel mid high) = Except.map _
          (search'.interval fuel low mid >>= fun search => search.interval fuel mid high)
      rw [ih hspot]
      cases hlow : search'.interval fuel low mid with
      | error result => rfl
      | ok between =>
        exact ih ((cursors_of_interval fuel hlow).1.symm ▸ hspot) mid high

/-- The reservation at the current level of both cursors. -/
theorem reservation_withCursors (h : ∀ leg, (search.cursors leg).SameSpot (cursors leg)) (q : ℕ) :
    (search.withCursors cursors).reservation q = search.reservation q := by
  have hleg (leg : Fin 2) : (search.withCursors cursors).legReservation leg q =
      search.legReservation leg q := by
    unfold legReservation
    rw [(h leg).price, (h leg).fees]
    rfl
  unfold reservation
  rw [hleg, hleg]

theorem fundedSteps_withCursors (h : ∀ leg, (search.cursors leg).SameSpot (cursors leg))
    (fuel low high : ℕ) :
    fundedSteps (search.withCursors cursors) fuel low high = fundedSteps search fuel low high := by
  induction fuel generalizing low high with
  | zero => rfl
  | succ fuel ih =>
    unfold fundedSteps
    dsimp only
    rw [reservation_withCursors h, ih, ih]
    rfl

theorem lastFunded_withCursors (h : ∀ leg, (search.cursors leg).SameSpot (cursors leg))
    (first stop : ℕ) :
    (search.withCursors cursors).lastFunded first stop = search.lastFunded first stop := by
  unfold lastFunded
  dsimp only
  rw [reservation_withCursors h, fundedSteps_withCursors h]
  rfl

theorem marginSlope_withCursors (h : ∀ leg, (search.cursors leg).SameSpot (cursors leg)) :
    (search.withCursors cursors).marginSlope = search.marginSlope := by
  have hfactor (leg : Fin 2) : feeFactor (cursors leg) = feeFactor (search.cursors leg) := by
    unfold feeFactor
    rw [(h leg).fees, (h leg).price]
  unfold marginSlope withCursors
  dsimp only
  rw [hfactor, hfactor, (h 0).price, (h 1).price]

theorem evaluateHigh_withCursors (h : ∀ leg, (search.cursors leg).SameSpot (cursors leg))
    (low : Evaluation) (first last : ℕ) :
    (search.withCursors cursors).evaluateHigh low first last =
      (search.evaluateHigh low first last).map fun result =>
        (result.1, result.2.withCursors cursors) := by
  unfold evaluateHigh
  split_ifs
  · rfl
  · exact evaluate_withCursors h last

theorem cursors_of_evaluateHigh {low high : Evaluation} {first last : ℕ}
    (h : search.evaluateHigh low first last = .ok (high, next)) :
    next.cursors = search.cursors ∧ next.limits = search.limits := by
  unfold evaluateHigh at h
  split_ifs at h
  · rw [← (Prod.mk.inj (Except.ok.inj h)).2]
    exact ⟨rfl, rfl⟩
  · exact cursors_of_evaluate h

/-- **A stretch is searched alike** with cursors at the same spot, and moves no cursor. -/
theorem stretch_withCursors (h : ∀ leg, (search.cursors leg).SameSpot (cursors leg))
    (first last : ℕ) :
    (search.withCursors cursors).stretch first last =
        (search.stretch first last).map (fun next => next.withCursors cursors) ∧
      ∀ next, search.stretch first last = .ok next →
        next.cursors = search.cursors ∧ next.limits = search.limits := by
  let sloped : Search := { search with slope := search.marginSlope }
  have hsloped : ∀ leg, (sloped.cursors leg).SameSpot (cursors leg) := h
  have hstart : ({ search.withCursors cursors with
      slope := (search.withCursors cursors).marginSlope } : Search) =
        sloped.withCursors cursors := by
    rw [marginSlope_withCursors h]
    rfl
  unfold stretch
  dsimp only
  rw [hstart, evaluate_withCursors hsloped]
  show _ = Except.map _ (sloped.evaluate first >>= _) ∧ ∀ next,
    (sloped.evaluate first >>= _) = _ → _
  cases hlow : sloped.evaluate first with
  | error result => exact ⟨rfl, fun next hnext => nomatch hnext⟩
  | ok evaluated =>
    obtain ⟨low, search1⟩ := evaluated
    obtain ⟨hcursors1, hlimits1⟩ := cursors_of_evaluate hlow
    have hspot1 : ∀ leg, (search1.cursors leg).SameSpot (cursors leg) := hcursors1 ▸ hsloped
    show ((search1.withCursors cursors).evaluateHigh low first last >>= _) =
      Except.map _ (search1.evaluateHigh low first last >>= _) ∧
        ∀ next, (search1.evaluateHigh low first last >>= _) = _ → _
    rw [evaluateHigh_withCursors hspot1]
    cases hhigh : search1.evaluateHigh low first last with
    | error result => exact ⟨rfl, fun next hnext => nomatch hnext⟩
    | ok evaluated =>
      obtain ⟨high, search2⟩ := evaluated
      obtain ⟨hcursors2, hlimits2⟩ := cursors_of_evaluateHigh hhigh
      have hspot2 : ∀ leg, (search2.cursors leg).SameSpot (cursors leg) := hcursors2 ▸ hspot1
      refine ⟨interval_withCursors _ hspot2 low high, fun next hnext => ?_⟩
      obtain ⟨hcursors, hlimits⟩ := cursors_of_interval _ hnext
      exact ⟨hcursors.trans (hcursors2.trans hcursors1), hlimits.trans (hlimits2.trans hlimits1)⟩

/-! ### Searches that are alike -/

/-- **Searches that cannot be told apart** on the grid and within the cap. -/
structure Alike (limits : SizingLimits) (search other : Search) : Prop where
  limits_eq : search.limits = limits
  fields : other = search.withCursors other.cursors
  cursors : ∀ leg, (search.cursors leg).Alike limits (other.cursors leg)

variable {limits : SizingLimits} {other : Search}

/-- What seeking does: the second cursor moves only when the first is found. -/
theorem seek_eq (search : Search) :
    search.seek = if (search.cursors 0).seek.2 then
        (search.withCursors ![(search.cursors 0).seek.1, (search.cursors 1).seek.1],
          (search.cursors 1).seek.2)
      else (search.withCursors ![(search.cursors 0).seek.1, search.cursors 1], false) := by
  unfold seek withCursors
  rcases (search.cursors 0).seek with ⟨cursor0, found0⟩
  cases found0 <;> rfl

theorem Alike.seek (h : search.Alike limits other) (hl : limits.Valid) :
    (search.seek.2 = false ∧ other.seek.2 = false ∧ search.seek.1.Alike limits other.seek.1) ∨
    (search.seek.2 = true ∧ other.seek.2 = true ∧ search.seek.1.Alike limits other.seek.1 ∧
      ∀ leg, (search.seek.1.cursors leg).Standing limits (other.seek.1.cursors leg) ∧
        (search.seek.1.cursors leg).levels.tail.length < (search.cursors leg).levels.length ∧
        (other.seek.1.cursors leg).levels.tail.length < (other.cursors leg).levels.length) := by
  have hfields := h.fields
  rw [seek_eq, seek_eq]
  rcases (h.cursors 0).seek hl with ⟨hnone, hnone'⟩ | ⟨hfound, hfound', hstanding, hlength⟩
  · rw [hnone, hnone', if_neg Bool.false_ne_true, if_neg Bool.false_ne_true]
    refine Or.inl ⟨rfl, rfl, h.limits_eq, ?_, ?_⟩
    · rw [hfields]
      rfl
    · exact Fin.forall_fin_two.mpr ⟨(h.cursors 0).sought hl, h.cursors 1⟩
  rw [hfound, hfound', if_pos rfl, if_pos rfl]
  have halike : (search.withCursors ![(search.cursors 0).seek.1, (search.cursors 1).seek.1]).Alike
      limits (other.withCursors ![(other.cursors 0).seek.1, (other.cursors 1).seek.1]) := by
    refine ⟨h.limits_eq, ?_, Fin.forall_fin_two.mpr ⟨(h.cursors 0).sought hl,
      (h.cursors 1).sought hl⟩⟩
    rw [hfields]
    rfl
  rcases (h.cursors 1).seek hl with ⟨hnone, hnone'⟩ | ⟨hfound1, hfound1', hstanding1, hlength1⟩
  · exact Or.inl ⟨hnone, hnone', halike⟩
  · exact Or.inr ⟨hfound1, hfound1', halike, Fin.forall_fin_two.mpr ⟨⟨hstanding, hlength⟩,
      hstanding1, hlength1⟩⟩

/-- The cursor has passed its level, or its level ends elsewhere and it has not moved. -/
def Passed (stop : ℕ) (cursor next : Cursor) : Prop :=
  next.levels = cursor.levels.tail ∨ cursor.stop ≠ stop ∧ next.levels = cursor.levels

/-- Passing a level fails on both ladders, or keeps the cursors alike. -/
theorem passLevel_alike {cursor cursor' : Cursor} (h : cursor.Standing limits cursor')
    (search : Search) (cursors : Fin 2 → Cursor) {stop : ℕ} (hstop : stop < limits.gridCap) :
    (∃ result, search.passLevel stop cursor = .error result ∧
      (search.withCursors cursors).passLevel stop cursor' = .error result) ∨
    ∃ next next', search.passLevel stop cursor = .ok next ∧
      (search.withCursors cursors).passLevel stop cursor' = .ok next' ∧ next.Alike limits next' ∧
      Passed stop cursor next ∧ Passed stop cursor' next' := by
  have hsame := h.stop
  unfold passLevel Passed
  by_cases hends : cursor.stop = stop
  · have hends' : cursor'.stop = stop := by omega
    obtain ⟨hsize, hbehind⟩ := h.behind (hends ▸ hstop)
    rw [if_pos hends, if_pos hends']
    unfold Cursor.advance
    rw [← hsize, ← h.price, ← h.alike.fees, ← h.alike.passed]
    cases chargeBuyFill cursor.size cursor.price cursor.fees cursor.passed.accumulator with
    | none => exact Or.inl ⟨_, rfl, rfl⟩
    | some charged =>
      exact Or.inr ⟨_, _, rfl, rfl, ⟨rfl, rfl, h.alike.step, h.alike.step', h.alike.cap,
        h.alike.cap', hbehind⟩, Or.inl rfl, Or.inl rfl⟩
  · have hends' : cursor'.stop ≠ stop := by omega
    rw [if_neg hends, if_neg hends']
    exact Or.inr ⟨_, _, rfl, rfl, h.alike, Or.inr ⟨hends, rfl⟩, Or.inr ⟨hends', rfl⟩⟩

/-- Both searches pass the same levels. -/
theorem advance_alike (h : ∀ leg, (search.cursors leg).Standing limits (cursors leg))
    (hlimits : search.limits = limits) {stop : ℕ} (hstop : stop < limits.gridCap) :
    (∃ result, search.advance stop = .error result ∧
      (search.withCursors cursors).advance stop = .error result) ∨
    ∃ next next', search.advance stop = .ok next ∧
      (search.withCursors cursors).advance stop = .ok next' ∧ next.Alike limits next' ∧
      ∀ leg, Passed stop (search.cursors leg) (next.cursors leg) ∧
        Passed stop (cursors leg) (next'.cursors leg) := by
  unfold advance
  rcases passLevel_alike (h 0) search cursors hstop with
    ⟨result, hpass, hpass'⟩ | ⟨next0, next0', hpass, hpass', halike0, hpassed0, hpassed0'⟩
  · rw [hpass, show (search.withCursors cursors).cursors 0 = cursors 0 from rfl, hpass']
    exact Or.inl ⟨result, rfl, rfl⟩
  rw [hpass, show (search.withCursors cursors).cursors 0 = cursors 0 from rfl, hpass']
  rcases passLevel_alike (h 1) search cursors hstop with
    ⟨result, hpass, hpass'⟩ | ⟨next1, next1', hpass, hpass', halike1, hpassed1, hpassed1'⟩
  · rw [hpass, show (search.withCursors cursors).cursors 1 = cursors 1 from rfl, hpass']
    exact Or.inl ⟨result, rfl, rfl⟩
  rw [hpass, show (search.withCursors cursors).cursors 1 = cursors 1 from rfl, hpass']
  exact Or.inr ⟨_, _, rfl, rfl, ⟨hlimits, rfl, Fin.forall_fin_two.mpr ⟨halike0, halike1⟩⟩,
    Fin.forall_fin_two.mpr ⟨⟨hpassed0, hpassed0'⟩, hpassed1, hpassed1'⟩⟩

/-- A cursor that has passed leaves fewer levels than were there before it was found. -/
theorem Passed.length_le {cursor next : Cursor} {stop length : ℕ} (h : Passed stop cursor next)
    (hlength : cursor.levels.tail.length < length) :
    next.levels.length ≤ length ∧ (cursor.stop = stop → next.levels.length < length) := by
  rw [List.length_tail] at hlength
  rcases h with htail | ⟨hne, hsame⟩
  · rw [htail, List.length_tail]
    omega
  · rw [hsame]
    exact ⟨by omega, fun heq => absurd heq hne⟩

/-- **The loops of searches that are alike end alike.** -/
theorem Alike.loop (hl : limits.Valid) (fuel : ℕ) : ∀ (fuel' : ℕ)
    {search other : Search} (first : ℕ)
    (funded : Bool), search.Alike limits other →
      (search.cursors 0).levels.length + (search.cursors 1).levels.length < fuel →
      (other.cursors 0).levels.length + (other.cursors 1).levels.length < fuel' →
      (∃ result, Search.loop fuel search first funded = .error result ∧
        Search.loop fuel' other first funded = .error result) ∨
      ∃ next next' funded', Search.loop fuel search first funded = .ok (next, funded') ∧
        Search.loop fuel' other first funded = .ok (next', funded') ∧ next.Alike limits next' := by
  induction fuel with
  | zero => exact fun _ _ _ _ _ _ h _ => absurd h (Nat.not_lt_zero _)
  | succ fuel ih =>
    intro fuel' search other first funded h hfuel hfuel'
    cases fuel' with
    | zero => exact absurd hfuel' (Nat.not_lt_zero _)
    | succ fuel' =>
      have hlimits : other.limits = search.limits := by
        rw [h.fields]
        rfl
      unfold Search.loop
      dsimp only
      rw [hlimits, h.limits_eq, ← SizingLimits.gridCap.eq_def limits]
      by_cases hcap : limits.gridCap < first
      · rw [if_pos hcap, if_pos hcap]
        exact Or.inr ⟨_, _, _, rfl, rfl, h⟩
      rw [if_neg hcap, if_neg hcap]
      have hseek := h.seek hl
      rcases hsought : search.seek with ⟨sought, found⟩
      rcases hsought' : other.seek with ⟨sought', found'⟩
      rw [hsought, hsought'] at hseek
      dsimp only at hseek ⊢
      rcases hseek with ⟨rfl, rfl, halike⟩ | ⟨rfl, rfl, halike, hstanding⟩
      · exact Or.inr ⟨_, _, _, rfl, rfl, halike⟩
      simp only [Bool.not_true, Bool.false_eq_true, if_false]
      obtain ⟨cursors, rfl⟩ : ∃ cursors, sought' = sought.withCursors cursors := ⟨_, halike.fields⟩
      have hspot (leg : Fin 2) : (sought.cursors leg).SameSpot (cursors leg) :=
        ⟨(hstanding leg).1.alike.fees, (hstanding leg).1.alike.passed, (hstanding leg).1.price⟩
      have hstop : min limits.gridCap (min (cursors 0).stop (cursors 1).stop) =
          min limits.gridCap (min (sought.cursors 0).stop (sought.cursors 1).stop) := by
        have h0 : _ = min _ (cursors 0).stop := (hstanding 0).1.stop
        have h1 : _ = min _ (cursors 1).stop := (hstanding 1).1.stop
        omega
      have hcursors : (sought.withCursors cursors).cursors = cursors := rfl
      rw [hcursors, hstop, lastFunded_withCursors hspot]
      set stop := min limits.gridCap (min (sought.cursors 0).stop (sought.cursors 1).stop)
        with hstopdef
      set last := sought.lastFunded first stop
      by_cases hnone : last < first
      · rw [if_pos hnone, if_pos hnone]
        exact Or.inr ⟨_, _, _, rfl, rfl, halike⟩
      rw [if_neg hnone, if_neg hnone]
      obtain ⟨hstretch, hmoves⟩ := stretch_withCursors hspot first last
      rw [hstretch]
      cases hnext : sought.stretch first last with
      | error result => exact Or.inl ⟨result, rfl, rfl⟩
      | ok next =>
        obtain ⟨hnextcursors, hnextlimits⟩ := hmoves next hnext
        simp only [Except.map, bind, Except.bind]
        have hnextalike : next.Alike limits (next.withCursors cursors) :=
          ⟨hnextlimits.trans halike.limits_eq, rfl, fun leg => by
            rw [hnextcursors]
            exact halike.cursors leg⟩
        by_cases hend : last < stop ∨ stop = limits.gridCap
        · rw [if_pos hend, if_pos hend]
          exact Or.inr ⟨_, _, _, rfl, rfl, hnextalike⟩
        rw [if_neg hend, if_neg hend]
        have hbelow : stop < limits.gridCap := by omega
        have hlegs (leg : Fin 2) : (next.cursors leg).Standing limits (cursors leg) := by
          rw [hnextcursors]
          exact (hstanding leg).1
        rcases advance_alike hlegs hnextalike.limits_eq hbelow with
          ⟨result, hpass, hpass'⟩ | ⟨passed, passed', hpass, hpass', hpassedalike, hpassed⟩
        · rw [hpass, hpass']
          exact Or.inl ⟨result, rfl, rfl⟩
        rw [hpass, hpass']
        -- A level was passed on each ladder, so that both have less left.
        have hless (leg : Fin 2) := (hpassed leg).1.length_le (hnextcursors ▸ (hstanding leg).2.1)
        have hless' (leg : Fin 2) := (hpassed leg).2.length_le (hstanding leg).2.2
        have hends : (sought.cursors 0).stop = stop ∨ (sought.cursors 1).stop = stop := by omega
        have hends' : (cursors 0).stop = stop ∨ (cursors 1).stop = stop := by omega
        rw [hnextcursors] at hless
        have h0 := hless 0
        have h1 := hless 1
        have h0' := hless' 0
        have h1' := hless' 1
        exact ih fuel' _ true hpassedalike (by omega) (by omega)

/-- A finished search has the same result. -/
theorem Alike.finish (h : search.Alike limits other) (hl : limits.Valid) (funded : Bool) :
    search.finish funded = other.finish funded := by
  have hfields := h.fields
  have hseek : search.seek.2 = other.seek.2 := by
    rcases h.seek hl with ⟨hnone, hnone', -⟩ | ⟨hfound, hfound', -⟩
    · rw [hnone, hnone']
    · rw [hfound, hfound']
  have hstatus : search.emptyStatus funded = other.emptyStatus funded := by
    unfold Search.emptyStatus
    rw [(h.cursors 0).passed, hseek]
  have hbest : other.best = search.best := by
    rw [hfields]
    rfl
  have hfailed (status : SizingStatus) : other.failed status = search.failed status := by
    rw [hfields]
    rfl
  unfold Search.finish
  rw [hbest, hfailed, hfailed, hstatus]

/-- **Searches that are alike have the same result.** -/
theorem Alike.run (h : search.Alike limits other) (hl : limits.Valid) :
    search.run = other.run := by
  have hseek := h.seek hl
  unfold Search.run
  rcases hsought : search.seek with ⟨sought, found⟩
  rcases hsought' : other.seek with ⟨sought', found'⟩
  rw [hsought, hsought'] at hseek
  dsimp only at hseek ⊢
  rcases hseek with ⟨rfl, rfl, halike⟩ | ⟨rfl, rfl, halike, hstanding⟩
  · simp only [Bool.not_false, if_true]
    rw [halike.fields]
    rfl
  simp only [Bool.not_true, Bool.false_eq_true, if_false]
  have hlimits : sought'.limits = sought.limits := by
    rw [halike.fields]
    rfl
  rw [← (hstanding 0).1.price, ← (hstanding 1).1.price, hlimits]
  split_ifs
  · rw [halike.fields]
    rfl
  rcases halike.loop hl _ _ sought.limits.step.raw false (Nat.lt_succ_self _)
      (Nat.lt_succ_self _) with ⟨result, hloop, hloop'⟩ | ⟨next, next', funded, hloop,
        hloop', hnext⟩
  · rw [hloop, hloop']
  · rw [hloop, hloop']
    exact hnext.finish hl funded

end Search

/-- **Pairs are sized alike on ladders that agree on the grid within the cap.** The whole result is
the same: the status, the quote and the numbers of evaluations and prunings. -/
theorem sizeBuyPair_congr {depth depth' : Fin 2 → BuyDepth} {limits : SizingLimits}
    (hvalid : ∀ leg, (depth leg).Valid) (hvalid' : ∀ leg, (depth' leg).Valid)
    (hfees : ∀ leg, (depth leg).fees = (depth' leg).fees)
    (hagrees : limits.Valid → ∀ leg, Agrees limits.gridCap
      (gridLevels limits.step.raw (depth leg).levels)
      (gridLevels limits.step.raw (depth' leg).levels)) :
    sizeBuyPair depth limits = sizeBuyPair depth' limits := by
  unfold sizeBuyPair
  by_cases hl : limits.Valid
  · have hlevels := hagrees hl
    have hall : limits.Valid ∧ (depth 0).Valid ∧ (depth 1).Valid := ⟨hl, hvalid 0, hvalid 1⟩
    have hall' : limits.Valid ∧ (depth' 0).Valid ∧ (depth' 1).Valid := ⟨hl, hvalid' 0, hvalid' 1⟩
    rw [if_pos hall, if_pos hall']
    have hcursor (leg : Fin 2) : (Cursor.start (depth leg) limits).Alike limits
        (Cursor.start (depth' leg) limits) :=
      ⟨hfees leg, rfl, rfl, rfl, rfl, rfl, hlevels leg⟩
    have hstart : Search.Alike limits
        { limits, cursors := ![.start (depth 0) limits, .start (depth 1) limits] }
        { limits, cursors := ![.start (depth' 0) limits, .start (depth' 1) limits] } :=
      ⟨rfl, rfl, Fin.forall_fin_two.mpr ⟨hcursor 0, hcursor 1⟩⟩
    exact hstart.run hl
  · rw [if_neg fun h => hl h.1, if_neg fun h => hl h.1]

end EventMarket.Core
