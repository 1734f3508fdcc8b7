import EventMarket.Core.NetSizingOptimal
import EventMarket.Foundations.Run
import Mathlib.Data.Finset.Card
import Mathlib.Data.Finset.Image

/-!
# The budget of the pair search

Every evaluation of the pair search counts against a budget. This file follows the search of
`EventMarket.Core.NetSizing` through its log, the quantities at which it asks for an evaluation.
The stretches cut the grid into disjoint ranges, and an interval is halved strictly inside its
ends, so no quantity is asked for twice. Two searches that differ in their budgets alone take the
same steps until the smaller budget is spent.

## Main definitions

* `sizingLog`, `evaluatedLog`: the quantities asked for, and those evaluated.
* `Search.Logged`: the counter of a search grows with its log.
* `GridLog`: different grid quantities of a range.
* `Search.Widened`: two searches that differ in their budgets alone.

## Main results

* `Search.loop_logged`, `Search.loopLog_grid`, `Search.loop_extends`: the three facts of the loop.
* `sizeBuyPair_budget`: how the result depends on the budget.
-/

namespace EventMarket.Core

open Foundations

/-! ### The log -/

/-- The log of a continuation; an error ends the log. -/
def logAfter {α : Type} (x : Except SizingResult α) (next : α → List ℕ) : List ℕ :=
  match x with
  | .ok a => next a
  | .error _ => []

namespace Search

/-- The log of `Search.interval`. -/
def intervalLog : ℕ → Search → Evaluation → Evaluation → List ℕ
  | 0, _, _, _ => []
  | fuel + 1, search, low, high =>
    let step := search.limits.step.raw
    if high.q - low.q ≤ step then []
    else
      let upper := if search.slope ≥ 0 then high.upper else low.upper
      if search.prunable low upper then []
      else
        let steps := (high.q - low.q) / step
        let mid := low.q + steps / 2 * step
        [mid] ++ logAfter (search.evaluate mid) fun (value, search) =>
          intervalLog fuel search low value ++
            logAfter (search.interval fuel low value) fun search =>
              intervalLog fuel search value high

/-- The log of `Search.stretch`. -/
def stretchLog (search : Search) (first last : ℕ) : List ℕ :=
  let search := { search with slope := search.marginSlope }
  [first] ++ logAfter (search.evaluate first) fun (low, search) =>
    (if last = first then [] else [last]) ++
      logAfter (search.evaluateHigh low first last) fun (high, search) =>
        intervalLog ((high.q - low.q) / search.limits.step.raw + 1) search low high

/-- The log of `Search.loop`. -/
def loopLog : ℕ → Search → ℕ → List ℕ
  | 0, _, _ => []
  | fuel + 1, search, first =>
    let step := search.limits.step.raw
    let cap := search.limits.cap.raw / step * step
    if cap < first then []
    else
      let (search, found) := search.seek
      if !found then []
      else
        let stop := min cap (min (search.cursors 0).stop (search.cursors 1).stop)
        let last := search.lastFunded first stop
        if last < first then []
        else
          search.stretchLog first last ++ logAfter (search.stretch first last) fun search =>
            if last < stop ∨ stop = cap then []
            else logAfter (search.advance stop) fun search => loopLog fuel search (stop + step)

/-- The log of `Search.run`. -/
def runLog (search : Search) : List ℕ :=
  let (search, found) := search.seek
  if !found then []
  else if (search.cursors 0).price.raw + (search.cursors 1).price.raw ≥ 10000 then []
  else
    let levels := (search.cursors 0).levels.length + (search.cursors 1).levels.length
    loopLog (levels + 1) search search.limits.step.raw

end Search

/-- The quantities at which the search asks for an evaluation, the one refused for want of budget
included. -/
def sizingLog (depth : Fin 2 → BuyDepth) (limits : SizingLimits) : List ℕ :=
  if limits.Valid ∧ (depth 0).Valid ∧ (depth 1).Valid then
    Search.runLog { limits, cursors := ![.start (depth 0) limits, .start (depth 1) limits] }
  else []

/-- The quantities that the search evaluates: those within the budget. -/
def evaluatedLog (depth : Fin 2 → BuyDepth) (limits : SizingLimits) : List ℕ :=
  (sizingLog depth limits).take limits.maxEvaluations

/-! ### The counter grows with the log -/

namespace Search

section Logged

variable {α β : Type} {search : Search} {log : List ℕ} {after : α → Search}

/-- The counter has not passed the budget. -/
def Within (search : Search) : Prop := search.evaluatedQuantities ≤ search.limits.maxEvaluations

/-- **The counter grows with the log.** The search refuses a quantity only when the budget is
spent, and the refused quantity is the only one that is logged and not counted. -/
def Logged (search : Search) (log : List ℕ) (after : α → Search) : Except SizingResult α → Prop
  | .ok a => (after a).limits = search.limits ∧
      (after a).evaluatedQuantities = search.evaluatedQuantities + log.length ∧
      (search.Within → (after a).Within)
  | .error result =>
      (search.Within → result.evaluatedQuantities ≤ search.limits.maxEvaluations) ∧
      (result.status = .searchBudgetExceeded →
        result.evaluatedQuantities = search.limits.maxEvaluations ∧
          result.evaluatedQuantities + 1 = search.evaluatedQuantities + log.length) ∧
      (result.status ≠ .searchBudgetExceeded →
        result.evaluatedQuantities = search.evaluatedQuantities + log.length)

theorem Logged.bind {x : Except SizingResult α} {f : α → Except SizingResult β}
    {next : α → List ℕ} {after' : β → Search} (hx : search.Logged log after x)
    (hf : ∀ a, x = .ok a → (after a).Logged (next a) after' (f a)) :
    search.Logged (log ++ logAfter x next) after' (x >>= f) := by
  cases x with
  | error result =>
    change search.Logged (log ++ []) after' (.error result)
    rw [List.append_nil]
    exact hx
  | ok a =>
    obtain ⟨hlimits, hcount, hwithin⟩ := hx
    have hnext := hf a rfl
    change search.Logged (log ++ next a) after' (f a)
    cases hfa : f a with
    | error result =>
      rw [hfa] at hnext
      obtain ⟨hle, hexceeded, hother⟩ := hnext
      rw [hlimits] at hle hexceeded
      rw [hcount] at hexceeded hother
      refine ⟨fun h => hle (hwithin h), fun h => ?_, fun h => ?_⟩
      · obtain ⟨hmax, hlength⟩ := hexceeded h
        exact ⟨hmax, by rw [List.length_append]; omega⟩
      · rw [hother h, List.length_append, Nat.add_assoc]
    | ok b =>
      rw [hfa] at hnext
      obtain ⟨hlimits', hcount', hwithin'⟩ := hnext
      exact ⟨hlimits'.trans hlimits, by rw [hcount', hcount, List.length_append, Nat.add_assoc],
        fun h => hwithin' (hwithin h)⟩

theorem logged_ok (search : Search) (a : α) (hlimits : (after a).limits = search.limits)
    (hcount : (after a).evaluatedQuantities = search.evaluatedQuantities) :
    search.Logged [] after (.ok a) :=
  ⟨hlimits, hcount, fun h => by rwa [Within, hlimits, hcount]⟩

theorem evaluate_logged (search : Search) (q : ℕ) :
    search.Logged [q] Prod.snd (search.evaluate q) := by
  unfold evaluate
  by_cases hbudget : search.evaluatedQuantities = search.limits.maxEvaluations
  · rw [if_pos hbudget]
    exact ⟨fun h => h, fun _ => ⟨hbudget, rfl⟩, fun h => absurd rfl h⟩
  rw [if_neg hbudget]
  have hless (h : search.Within) : search.evaluatedQuantities + 1 ≤ search.limits.maxEvaluations :=
    lt_of_le_of_ne h hbudget
  dsimp only
  split
  · exact ⟨rfl, rfl, hless⟩
  · refine ⟨hless, fun h => ?_, fun _ => rfl⟩
    simp [failed] at h

theorem interval_logged (fuel : ℕ) : ∀ (search : Search) (low high : Evaluation),
    search.Logged (search.intervalLog fuel low high) id (search.interval fuel low high) := by
  induction fuel with
  | zero => exact fun search _ _ => search.logged_ok search rfl rfl
  | succ fuel ih =>
    intro search low high
    simp only [interval, intervalLog]
    by_cases hnarrow : high.q - low.q ≤ search.limits.step.raw
    · rw [if_pos hnarrow, if_pos hnarrow]
      exact search.logged_ok search rfl rfl
    · rw [if_neg hnarrow, if_neg hnarrow]
      generalize (if search.slope ≥ 0 then high.upper else low.upper) = upper
      split
      · exact search.logged_ok _ rfl rfl
      · refine (search.evaluate_logged _).bind fun a _ => ?_
        exact (ih a.2 low a.1).bind fun other _ => ih other a.1 high

theorem evaluateHigh_logged (search : Search) (low : Evaluation) (first last : ℕ) :
    search.Logged (if last = first then [] else [last]) Prod.snd
      (search.evaluateHigh low first last) := by
  unfold evaluateHigh
  split
  · exact search.logged_ok _ rfl rfl
  · exact search.evaluate_logged last

theorem stretch_logged (search : Search) (first last : ℕ) :
    search.Logged (search.stretchLog first last) id (search.stretch first last) := by
  have hstart := evaluate_logged { search with slope := search.marginSlope } first
  refine Logged.bind hstart fun a _ => ?_
  exact (a.2.evaluateHigh_logged a.1 first last).bind fun b _ => interval_logged _ b.2 a.1 b.1

theorem passLevel_logged (search : Search) (stop : ℕ) (cursor : Cursor) :
    search.Logged [] (fun _ => search) (search.passLevel stop cursor) := by
  unfold passLevel
  split
  · split
    · exact search.logged_ok _ rfl rfl
    · refine ⟨fun h => h, fun h => ?_, fun _ => rfl⟩
      simp [failed] at h
  · exact search.logged_ok _ rfl rfl

theorem advance_logged (search : Search) (stop : ℕ) :
    search.Logged [] id (search.advance stop) := by
  have hnone (x : Except SizingResult Cursor) : logAfter x (fun _ => []) = [] := by
    cases x <;> rfl
  have hdone (cursor0 cursor1 : Cursor) :
      search.Logged [] id (.ok { search with cursors := ![cursor0, cursor1] }) :=
    search.logged_ok _ rfl rfl
  have hlog : search.Logged ([] ++ logAfter (search.passLevel stop (search.cursors 0)) fun _ =>
      [] ++ logAfter (search.passLevel stop (search.cursors 1)) fun _ => []) id
      (search.advance stop) :=
    (search.passLevel_logged stop (search.cursors 0)).bind fun cursor0 _ =>
      (search.passLevel_logged stop (search.cursors 1)).bind fun cursor1 _ =>
        hdone cursor0 cursor1
  simp only [hnone, List.append_nil] at hlog
  exact hlog

theorem seek_limits (search : Search) : search.seek.1.limits = search.limits := by
  unfold seek
  dsimp only
  split <;> rfl

theorem seek_evaluatedQuantities (search : Search) :
    search.seek.1.evaluatedQuantities = search.evaluatedQuantities := by
  unfold seek
  dsimp only
  split <;> rfl

/-- A search that only sought counts from where it was. -/
theorem Logged.of_seek {x : Except SizingResult α} (h : search.seek.1.Logged log after x) :
    search.Logged log after x := by
  unfold Logged Within at h ⊢
  rwa [search.seek_limits, search.seek_evaluatedQuantities] at h

theorem loop_logged (fuel : ℕ) : ∀ (search : Search) (first : ℕ) (funded : Bool),
    search.Logged (search.loopLog fuel first) Prod.fst (search.loop fuel first funded) := by
  induction fuel with
  | zero => exact fun search _ funded => search.logged_ok _ rfl rfl
  | succ fuel ih =>
    intro search first funded
    simp only [loop, loopLog]
    split
    · exact search.logged_ok _ rfl rfl
    refine Logged.of_seek ?_
    split
    · exact logged_ok _ _ rfl rfl
    split
    · exact logged_ok _ _ rfl rfl
    refine (stretch_logged _ _ _).bind fun other _ => ?_
    split
    · exact logged_ok _ _ rfl rfl
    · rw [← List.nil_append (logAfter _ _)]
      exact (other.advance_logged _).bind fun next _ => ih next _ true

end Logged

end Search

/-! ### The log stays on the grid -/

/-- **Different grid quantities of a range**, from `low` up to and without `high`. -/
structure GridLog (step low high : ℕ) (log : List ℕ) : Prop where
  nodup : log.Nodup
  dvd : ∀ q ∈ log, step ∣ q
  low_le : ∀ q ∈ log, low ≤ q
  lt_high : ∀ q ∈ log, q < high

namespace GridLog

variable {step low high low' high' q : ℕ} {log log' : List ℕ}

theorem nil : GridLog step low high [] := by
  constructor <;> simp

theorem singleton (hdvd : step ∣ q) : GridLog step q (q + 1) [q] := by
  constructor <;> simp [hdvd]

theorem mono (h : GridLog step low high log) (hlow : low' ≤ low) (hhigh : high ≤ high') :
    GridLog step low' high' log where
  nodup := h.nodup
  dvd := h.dvd
  low_le := fun q hq => hlow.trans (h.low_le q hq)
  lt_high := fun q hq => (h.lt_high q hq).trans_le hhigh

theorem perm (h : GridLog step low high log) (hperm : log.Perm log') :
    GridLog step low high log' where
  nodup := hperm.nodup_iff.mp h.nodup
  dvd := fun q hq => h.dvd q (hperm.mem_iff.mpr hq)
  low_le := fun q hq => h.low_le q (hperm.mem_iff.mpr hq)
  lt_high := fun q hq => h.lt_high q (hperm.mem_iff.mpr hq)

/-- The logs of two ranges, one after the other. -/
theorem append (h : GridLog step low high log) (h' : GridLog step low' high' log')
    (hlow : low ≤ low') (hbetween : high ≤ low') (hhigh : high ≤ high') :
    GridLog step low high' (log ++ log') where
  nodup := by
    refine List.nodup_append.mpr ⟨h.nodup, h'.nodup, fun q hq q' hq' heq => ?_⟩
    have := h.lt_high q hq
    have := h'.low_le q' hq'
    omega
  dvd := fun q hq => (List.mem_append.mp hq).elim (h.dvd q) (h'.dvd q)
  low_le := fun q hq => (List.mem_append.mp hq).elim (h.low_le q) fun hq' =>
    hlow.trans (h'.low_le q hq')
  lt_high := fun q hq => (List.mem_append.mp hq).elim (fun hq' => (h.lt_high q hq').trans_le hhigh)
    (h'.lt_high q)

theorem after {α : Type} {x : Except SizingResult α} {next : α → List ℕ}
    (h : ∀ a, x = .ok a → GridLog step low high (next a)) :
    GridLog step low high (logAfter x next) := by
  cases x with
  | error result => exact nil
  | ok a => exact h a rfl

/-- A range holds only so many grid quantities. -/
theorem length_le (h : GridLog step low high log) (hstep : 0 < step) (hlow : 0 < low) :
    log.length ≤ (high - 1) / step := by
  have hsub : log.toFinset ⊆ (Finset.range ((high - 1) / step)).image fun k => (k + 1) * step := by
    intro q hq
    rw [List.mem_toFinset] at hq
    obtain ⟨k, rfl⟩ := h.dvd q hq
    have hpos := hlow.trans_le (h.low_le _ hq)
    have hlt := h.lt_high _ hq
    have hk : 0 < k := Nat.pos_of_mul_pos_left hpos
    have hle : k ≤ (high - 1) / step :=
      (Nat.le_div_iff_mul_le hstep).mpr (by rw [mul_comm]; omega)
    refine Finset.mem_image.mpr ⟨k - 1, Finset.mem_range.mpr (by omega), ?_⟩
    rw [Nat.sub_add_cancel hk, mul_comm]
  calc log.length = log.toFinset.card := (List.toFinset_card_of_nodup h.nodup).symm
    _ ≤ _ := Finset.card_le_card hsub
    _ ≤ (Finset.range ((high - 1) / step)).card := Finset.card_image_le
    _ = (high - 1) / step := Finset.card_range _

end GridLog

namespace Search

variable {depth : Fin 2 → BuyDepth} {limits : SizingLimits}

/-- An evaluation only moves the best value and the counter. -/
theorem evaluate_ok {search other : Search} {q : ℕ} {value : Evaluation}
    (h : search.evaluate q = .ok (value, other)) : value.q = q ∧ search.SameCursors other := by
  unfold evaluate at h
  split at h
  · simp at h
  · dsimp only at h
    split at h
    · simp only [Except.ok.injEq, Prod.mk.injEq] at h
      obtain ⟨rfl, rfl⟩ := h
      exact ⟨rfl, rfl, rfl, rfl⟩
    · simp at h

theorem interval_ok (fuel : ℕ) : ∀ {search other : Search} {low high : Evaluation},
    search.interval fuel low high = .ok other → search.SameCursors other := by
  induction fuel with
  | zero =>
    intro search other low high h
    obtain rfl := Except.ok.inj h
    exact .refl search
  | succ fuel ih =>
    intro search other low high h
    simp only [interval] at h
    split at h
    · obtain rfl := Except.ok.inj h
      exact .refl search
    generalize (if search.slope ≥ 0 then high.upper else low.upper) = upper at h
    split at h
    · obtain rfl := Except.ok.inj h
      exact ⟨rfl, rfl, rfl⟩
    obtain ⟨⟨value, next⟩, hmid, h⟩ := bind_eq_ok h
    obtain ⟨left, hleft, h⟩ := bind_eq_ok h
    exact ((evaluate_ok hmid).2.trans (ih hleft)).trans (ih h)

/-- An interval is halved strictly inside its ends. -/
theorem intervalLog_grid (hl : limits.Valid) (fuel : ℕ) :
    ∀ {search : Search} {low high : Evaluation}, search.limits = limits →
      limits.step.raw ∣ low.q → limits.step.raw ∣ high.q → low.q ≤ high.q →
      GridLog limits.step.raw (low.q + 1) high.q (search.intervalLog fuel low high) := by
  have hstep : 0 < limits.step.raw := by have := hl.2.1; omega
  induction fuel with
  | zero => exact fun _ _ _ _ => .nil
  | succ fuel ih =>
    intro search low high hlimits hlow hhigh hle
    simp only [intervalLog, hlimits]
    by_cases hnarrow : high.q - low.q ≤ limits.step.raw
    · rw [if_pos hnarrow]
      exact .nil
    rw [if_neg hnarrow]
    generalize (if search.slope ≥ 0 then high.upper else low.upper) = upper
    by_cases hprune : search.prunable low upper = true
    · rw [if_pos hprune]
      exact .nil
    rw [if_neg hprune]
    obtain ⟨-, hmidlow, hmidhigh, hmiddvd, -, -⟩ := halve_spec hstep hlow hhigh hnarrow
    set mid := low.q + (high.q - low.q) / limits.step.raw / 2 * limits.step.raw
    have hrest : GridLog limits.step.raw (low.q + 1) high.q
        ([mid] ++ logAfter (search.evaluate mid) fun a => a.2.intervalLog fuel low a.1 ++
          logAfter (a.2.interval fuel low a.1) fun next => next.intervalLog fuel a.1 high) := by
      cases hmid : search.evaluate mid with
      | error result => exact (GridLog.singleton hmiddvd).mono hmidlow hmidhigh
      | ok a =>
        obtain ⟨hq, hsame⟩ := evaluate_ok hmid
        have hnext : a.2.limits = limits := hsame.limits_eq.trans hlimits
        have hleft := ih hnext hlow (hq ▸ hmiddvd) (by omega)
        have hright : GridLog limits.step.raw (a.1.q + 1) high.q
            (logAfter (a.2.interval fuel low a.1) fun next => next.intervalLog fuel a.1 high) :=
          .after fun next hok => ih ((interval_ok fuel hok).limits_eq.trans hnext)
            (hq ▸ hmiddvd) hhigh (by omega)
        rw [hq] at hleft hright
        have hall := hleft.append ((GridLog.singleton hmiddvd).append hright (by omega) le_rfl
          (by omega)) (by omega) le_rfl (by omega)
        exact hall.perm List.perm_middle
    exact hrest

theorem evaluateHigh_ok {search other : Search} {low value : Evaluation} {first last : ℕ}
    (hlow : low.q = first) (h : search.evaluateHigh low first last = .ok (value, other)) :
    value.q = last ∧ search.SameCursors other := by
  unfold evaluateHigh at h
  by_cases hone : last = first
  · rw [if_pos hone] at h
    simp only [Except.ok.injEq, Prod.mk.injEq] at h
    obtain ⟨rfl, rfl⟩ := h
    exact ⟨hlow.trans hone.symm, .refl search⟩
  · rw [if_neg hone] at h
    exact evaluate_ok h

theorem stretch_ok {search other : Search} {first last : ℕ}
    (h : search.stretch first last = .ok other) :
    other.limits = search.limits ∧ other.cursors = search.cursors := by
  obtain ⟨⟨low, s1⟩, hlow, h⟩ := bind_eq_ok h
  obtain ⟨⟨high, s2⟩, hhigh, h⟩ := bind_eq_ok h
  obtain ⟨hq, hsame1⟩ := evaluate_ok hlow
  have hsame := (hsame1.trans (evaluateHigh_ok hq hhigh).2).trans (interval_ok _ h)
  exact ⟨hsame.limits_eq, hsame.cursors_eq⟩

/-- A stretch asks for its ends and the quantities between. -/
theorem stretchLog_grid (hl : limits.Valid) {search : Search} (hlimits : search.limits = limits)
    {first last : ℕ} (hfirst : limits.step.raw ∣ first) (hlast : limits.step.raw ∣ last)
    (hle : first ≤ last) :
    GridLog limits.step.raw first (last + 1) (search.stretchLog first last) := by
  have hone : GridLog limits.step.raw first (first + 1) [first] := .singleton hfirst
  refine hone.append (.after fun a hlow => ?_) (by omega) le_rfl (by omega)
  obtain ⟨hlowq, hsame⟩ := evaluate_ok hlow
  have hinside : GridLog limits.step.raw (first + 1) last
      (logAfter (a.2.evaluateHigh a.1 first last) fun b =>
        b.2.intervalLog ((b.1.q - a.1.q) / b.2.limits.step.raw + 1) a.1 b.1) := by
    refine .after fun b hhigh => ?_
    obtain ⟨hhighq, hsame'⟩ := evaluateHigh_ok hlowq hhigh
    generalize (b.1.q - a.1.q) / b.2.limits.step.raw + 1 = fuel
    have hgrid := intervalLog_grid hl fuel ((hsame'.limits_eq.trans hsame.limits_eq).trans hlimits)
      (hlowq.symm ▸ hfirst) (hhighq.symm ▸ hlast) (by omega)
    rwa [hlowq, hhighq] at hgrid
  by_cases heq : last = first
  · rw [if_pos heq]
    exact hinside.mono le_rfl (by omega)
  · rw [if_neg heq]
    exact (hinside.append (.singleton hlast) (by omega) le_rfl (by omega)).perm
      List.perm_append_comm

/-- **The loop asks for each grid quantity at most once**, from the start of a stretch on: the
stretches are disjoint. -/
theorem loopLog_grid (hl : limits.Valid) (hd : ∀ leg, (depth leg).Valid) (fuel : ℕ) :
    ∀ {search : Search} {first : ℕ}, search.Tracks depth limits → search.AtFirst limits first →
      GridLog limits.step.raw first (limits.gridCap + 1) (search.loopLog fuel first) := by
  induction fuel with
  | zero => exact fun _ _ => .nil
  | succ fuel ih =>
    intro search first ht hfirst
    simp only [loopLog, ht.limits_eq, ← SizingLimits.gridCap.eq_def limits]
    by_cases hcap : limits.gridCap < first
    · rw [if_pos hcap]
      exact .nil
    rw [if_neg hcap]
    obtain ⟨htracks, -, -, -, -⟩ := search.seek_spec hl ht
    by_cases hfound : search.seek.2 = true
    swap
    · rw [if_pos (by simpa using hfound)]
      exact .nil
    rw [if_neg (by simpa using hfound)]
    have hon := search.seek_onStretch hl ht hfirst (not_lt.mp hcap) hfound
    set sought := search.seek.1
    set stop := min limits.gridCap (min (sought.cursors 0).stop (sought.cursors 1).stop)
    obtain ⟨hlastdvd, hlastle, -, -, -⟩ :=
      sought.lastFunded_spec hl htracks.limits_eq hfirst.dvd hfirst.pos hon.dvd hon.first_le
    set last := sought.lastFunded first stop
    by_cases hnone : last < first
    · rw [if_pos hnone]
      exact .nil
    rw [if_neg hnone]
    have hstretch := stretchLog_grid hl htracks.limits_eq hfirst.dvd hlastdvd (not_lt.mp hnone)
    have hrest : GridLog limits.step.raw (stop + limits.step.raw) (limits.gridCap + 1)
        (logAfter (sought.stretch first last) fun next =>
          if last < stop ∨ stop = limits.gridCap then []
          else logAfter (next.advance stop) fun other =>
            other.loopLog fuel (stop + limits.step.raw)) := by
      refine .after fun next hnext => ?_
      by_cases hend : last < stop ∨ stop = limits.gridCap
      · rw [if_pos hend]
        exact .nil
      rw [if_neg hend]
      refine .after fun other hother => ?_
      obtain ⟨hlimits, hcursors⟩ := stretch_ok hnext
      have htnext : next.Tracks depth limits :=
        ⟨hlimits.trans htracks.limits_eq, hcursors ▸ htracks.follows⟩
      obtain ⟨other', hother', htother, -, hfirstother, -⟩ :=
        (hon.congr hcursors).advance hl hd htnext (by have := hon.le_cap; omega)
      obtain rfl := Except.ok.inj (hother'.symm.trans hother)
      exact ih htother hfirstother
    have hstep : 0 < limits.step.raw := by have := hl.2.1; omega
    have hfirstle := hon.first_le
    have hstople := hon.le_cap
    exact hstretch.append hrest (by omega) (by omega) (by omega)

/-- **Each grid quantity is asked for at most once.** -/
theorem sizingLog_grid (depth : Fin 2 → BuyDepth) (limits : SizingLimits) :
    GridLog limits.step.raw limits.step.raw (limits.gridCap + 1) (sizingLog depth limits) := by
  unfold sizingLog
  by_cases hvalid : limits.Valid ∧ (depth 0).Valid ∧ (depth 1).Valid
  swap
  · rw [if_neg hvalid]
    exact .nil
  rw [if_pos hvalid]
  obtain ⟨hl, hd0, hd1⟩ := hvalid
  have hd : ∀ leg, (depth leg).Valid := Fin.forall_fin_two.mpr ⟨hd0, hd1⟩
  set search : Search :=
    { limits, cursors := ![.start (depth 0) limits, .start (depth 1) limits] } with hsearch
  obtain ⟨ht, -, hfirst⟩ := start_spec hl hd hsearch
  have htracks := (search.seek_spec hl ht).1
  simp only [runLog]
  split
  · exact .nil
  split
  · exact .nil
  · rw [htracks.limits_eq]
    exact loopLog_grid hl hd _ htracks hfirst

end Search

/-! ### Two budgets -/

/-- The limits with another budget. -/
def SizingLimits.withBudget (limits : SizingLimits) (budget : ℕ) : SizingLimits :=
  { limits with maxEvaluations := budget }

/-- The budget ran out, and there is no quote. -/
def SizingResult.CutShort (result : SizingResult) : Prop :=
  result.status = .searchBudgetExceeded ∧ result.quote = none

/-- The first computation is cut short, or both end alike. -/
def Extends {α β : Type} (R : α → β → Prop) :
    Except SizingResult α → Except SizingResult β → Prop
  | .error result, x => result.CutShort ∨ x = .error result
  | .ok a, x => ∃ b, x = .ok b ∧ R a b

theorem Extends.bind {α α' β β' : Type} {R : α → β → Prop} {S : α' → β' → Prop}
    {x : Except SizingResult α} {y : Except SizingResult β} {f : α → Except SizingResult α'}
    {g : β → Except SizingResult β'} (h : Extends R x y)
    (hf : ∀ a b, R a b → Extends S (f a) (g b)) : Extends S (x >>= f) (y >>= g) := by
  cases x with
  | error result => exact h.imp_right fun hy => by rw [hy]; rfl
  | ok a =>
    obtain ⟨b, rfl, hab⟩ := h
    exact hf a b hab

namespace Search

/-- The search with another budget. -/
def withBudget (search : Search) (budget : ℕ) : Search :=
  { search with limits := search.limits.withBudget budget }

/-- **The same search with a larger budget.** -/
structure Widened (budget : ℕ) (search other : Search) : Prop where
  le_budget : search.limits.maxEvaluations ≤ budget
  within : search.Within
  other_eq : other = search.withBudget budget

section Widened

variable {budget : ℕ} {search other : Search}

theorem evaluate_extends (h : search.Widened budget other) (q : ℕ) :
    Extends (fun a b => b.1 = a.1 ∧ a.2.Widened budget b.2) (search.evaluate q)
      (other.evaluate q) := by
  obtain ⟨hle, hwithin, rfl⟩ := h
  by_cases hbudget : search.evaluatedQuantities = search.limits.maxEvaluations
  · rw [evaluate, if_pos hbudget]
    exact Or.inl ⟨rfl, rfl⟩
  have hless : search.evaluatedQuantities < search.limits.maxEvaluations :=
    lt_of_le_of_ne hwithin hbudget
  have hbudget' : (search.withBudget budget).evaluatedQuantities ≠
      (search.withBudget budget).limits.maxEvaluations := (hless.trans_le hle).ne
  have hleg (leg : Fin 2) (count : ℕ) :
      evaluateLeg { search with evaluatedQuantities := count } leg q =
        search.evaluateLeg leg q := rfl
  have hleg' (leg : Fin 2) (count : ℕ) :
      evaluateLeg { search.withBudget budget with evaluatedQuantities := count } leg q =
        search.evaluateLeg leg q := rfl
  rw [evaluate, evaluate, if_neg hbudget, if_neg hbudget']
  simp only [hleg, hleg']
  split
  · exact ⟨_, rfl, rfl, hle, hless, rfl⟩
  · exact Or.inr rfl

theorem interval_extends (fuel : ℕ) : ∀ {search other : Search}, search.Widened budget other →
    ∀ low high : Evaluation, Extends (Widened budget) (search.interval fuel low high)
      (other.interval fuel low high) := by
  induction fuel with
  | zero => exact fun h _ _ => ⟨_, rfl, h⟩
  | succ fuel ih =>
    intro search other h low high
    obtain ⟨hle, hwithin, rfl⟩ := h
    have hprunable (upper : ℤ) :
        (search.withBudget budget).prunable low upper = search.prunable low upper := rfl
    simp only [interval, hprunable]
    change Extends _ _ (if high.q - low.q ≤ search.limits.step.raw then _ else
      if search.prunable low (if search.slope ≥ 0 then _ else _) = true then _ else _)
    by_cases hnarrow : high.q - low.q ≤ search.limits.step.raw
    · rw [if_pos hnarrow, if_pos hnarrow]
      exact ⟨_, rfl, hle, hwithin, rfl⟩
    rw [if_neg hnarrow, if_neg hnarrow]
    generalize (if search.slope ≥ 0 then high.upper else low.upper) = upper
    by_cases hprune : search.prunable low upper = true
    · rw [if_pos hprune, if_pos hprune]
      exact ⟨_, rfl, hle, hwithin, rfl⟩
    rw [if_neg hprune, if_neg hprune]
    refine (evaluate_extends ⟨hle, hwithin, rfl⟩ _).bind fun a b hab => ?_
    obtain ⟨value, next⟩ := a
    obtain ⟨value', next'⟩ := b
    obtain ⟨rfl, hnext⟩ := hab
    exact (ih hnext low _).bind fun left left' hleft => ih hleft _ high

theorem evaluateHigh_extends (h : search.Widened budget other) (low : Evaluation)
    (first last : ℕ) :
    Extends (fun a b => b.1 = a.1 ∧ a.2.Widened budget b.2) (search.evaluateHigh low first last)
      (other.evaluateHigh low first last) := by
  unfold evaluateHigh
  split
  · exact ⟨_, rfl, rfl, h⟩
  · exact evaluate_extends h last

theorem stretch_extends (h : search.Widened budget other) (first last : ℕ) :
    Extends (Widened budget) (search.stretch first last) (other.stretch first last) := by
  obtain ⟨hle, hwithin, rfl⟩ := h
  have hstart : Widened budget { search with slope := search.marginSlope }
      { search.withBudget budget with slope := (search.withBudget budget).marginSlope } :=
    ⟨hle, hwithin, rfl⟩
  refine (evaluate_extends hstart first).bind fun a b hab => ?_
  obtain ⟨low, next⟩ := a
  obtain ⟨low', next'⟩ := b
  obtain ⟨rfl, hnext⟩ := hab
  refine (evaluateHigh_extends hnext _ first last).bind fun a b hab => ?_
  obtain ⟨high, last⟩ := a
  obtain ⟨high', last'⟩ := b
  obtain ⟨rfl, hlast⟩ := hab
  dsimp only at hlast ⊢
  have hsteps : last'.limits.step = last.limits.step := by rw [hlast.other_eq]; rfl
  rw [hsteps]
  exact interval_extends _ hlast _ _

theorem passLevel_withBudget (search : Search) (stop : ℕ) (cursor : Cursor) :
    (search.withBudget budget).passLevel stop cursor = search.passLevel stop cursor := rfl

theorem advance_extends (h : search.Widened budget other) (stop : ℕ) :
    Extends (Widened budget) (search.advance stop) (other.advance stop) := by
  obtain ⟨hle, hwithin, rfl⟩ := h
  have hpass (cursor : Cursor) : Extends Eq (search.passLevel stop cursor)
      ((search.withBudget budget).passLevel stop cursor) := by
    rw [passLevel_withBudget]
    cases search.passLevel stop cursor with
    | error result => exact Or.inr rfl
    | ok next => exact ⟨next, rfl, rfl⟩
  refine (hpass (search.cursors 0)).bind fun cursor0 _ h0 => ?_
  obtain rfl := h0
  refine (hpass (search.cursors 1)).bind fun cursor1 _ h1 => ?_
  obtain rfl := h1
  exact ⟨_, rfl, hle, hwithin, rfl⟩

theorem seek_withBudget (search : Search) :
    (search.withBudget budget).seek = (search.seek.1.withBudget budget, search.seek.2) := by
  change seek { search with limits := search.limits.withBudget budget } = _
  unfold seek withBudget
  dsimp only
  split <;> rfl

theorem fundedSteps_withBudget (search : Search) (fuel : ℕ) : ∀ low high : ℕ,
    (search.withBudget budget).fundedSteps fuel low high = search.fundedSteps fuel low high := by
  induction fuel with
  | zero => exact fun _ _ => rfl
  | succ fuel ih =>
    intro low high
    simp only [fundedSteps, ih]
    rfl

theorem lastFunded_withBudget (search : Search) (first stop : ℕ) :
    (search.withBudget budget).lastFunded first stop = search.lastFunded first stop := by
  simp only [lastFunded, fundedSteps_withBudget]
  rfl

theorem loop_extends (fuel : ℕ) : ∀ {search other : Search}, search.Widened budget other →
    ∀ (first : ℕ) (funded : Bool), Extends (fun a b => a.1.Widened budget b.1 ∧ b.2 = a.2)
      (search.loop fuel first funded) (other.loop fuel first funded) := by
  induction fuel with
  | zero => exact fun h _ _ => ⟨_, rfl, h, rfl⟩
  | succ fuel ih =>
    intro search other h first funded
    obtain ⟨hle, hwithin, rfl⟩ := h
    have hsought : search.seek.1.Widened budget (search.seek.1.withBudget budget) := by
      refine ⟨by rwa [search.seek_limits], ?_, rfl⟩
      rwa [Within, search.seek_limits, search.seek_evaluatedQuantities]
    simp only [loop, seek_withBudget, lastFunded_withBudget]
    set sought := search.seek.1
    change Extends _ _ (if search.limits.cap.raw / search.limits.step.raw * search.limits.step.raw <
      first then _ else _)
    set cap := search.limits.cap.raw / search.limits.step.raw * search.limits.step.raw
    by_cases hcap : cap < first
    · rw [if_pos hcap, if_pos hcap]
      exact ⟨_, rfl, ⟨hle, hwithin, rfl⟩, rfl⟩
    rw [if_neg hcap, if_neg hcap]
    split
    · exact ⟨_, rfl, hsought, rfl⟩
    change Extends _ _ (if sought.lastFunded first
      (min cap (min (sought.cursors 0).stop (sought.cursors 1).stop)) < first then _ else _)
    set stop := min cap (min (sought.cursors 0).stop (sought.cursors 1).stop)
    by_cases hnone : sought.lastFunded first stop < first
    · rw [if_pos hnone, if_pos hnone]
      exact ⟨_, rfl, hsought, rfl⟩
    rw [if_neg hnone, if_neg hnone]
    refine (stretch_extends hsought _ _).bind fun next next' hnext => ?_
    change Extends _ _ (if sought.lastFunded first stop < stop ∨ stop = cap then _ else _)
    by_cases hend : sought.lastFunded first stop < stop ∨ stop = cap
    · rw [if_pos hend, if_pos hend]
      exact ⟨_, rfl, hnext, rfl⟩
    rw [if_neg hend, if_neg hend]
    exact (advance_extends hnext stop).bind fun left left' hleft => ih hleft _ true

theorem finish_withBudget (search : Search) (funded : Bool) :
    (search.withBudget budget).finish funded = search.finish funded := by
  unfold finish emptyStatus
  simp only [seek_withBudget]
  rfl

/-- **Two budgets.** A run with the smaller budget is cut short or is the run with the larger. -/
theorem run_extends (h : search.Widened budget other) :
    search.run.CutShort ∨ search.run = other.run := by
  obtain ⟨hle, hwithin, rfl⟩ := h
  have hsought : search.seek.1.Widened budget (search.seek.1.withBudget budget) := by
    refine ⟨by rwa [search.seek_limits], ?_, rfl⟩
    rwa [Within, search.seek_limits, search.seek_evaluatedQuantities]
  simp only [run, seek_withBudget]
  set sought := search.seek.1
  change (if !search.seek.2 then _ else if (sought.cursors 0).price.raw +
    (sought.cursors 1).price.raw ≥ 10000 then _ else _ : SizingResult).CutShort ∨ _ =
      (if !search.seek.2 then _ else if (sought.cursors 0).price.raw +
        (sought.cursors 1).price.raw ≥ 10000 then _ else _ : SizingResult)
  by_cases hfound : (!search.seek.2) = true
  · rw [if_pos hfound, if_pos hfound]
    exact Or.inr rfl
  rw [if_neg hfound, if_neg hfound]
  by_cases hprice : (sought.cursors 0).price.raw + (sought.cursors 1).price.raw ≥ 10000
  · rw [if_pos hprice, if_pos hprice]
    exact Or.inr rfl
  rw [if_neg hprice, if_neg hprice]
  have hloop := loop_extends
    ((sought.cursors 0).levels.length + (sought.cursors 1).levels.length + 1) hsought
    sought.limits.step.raw false
  change Extends _ _ (loop (((sought.withBudget budget).cursors 0).levels.length +
    ((sought.withBudget budget).cursors 1).levels.length + 1) (sought.withBudget budget)
      (sought.withBudget budget).limits.step.raw false) at hloop
  cases hrun : loop ((sought.cursors 0).levels.length + (sought.cursors 1).levels.length + 1)
      sought sought.limits.step.raw false with
  | error result =>
    rw [hrun] at hloop
    rcases hloop with hcut | heq
    · exact Or.inl hcut
    · rw [heq]
      exact Or.inr rfl
  | ok a =>
    rw [hrun] at hloop
    obtain ⟨⟨next', funded'⟩, heq, hnext, hfunded⟩ := hloop
    obtain ⟨next, funded⟩ := a
    dsimp only at hnext hfunded
    rw [heq, hnext.other_eq, hfunded]
    exact Or.inr (next.finish_withBudget funded).symm

end Widened

/-- What a whole search counts, and when it is refused. -/
theorem run_logged {search : Search} (hstart : search.evaluatedQuantities = 0) :
    search.run.evaluatedQuantities ≤ search.limits.maxEvaluations ∧
      (search.run.status = .searchBudgetExceeded →
        search.run.evaluatedQuantities = search.limits.maxEvaluations ∧
          search.run.evaluatedQuantities + 1 = search.runLog.length) ∧
      (search.run.status ≠ .searchBudgetExceeded →
        search.run.evaluatedQuantities = search.runLog.length) := by
  have hwithin : search.seek.1.Within := by
    rw [Within, search.seek_evaluatedQuantities, hstart]
    exact Nat.zero_le _
  have hzero : search.seek.1.evaluatedQuantities = 0 :=
    search.seek_evaluatedQuantities.trans hstart
  rw [← search.seek_limits]
  simp only [run, runLog]
  set sought := search.seek.1
  have hunsearched {status : SizingStatus} (hne : status ≠ .searchBudgetExceeded) :
      (sought.failed status).evaluatedQuantities ≤ sought.limits.maxEvaluations ∧
        ((sought.failed status).status = .searchBudgetExceeded →
          (sought.failed status).evaluatedQuantities = sought.limits.maxEvaluations ∧
            (sought.failed status).evaluatedQuantities + 1 = ([] : List ℕ).length) ∧
        ((sought.failed status).status ≠ .searchBudgetExceeded →
          (sought.failed status).evaluatedQuantities = ([] : List ℕ).length) :=
    ⟨hwithin, fun h => absurd h hne, fun _ => hzero⟩
  split
  · exact hunsearched (by simp)
  split
  · exact hunsearched (by simp)
  have hlog := loop_logged ((sought.cursors 0).levels.length + (sought.cursors 1).levels.length + 1)
    sought sought.limits.step.raw false
  cases hrun : loop ((sought.cursors 0).levels.length + (sought.cursors 1).levels.length + 1)
      sought sought.limits.step.raw false with
  | error result =>
    rw [hrun] at hlog
    obtain ⟨hle, hexceeded, hother⟩ := hlog
    rw [hzero, Nat.zero_add] at hexceeded hother
    exact ⟨hle hwithin, hexceeded, hother⟩
  | ok a =>
    obtain ⟨next, funded⟩ := a
    rw [hrun] at hlog
    obtain ⟨hlimits, hcount, hstay⟩ := hlog
    rw [hzero, Nat.zero_add] at hcount
    have hfinish : (next.finish funded).evaluatedQuantities = next.evaluatedQuantities := by
      unfold finish
      split <;> rfl
    refine ⟨?_, fun h => absurd h (next.finish_status funded).1, fun _ => hfinish.trans hcount⟩
    dsimp only at hlimits
    have := hstay hwithin
    rw [Within, hlimits] at this
    exact hfinish.trans_le this

end Search

/-- What the sizing counts, and when it is refused. -/
theorem sizeBuyPair_logged (depth : Fin 2 → BuyDepth) (limits : SizingLimits) :
    (sizeBuyPair depth limits).evaluatedQuantities ≤ limits.maxEvaluations ∧
      ((sizeBuyPair depth limits).status = .searchBudgetExceeded →
        (sizeBuyPair depth limits).evaluatedQuantities = limits.maxEvaluations ∧
          (sizeBuyPair depth limits).evaluatedQuantities + 1 = (sizingLog depth limits).length) ∧
      ((sizeBuyPair depth limits).status ≠ .searchBudgetExceeded →
        (sizeBuyPair depth limits).evaluatedQuantities = (sizingLog depth limits).length) := by
  unfold sizeBuyPair sizingLog
  split
  · exact Search.run_logged rfl
  · exact ⟨Nat.zero_le _, fun h => by simp at h, fun _ => rfl⟩

/-- **The counter counts the evaluated quantities.** -/
theorem sizeBuyPair_evaluatedLog (depth : Fin 2 → BuyDepth) (limits : SizingLimits) :
    (sizeBuyPair depth limits).evaluatedQuantities = (evaluatedLog depth limits).length := by
  obtain ⟨hle, hexceeded, hother⟩ := sizeBuyPair_logged depth limits
  rw [evaluatedLog, List.length_take]
  by_cases h : (sizeBuyPair depth limits).status = .searchBudgetExceeded
  · have := hexceeded h
    omega
  · have := hother h
    omega

/-- **The search budget.** No grid quantity is evaluated twice, so the count is within the budget
and within the number of grid quantities; a budget of that number is never exceeded; and a larger
budget only changes a result that was cut short for want of budget, without a quote. -/
theorem sizeBuyPair_budget {depth : Fin 2 → BuyDepth} {limits : SizingLimits}
    (hl : limits.Valid) (hd : ∀ leg, (depth leg).Valid) :
    (sizeBuyPair depth limits).evaluatedQuantities = (evaluatedLog depth limits).length ∧
      (evaluatedLog depth limits).Nodup ∧
      (∀ q ∈ evaluatedLog depth limits, 0 < q ∧ limits.step.raw ∣ q ∧ q ≤ limits.cap.raw) ∧
      (sizeBuyPair depth limits).evaluatedQuantities ≤
        min limits.maxEvaluations (limits.cap.raw / limits.step.raw) ∧
      (limits.cap.raw / limits.step.raw ≤ limits.maxEvaluations →
        (sizeBuyPair depth limits).status ≠ .searchBudgetExceeded) ∧
      ∀ budget, limits.maxEvaluations ≤ budget →
        ((sizeBuyPair depth limits).status = .searchBudgetExceeded ∧
          (sizeBuyPair depth limits).quote = none) ∨
        sizeBuyPair depth limits = sizeBuyPair depth (limits.withBudget budget) := by
  have hstep : 0 < limits.step.raw := by have := hl.2.1; omega
  obtain ⟨hle, hexceeded, hother⟩ := sizeBuyPair_logged depth limits
  have hgrid := Search.sizingLog_grid depth limits
  have hlength : (sizingLog depth limits).length ≤ limits.cap.raw / limits.step.raw := by
    have := hgrid.length_le hstep hstep
    rwa [Nat.add_sub_cancel, SizingLimits.gridCap, Nat.mul_div_cancel _ hstep] at this
  have hmem {q : ℕ} (hq : q ∈ evaluatedLog depth limits) : q ∈ sizingLog depth limits :=
    List.mem_of_mem_take hq
  refine ⟨sizeBuyPair_evaluatedLog depth limits, hgrid.nodup.sublist (List.take_sublist _ _),
    fun q hq => ⟨hstep.trans_le (hgrid.low_le q (hmem hq)), hgrid.dvd q (hmem hq), ?_⟩, ?_, ?_, ?_⟩
  · exact (Nat.le_of_lt_succ (hgrid.lt_high q (hmem hq))).trans limits.gridCap_le
  · by_cases h : (sizeBuyPair depth limits).status = .searchBudgetExceeded
    · have := hexceeded h
      omega
    · have := hother h
      omega
  · intro hbudget h
    have := hexceeded h
    omega
  · intro budget hbudget
    have hvalid : (limits.withBudget budget).Valid := by
      obtain ⟨hcap, hstep', hstepcap, havailable, hminimum, hpos⟩ := hl
      exact ⟨hcap, hstep', hstepcap, havailable, hminimum,
        ((Nat.pos_of_ne_zero hpos).trans_le hbudget).ne'⟩
    rw [sizeBuyPair, sizeBuyPair, if_pos ⟨hl, hd 0, hd 1⟩, if_pos ⟨hvalid, hd 0, hd 1⟩]
    exact Search.run_extends ⟨hbudget, Nat.zero_le _, rfl⟩

/-- On the sample ladders a budget of three is not exceeded, and more changes nothing. -/
theorem sizeBuyPair_budget_sample :
    (sizeBuyPair sampleDepth (sampleLimits.withBudget 3)).status ≠ .searchBudgetExceeded ∧
      sizeBuyPair sampleDepth (sampleLimits.withBudget 3) =
        sizeBuyPair sampleDepth sampleLimits := by
  have hlimits : (sampleLimits.withBudget 3).Valid := by decide
  have hdepth : ∀ leg, (sampleDepth leg).Valid := by decide
  obtain ⟨-, -, -, -, henough, hmono⟩ := sizeBuyPair_budget hlimits hdepth
  have hstatus := henough (by decide)
  exact ⟨hstatus, (hmono 10 (by decide)).resolve_left fun h => hstatus h.1⟩

end EventMarket.Core
