import EventMarket.Core.QueueDominance
import Mathlib.Algebra.BigOperators.Group.Multiset.Basic

/-!
# The reconciliation of trades and reductions

A depletion of a level is reported twice, as a trade and as a reduction of the displayed quantity,
in either order. An account of the single units shows that each unit of a reduction is matched with
one unit of a trade, is pending, or expired; so a depletion never counts twice.

## Main definitions

* `units`, `PassiveQueue.takenUnits`: the units of pending changes, and those that are matched.
* `QueueAccount`, `QueueAccount.apply`, `account`: a run with the account of its units.
* `Chronological`: events in the order of their times.

## Main results

* `PassiveQueue.trade_depth_comm`: a trade and a depth change at one time commute.
* `account_reconciles`: the account of every run.
-/

namespace EventMarket.Core

/-- The units of some changes, each with its time. -/
def units (changes : List QueueChange) : Multiset ℤ :=
  (changes.map fun change => Multiset.replicate change.quantity.toNat change.time).sum

@[simp] theorem units_nil : units [] = 0 := rfl

@[simp] theorem units_cons (change : QueueChange) (changes : List QueueChange) :
    units (change :: changes) =
      Multiset.replicate change.quantity.toNat change.time + units changes := by
  simp [units]

@[simp] theorem units_append (changes more : List QueueChange) :
    units (changes ++ more) = units changes + units more := by
  simp [units]

attribute [ext] PassiveQueue

namespace PassiveQueue

/-! ### Matching units -/

/-- The units of pending changes that a quantity is matched with. -/
def takenUnits : List QueueChange → ℤ → Multiset ℤ
  | [], _ => 0
  | change :: changes, quantity =>
    if quantity ≤ 0 then 0
    else
      let used := min quantity change.quantity
      Multiset.replicate used.toNat change.time +
        if change.quantity - used = 0 then takenUnits changes (quantity - used) else 0

/-- Every unit that was pending is matched or still pending. -/
theorem units_matchChanges {changes : List QueueChange} (h : Positive changes) (quantity : ℤ) :
    units changes = takenUnits changes quantity + units (matchChanges changes quantity).1 := by
  induction changes generalizing quantity with
  | nil => rfl
  | cons change changes ih =>
    obtain ⟨hchange, hchanges⟩ := List.forall_mem_cons.mp h
    unfold takenUnits matchChanges
    dsimp only
    split_ifs with hdone hwhole
    · rw [zero_add]
    · have hused : min quantity change.quantity = change.quantity := by omega
      rw [units_cons, ih hchanges, hused, add_assoc]
    · have hsplit : change.quantity.toNat = (min quantity change.quantity).toNat +
          (change.quantity - min quantity change.quantity).toNat := by omega
      rw [units_cons, units_cons, add_zero, hsplit, Multiset.replicate_add, add_assoc]

/-- As many units are matched as the quantity loses. -/
theorem card_takenUnits {changes : List QueueChange} (h : Positive changes) {quantity : ℤ}
    (hquantity : 0 ≤ quantity) :
    ((takenUnits changes quantity).card : ℤ) = quantity - (matchChanges changes quantity).2 := by
  induction changes generalizing quantity with
  | nil => simp [takenUnits, matchChanges]
  | cons change changes ih =>
    obtain ⟨hchange, hchanges⟩ := List.forall_mem_cons.mp h
    unfold takenUnits matchChanges
    dsimp only
    split_ifs with hdone hwhole
    · simp
    · rw [Multiset.card_add, Multiset.card_replicate, Nat.cast_add, ih hchanges (by omega)]
      omega
    · rw [Multiset.card_add, Multiset.card_replicate, Multiset.card_zero]
      omega

theorem mem_takenUnits {changes : List QueueChange} {quantity time : ℤ}
    (h : time ∈ takenUnits changes quantity) : ∃ change ∈ changes, change.time = time := by
  induction changes generalizing quantity with
  | nil => exact absurd h (Multiset.notMem_zero time)
  | cons change changes ih =>
    unfold takenUnits at h
    dsimp only at h
    split_ifs at h with hdone hwhole
    · exact absurd h (Multiset.notMem_zero time)
    · rcases Multiset.mem_add.mp h with hhere | hlater
      · exact ⟨change, List.mem_cons_self, (Multiset.eq_of_mem_replicate hhere).symm⟩
      · obtain ⟨other, hother, htime⟩ := ih hlater
        exact ⟨other, List.mem_cons_of_mem _ hother, htime⟩
    · rw [add_zero] at h
      exact ⟨change, List.mem_cons_self, (Multiset.eq_of_mem_replicate h).symm⟩

/-- A quantity is used up, or everything that was pending is. -/
theorem matchChanges_exhausts {changes : List QueueChange} (h : Positive changes) {quantity : ℤ}
    (hquantity : 0 ≤ quantity) :
    (matchChanges changes quantity).2 = 0 ∨ (matchChanges changes quantity).1 = [] := by
  induction changes generalizing quantity with
  | nil => exact Or.inr rfl
  | cons change changes ih =>
    obtain ⟨hchange, hchanges⟩ := List.forall_mem_cons.mp h
    unfold matchChanges
    dsimp only
    split_ifs with hdone hwhole
    · exact Or.inl (by dsimp only; omega)
    · exact ih hchanges (by omega)
    · exact Or.inl (by dsimp only; omega)

theorem matchChanges_zero (changes : List QueueChange) : matchChanges changes 0 = (changes, 0) := by
  cases changes with
  | nil => rfl
  | cons change changes => rw [matchChanges, if_pos le_rfl]

/-- Changes are matched from the front. -/
theorem matchChanges_append {changes : List QueueChange} (h : Positive changes)
    (more : List QueueChange) {quantity : ℤ} (hquantity : 0 ≤ quantity) :
    matchChanges (changes ++ more) quantity =
      ((matchChanges changes quantity).1 ++
        (matchChanges more (matchChanges changes quantity).2).1,
        (matchChanges more (matchChanges changes quantity).2).2) := by
  induction changes generalizing quantity with
  | nil => rfl
  | cons change changes ih =>
    obtain ⟨hchange, hchanges⟩ := List.forall_mem_cons.mp h
    rw [List.cons_append, matchChanges, matchChanges]
    dsimp only
    split_ifs with hdone hwhole
    · have hzero : quantity = 0 := by omega
      simp [hzero, matchChanges_zero]
    · rw [ih hchanges (by omega)]
    · have hzero : quantity - min quantity change.quantity = 0 := by omega
      simp [hzero, matchChanges_zero]

theorem append_zero (changes : List QueueChange) (time : ℤ) :
    append changes time 0 = some changes := by
  rw [append, if_pos rfl]

theorem append_nil {time quantity : ℤ} (h : quantity ≠ 0) :
    append [] time quantity = some [⟨time, quantity⟩] := by
  rw [append, if_neg h, if_neg (by simp)]
  rfl

theorem append_of_ne {changes next : List QueueChange} {time quantity : ℤ} (hne : quantity ≠ 0)
    (h : append changes time quantity = some next) : next = changes ++ [⟨time, quantity⟩] := by
  rw [append, if_neg hne] at h
  split_ifs at h
  exact (Option.some.inj h).symm

/-! ### Both orders -/

/-- One side with pending changes meets a new quantity, whose rest becomes pending on the other
side; then the other side meets one of its own. -/
theorem meet_comm {changes : List QueueChange} (h : Positive changes) {time quantity other : ℤ}
    (hquantity : 0 ≤ quantity) (hother : 0 ≤ other)
      {credits left pending credits' : List QueueChange}
    (hcredits : append [] time (matchChanges changes quantity).2 = some credits)
    (hleft : append (matchChanges changes quantity).1 time (matchChanges credits other).2 =
      some left)
    (hpending : append changes time other = some pending)
    (hcredits' : append [] time (matchChanges pending quantity).2 = some credits') :
    left = (matchChanges pending quantity).1 ∧ (matchChanges credits other).1 = credits' := by
  rcases eq_or_ne other 0 with rfl | hsome
  · rw [append_zero] at hpending
    obtain rfl := Option.some.inj hpending
    obtain rfl := Option.some.inj (hcredits.symm.trans hcredits')
    rw [matchChanges_zero, append_zero] at hleft
    exact ⟨(Option.some.inj hleft).symm, by rw [matchChanges_zero]⟩
  obtain rfl := append_of_ne hsome hpending
  rw [matchChanges_append h _ hquantity] at hcredits' ⊢
  dsimp only at hcredits' ⊢
  have hnonneg := matchChanges_nonneg h hquantity
  rcases eq_or_ne (matchChanges changes quantity).2 0 with hdone | hrest
  · -- The quantity is used up by what was pending before.
    rw [hdone, append_zero] at hcredits
    rw [hdone, matchChanges_zero] at hcredits' ⊢
    rw [append_zero] at hcredits'
    obtain rfl := Option.some.inj hcredits
    obtain rfl := Option.some.inj hcredits'
    exact ⟨append_of_ne hsome hleft, rfl⟩
  · -- Everything that was pending before is used up, and the rests meet.
    have hempty := (matchChanges_exhausts h hquantity).resolve_left hrest
    generalize (matchChanges changes quantity).2 = rest at *
    rw [append_nil hrest] at hcredits
    obtain rfl := Option.some.inj hcredits
    rw [hempty] at hleft ⊢
    have hmeet (quantity other : ℤ) (hquantity : 0 < quantity) :
        matchChanges [⟨time, other⟩] quantity =
          if other ≤ quantity then ([], quantity - other) else ([⟨time, other - quantity⟩], 0) := by
      rw [matchChanges, if_neg (by omega)]
      dsimp only
      split_ifs with hwhole hle hle
      · rw [matchChanges, min_eq_right hle]
      · omega
      · omega
      · rw [min_eq_left (by omega), sub_self]
    rw [hmeet other rest (by omega)] at hleft ⊢
    rw [hmeet rest other (by omega)] at hcredits' ⊢
    rw [List.nil_append]
    rcases lt_trichotomy rest other with hlt | rfl | hgt
    · rw [if_pos hlt.le, append_nil (by omega)] at hleft
      rw [if_neg (by omega), append_zero] at hcredits'
      rw [if_pos hlt.le, if_neg (by omega)]
      exact ⟨(Option.some.inj hleft).symm, Option.some.inj hcredits'⟩
    · rw [if_pos le_rfl, sub_self, append_zero] at hleft hcredits'
      rw [if_pos le_rfl]
      exact ⟨(Option.some.inj hleft).symm, Option.some.inj hcredits'⟩
    · rw [if_neg (by omega), append_zero] at hleft
      rw [if_pos hgt.le, append_nil (by omega)] at hcredits'
      rw [if_pos hgt.le, if_neg (by omega)]
      exact ⟨(Option.some.inj hleft).symm, Option.some.inj hcredits'⟩

/-- The times of pending changes. -/
def times (changes : List QueueChange) : List ℤ := changes.map QueueChange.time

theorem times_dropWhile (changes : List QueueChange) (condition : QueueChange → Bool) :
    (times (changes.dropWhile condition)).Sublist (times changes) :=
  (List.dropWhile_sublist condition).map _

theorem times_matchChanges (changes : List QueueChange) (quantity : ℤ) :
    (times (matchChanges changes quantity).1).Sublist (times changes) := by
  induction changes generalizing quantity with
  | nil => exact List.Sublist.refl _
  | cons change changes ih =>
    unfold matchChanges
    dsimp only
    split_ifs
    · exact List.Sublist.refl _
    · exact (ih _).cons _
    · exact List.Sublist.refl _

/-- All changes of a side are within the window. -/
def Fresh (window time : ℤ) (changes : List QueueChange) : Prop :=
  ∀ earlier ∈ times changes, time - earlier ≤ window

theorem Fresh.matchChanges {window time : ℤ} {changes : List QueueChange}
    (h : Fresh window time changes) (quantity : ℤ) :
    Fresh window time (matchChanges changes quantity).1 :=
  fun earlier hearlier => h earlier ((times_matchChanges changes quantity).subset hearlier)

theorem Fresh.append {window time quantity : ℤ} {changes next : List QueueChange}
    (h : Fresh window time changes) (hwindow : 0 ≤ window)
    (hnext : append changes time quantity = some next) : Fresh window time next := by
  rcases eq_or_ne quantity 0 with rfl | hne
  · rw [append_zero] at hnext
    exact Option.some.inj hnext ▸ h
  · unfold Fresh
    rw [append_of_ne hne hnext, times, List.map_append]
    exact List.forall_mem_append.mpr
      ⟨h, List.forall_mem_singleton.mpr (by simpa using hwindow)⟩

theorem Fresh.dropWhile {window time : ℤ} {changes : List QueueChange}
    (h : Fresh window time changes) : changes.dropWhile (outdated window time) = changes := by
  cases changes with
  | nil => rfl
  | cons change changes =>
    have hfirst : time - change.time ≤ window := h change.time List.mem_cons_self
    exact List.dropWhile_cons_of_neg (by simpa [outdated] using hfirst)

/-- Time passes without effect while everything is within the window. -/
theorem advance_of_fresh {queue : PassiveQueue} {time : ℤ}
    (hreductions : Fresh queue.window time queue.reductions)
    (hcredits : Fresh queue.window time queue.credits) : queue.advance time = queue := by
  have hahead : (expireReductions queue.favorable queue.window time queue.ahead
      queue.reductions).1 = queue.ahead := by
    cases hchanges : queue.reductions with
    | nil => rfl
    | cons change changes =>
      have hfirst : time - change.time ≤ queue.window :=
        hreductions change.time (by rw [hchanges]; exact List.mem_cons_self)
      rw [expireReductions, if_neg (by simpa [outdated] using hfirst)]
  unfold advance
  dsimp only
  rw [expireReductions_snd, hreductions.dropWhile, hcredits.dropWhile, hahead]

/-- A side of pending changes up to some time: in order, and none is empty. -/
structure Settled (time : ℤ) (changes : List QueueChange) : Prop where
  positive : Positive changes
  ordered : (times changes).Pairwise (· ≤ ·)
  past : ∀ earlier ∈ times changes, earlier ≤ time

namespace Settled

variable {time later : ℤ} {changes next : List QueueChange}

theorem nil : Settled time [] := ⟨nofun, List.Pairwise.nil, nofun⟩

theorem mono (h : Settled time changes) (hle : time ≤ later) : Settled later changes :=
  ⟨h.positive, h.ordered, fun earlier hearlier => (h.past earlier hearlier).trans hle⟩

theorem sublist (h : Settled time changes) (hpositive : Positive next)
    (hsub : (times next).Sublist (times changes)) : Settled time next :=
  ⟨hpositive, h.ordered.sublist hsub, fun earlier hearlier => h.past earlier (hsub.subset hearlier)⟩

theorem dropWhile (h : Settled time changes) (condition : QueueChange → Bool) :
    Settled time (changes.dropWhile condition) :=
  h.sublist (h.positive.dropWhile condition) (times_dropWhile changes condition)

theorem matchChanges (h : Settled time changes) (quantity : ℤ) :
    Settled time (matchChanges changes quantity).1 :=
  h.sublist (positive_matchChanges h.positive quantity) (times_matchChanges changes quantity)

theorem append (h : Settled time changes) {quantity : ℤ} (hquantity : 0 ≤ quantity)
    (hnext : append changes time quantity = some next) : Settled time next := by
  rcases eq_or_ne quantity 0 with rfl | hne
  · rw [append_zero] at hnext
    exact Option.some.inj hnext ▸ h
  · refine ⟨positive_append h.positive hquantity hnext, ?_, ?_⟩ <;>
      rw [append_of_ne hne hnext, times, List.map_append]
    · exact List.pairwise_append.mpr ⟨h.ordered, List.pairwise_singleton _ _,
        fun earlier hearlier =>
        List.forall_mem_singleton.mpr (h.past earlier hearlier)⟩
    · exact List.forall_mem_append.mpr ⟨h.past, List.forall_mem_singleton.mpr le_rfl⟩

/-- In order, everything behind the first change that is kept is kept. -/
theorem fresh_dropWhile {window : ℤ} (h : Settled later changes) :
    Fresh window time (changes.dropWhile (outdated window time)) := by
  have hordered := h.ordered
  clear h
  induction changes with
  | nil => exact nofun
  | cons first changes ih =>
    obtain ⟨hfirst, hchanges⟩ := List.pairwise_cons.mp hordered
    by_cases hold : outdated window time first = true
    · rw [List.dropWhile_cons_of_pos hold]
      exact ih hchanges
    · rw [List.dropWhile_cons_of_neg hold]
      have hkept : time - first.time ≤ window := by simpa [outdated] using hold
      refine List.forall_mem_cons.mpr ⟨hkept, fun earlier hearlier => ?_⟩
      have hle := hfirst earlier hearlier
      omega

end Settled

/-- Both sides are settled, and one of them is empty. -/
structure Reconciled (time : ℤ) (queue : PassiveQueue) : Prop where
  reductions : Settled time queue.reductions
  credits : Settled time queue.credits
  exclusive : queue.reductions = [] ∨ queue.credits = []

namespace Reconciled

variable {time later : ℤ} {queue next : PassiveQueue}

theorem mono (h : Reconciled time queue) (hle : time ≤ later) : Reconciled later queue :=
  ⟨h.reductions.mono hle, h.credits.mono hle, h.exclusive⟩

theorem advance (h : Reconciled time queue) : Reconciled time (queue.advance time) := by
  refine ⟨?_, h.credits.dropWhile _, ?_⟩
  · rw [advance_reductions]
    exact h.reductions.dropWhile _
  · rw [advance_reductions, advance_credits]
    exact h.exclusive.imp (fun hnil => by rw [hnil]; rfl) fun hnil => by rw [hnil]; rfl

theorem fresh_reductions (h : Reconciled time queue) :
    Fresh queue.window time (queue.advance time).reductions := by
  rw [advance_reductions]
  exact h.reductions.fresh_dropWhile

theorem fresh_credits (h : Reconciled time queue) :
    Fresh queue.window time (queue.advance time).credits :=
  h.credits.fresh_dropWhile

/-- One side meets a quantity, and the rest becomes pending on the other side. -/
theorem meet {changes other left : List QueueChange} (hchanges : Settled time changes)
    (hother : Settled time other) (hexclusive : changes = [] ∨ other = []) {quantity : ℤ}
    (hquantity : 0 ≤ quantity)
    (hleft : append other time (matchChanges changes quantity).2 = some left) :
    Settled time (matchChanges changes quantity).1 ∧ Settled time left ∧
      ((matchChanges changes quantity).1 = [] ∨ left = []) := by
  refine ⟨hchanges.matchChanges quantity,
    hother.append (matchChanges_nonneg hchanges.positive hquantity) hleft, ?_⟩
  rcases matchChanges_exhausts hchanges.positive hquantity with hdone | hempty
  · rw [hdone, append_zero] at hleft
    rcases hexclusive with rfl | rfl
    · exact Or.inl rfl
    · exact Or.inr (Option.some.inj hleft).symm
  · exact Or.inl hempty

theorem depth (h : Reconciled time queue) {displayed : ℤ}
    (hnext : queue.depth time displayed = some next) : Reconciled time next := by
  obtain ⟨-, -, -, -, hcredits, hreductions⟩ := depth_spec hnext
  obtain ⟨hmatched, hleft, hexclusive⟩ := meet h.advance.credits h.advance.reductions
    h.advance.exclusive.symm (le_max_left _ _) hreductions
  exact ⟨hleft, hcredits ▸ hmatched, hcredits ▸ hexclusive.symm⟩

theorem trade (h : Reconciled time queue) {quantity remaining fill : ℤ} (hquantity : 0 ≤ quantity)
    (hnext : queue.trade time quantity remaining = some (next, fill)) : Reconciled time next := by
  obtain ⟨-, -, -, -, -, hreductions, hcredits⟩ := trade_spec hnext
  obtain ⟨hmatched, hleft, hexclusive⟩ := meet h.advance.reductions h.advance.credits
    h.advance.exclusive hquantity hcredits
  exact ⟨hreductions ▸ hmatched, hleft, hreductions ▸ hexclusive⟩

/-- **A trade and a depth change at one time commute**, when neither order exceeds the history. -/
theorem trade_depth_comm (h : Reconciled time queue) (hwindow : 0 ≤ queue.window)
    {quantity remaining displayed fill fill' : ℤ} (hquantity : 0 ≤ quantity)
    {traded reduced last last' : PassiveQueue}
    (htraded : queue.trade time quantity remaining = some (traded, fill))
    (hlast : traded.depth time displayed = some last)
    (hreduced : queue.depth time displayed = some reduced)
    (hlast' : reduced.trade time quantity remaining = some (last', fill')) :
    last = last' ∧ fill = fill' := by
  have hadvance := h.advance
  obtain ⟨hahead, rfl, hdisplayed, hsame, hfavorable, hmatched, hcredits⟩ := trade_spec htraded
  obtain ⟨hahead', hdisplayed', hsame', hfavorable', hmatched', hreductions⟩ := depth_spec hreduced
  have htradedFresh : traded.advance time = traded := by
    refine advance_of_fresh ?_ ?_ <;> rw [hsame]
    · exact hmatched ▸ h.fresh_reductions.matchChanges quantity
    · exact h.fresh_credits.append hwindow hcredits
  have hreducedFresh : reduced.advance time = reduced := by
    refine advance_of_fresh ?_ ?_ <;> rw [hsame']
    · exact h.fresh_reductions.append hwindow hreductions
    · exact hmatched' ▸ h.fresh_credits.matchChanges _
  obtain ⟨hkept, hshown, hstays, hmode, hleftCredits, hleft⟩ := depth_spec hlast
  obtain ⟨hkept', rfl, hshown', hstays', hmode', hleft', hcredits'⟩ := trade_spec hlast'
  rw [htradedFresh, hdisplayed] at hleftCredits hleft
  rw [htradedFresh] at hkept
  rw [hreducedFresh] at hkept' hleft' hcredits' ⊢
  have hpending : last.reductions = last'.reductions ∧ last.credits = last'.credits := by
    rw [hleftCredits, hleft']
    rw [hmatched] at hleft
    rw [hmatched'] at hcredits'
    rcases hadvance.exclusive with hnil | hnil
    · rw [hnil] at hcredits hreductions hleft
      exact (meet_comm hadvance.credits.positive (le_max_left _ _) hquantity hreductions hcredits'
        hcredits hleft).symm.imp Eq.symm Eq.symm
    · rw [hnil] at hcredits hreductions hcredits'
      exact meet_comm hadvance.reductions.positive hquantity (le_max_left _ _) hcredits hleft
        hreductions hcredits'
  refine ⟨PassiveQueue.ext ?_ ?_ ?_ ?_ hpending.1 hpending.2, by rw [hahead']⟩
  · rw [hkept, hahead, hkept', hahead']
  · rw [hshown, hshown', hdisplayed']
  · rw [hstays, hsame, hstays', hsame']
  · rw [hmode, hfavorable, hmode', hfavorable']

end Reconciled

/-! ### The units of one step -/

/-- The units that are outdated at a time. -/
def outdatedUnits (window time : ℤ) (changes : List QueueChange) : Multiset ℤ :=
  units (changes.takeWhile (outdated window time))

theorem units_dropWhile (window time : ℤ) (changes : List QueueChange) :
    units changes =
      outdatedUnits window time changes + units (changes.dropWhile (outdated window time)) := by
  rw [outdatedUnits, ← units_append, List.takeWhile_append_dropWhile]

/-- The queue falls by at most the units that expire. -/
theorem expireReductions_fall {favorable : Bool} {window time ahead : ℤ}
    {changes : List QueueChange} (h : Positive changes) (hahead : 0 ≤ ahead) :
    ahead - (outdatedUnits window time changes).card ≤
      (expireReductions favorable window time ahead changes).1 := by
  induction changes generalizing ahead with
  | nil => simp [outdatedUnits, expireReductions]
  | cons change changes ih =>
    obtain ⟨hchange, hchanges⟩ := List.forall_mem_cons.mp h
    unfold expireReductions
    split_ifs with hold hfavorable
    · have hrest := ih hchanges (le_max_left 0 (ahead - change.quantity))
      rw [outdatedUnits, List.takeWhile_cons_of_pos hold, units_cons, Multiset.card_add,
        Multiset.card_replicate, ← outdatedUnits]
      omega
    · have hrest := ih hchanges hahead
      rw [outdatedUnits, List.takeWhile_cons_of_pos hold, units_cons, Multiset.card_add,
        Multiset.card_replicate, ← outdatedUnits]
      omega
    · rw [outdatedUnits, List.takeWhile_cons_of_neg hold, units_nil, Multiset.card_zero]
      simp

theorem units_append_rest {changes next : List QueueChange} {time quantity : ℤ}
    (h : append changes time quantity = some next) :
    units next = units changes + Multiset.replicate quantity.toNat time := by
  rcases eq_or_ne quantity 0 with rfl | hne
  · rw [append_zero] at h
    rw [← Option.some.inj h]
    simp
  · rw [append_of_ne hne h, units_append, units_cons, units_nil, add_zero]

/-- **The units of a meeting.** What is matched leaves one side, and the rest of the quantity
becomes pending on the other side. -/
theorem units_meet {changes other left : List QueueChange} (h : Positive changes)
    {time quantity : ℤ} (hquantity : 0 ≤ quantity)
    (hleft : append other time (matchChanges changes quantity).2 = some left) :
    Multiset.replicate quantity.toNat time + units other =
      (takenUnits changes quantity).map (fun _ => time) + units left := by
  have hcard := card_takenUnits h hquantity
  have hnonneg := matchChanges_nonneg h hquantity
  have hsplit : quantity.toNat =
      (takenUnits changes quantity).card + (matchChanges changes quantity).2.toNat := by omega
  rw [units_append_rest hleft, Multiset.map_const', hsplit, Multiset.replicate_add]
  abel

/-- What is matched lies within the window. -/
theorem takenUnits_within {window time quantity : ℤ} {changes : List QueueChange}
    (hsettled : Settled time changes) (hfresh : Fresh window time changes) :
    ∀ earlier ∈ takenUnits changes quantity, |time - earlier| ≤ window := by
  intro earlier hearlier
  obtain ⟨change, hchange, rfl⟩ := mem_takenUnits hearlier
  have hmem : change.time ∈ times changes := List.mem_map_of_mem hchange
  have hpast := hsettled.past _ hmem
  have hwithin := hfresh _ hmem
  rw [abs_of_nonneg (by omega)]
  exact hwithin

end PassiveQueue

/-! ### Accounts -/

open PassiveQueue

/-- A run with the units of all trades and reductions: which were matched with each other, the
reduction first, and which ones expired. -/
structure QueueAccount where
  run : QueueRun
  traded : Multiset ℤ := 0
  reduced : Multiset ℤ := 0
  matched : Multiset (ℤ × ℤ) := 0
  expired : Multiset ℤ := 0
  lapsed : Multiset ℤ := 0

namespace QueueAccount

/-- What is outdated expires. -/
def expire (account : QueueAccount) (time : ℤ) : QueueAccount :=
  let queue := account.run.queue
  { account with
    expired := account.expired + outdatedUnits queue.window time queue.reductions
    lapsed := account.lapsed + outdatedUnits queue.window time queue.credits }

/-- The units of an event. -/
def note (account : QueueAccount) : QueueEvent → QueueAccount
  | .advance time => account.expire time
  | .depth time displayed =>
    let queue := account.run.queue.advance time
    let reduction := max 0 (queue.displayed - displayed)
    { account.expire time with
      reduced := account.reduced + Multiset.replicate reduction.toNat time
      matched := account.matched +
        (takenUnits queue.credits reduction).map fun trade => (time, trade) }
  | .trade time quantity =>
    let queue := account.run.queue.advance time
    { account.expire time with
      traded := account.traded + Multiset.replicate quantity time
      matched := account.matched +
        (takenUnits queue.reductions quantity).map fun reduction => (reduction, time) }

def apply (order : ℕ) (account : QueueAccount) (event : QueueEvent) : Option QueueAccount :=
  (account.run.apply order event).map fun run => { account.note event with run }

end QueueAccount

/-- The account of an order behind a displayed quantity through some events. -/
def account (displayed order : ℕ) (favorable : Bool) (window : ℤ) (events : List QueueEvent) :
    Option QueueAccount :=
  events.foldlM (QueueAccount.apply order) { run := { queue := .start displayed favorable window } }

theorem account_append (displayed order : ℕ) (favorable : Bool) (window : ℤ)
    (events : List QueueEvent) (event : QueueEvent) :
    account displayed order favorable window (events ++ [event]) =
      (account displayed order favorable window events).bind fun ledger =>
        ledger.apply order event := by
  unfold account
  rw [List.foldlM_append]
  cases events.foldlM (QueueAccount.apply order)
      { run := { queue := .start displayed favorable window } } with
  | none => rfl
  | some ledger => exact bind_pure (ledger.apply order event)

/-- The account is one of the run itself. -/
theorem account_run (displayed order : ℕ) (favorable : Bool) (window : ℤ)
    (events : List QueueEvent) :
    (account displayed order favorable window events).map QueueAccount.run =
      replay displayed order favorable window events := by
  induction events using List.reverseRecOn with
  | nil => rfl
  | append_singleton events event ih =>
    rw [account_append, replay_append, ← ih]
    cases account displayed order favorable window events with
    | none => rfl
    | some ledger =>
      rw [Option.bind_some, Option.map_some, Option.bind_some, QueueAccount.apply, Option.map_map]
      exact Option.map_id' ..

/-- The time of an event. -/
def QueueEvent.time : QueueEvent → ℤ
  | .advance time => time
  | .depth time _ => time
  | .trade time _ => time

/-- Events in the order of their times. -/
def Chronological (events : List QueueEvent) : Prop :=
  (events.map QueueEvent.time).Pairwise (· ≤ ·)

instance (events : List QueueEvent) : Decidable (Chronological events) :=
  inferInstanceAs (Decidable (List.Pairwise _ _))

namespace QueueAccount

/-- **The balance of an account** up to some time. -/
structure Balanced (displayed : ℕ) (time : ℤ) (account : QueueAccount) : Prop where
  reconciled : Reconciled time account.run.queue
  ahead : 0 ≤ account.run.queue.ahead
  reduced : account.reduced =
    account.matched.map Prod.fst + units account.run.queue.reductions + account.expired
  traded : account.traded =
    account.matched.map Prod.snd + units account.run.queue.credits + account.lapsed
  within : ∀ pair ∈ account.matched, |pair.1 - pair.2| ≤ account.run.queue.window
  fall : displayed - account.run.queue.ahead ≤
    (account.traded.card : ℤ) + account.expired.card

variable {displayed order : ℕ} {time later : ℤ} {ledger next : QueueAccount}

theorem Balanced.mono (h : ledger.Balanced displayed time) (hle : time ≤ later) :
    ledger.Balanced displayed later :=
  { h with reconciled := h.reconciled.mono hle }

theorem Balanced.start (displayed : ℕ) (favorable : Bool) (window time : ℤ) :
    Balanced displayed time { run := { queue := .start displayed favorable window } } where
  reconciled := ⟨.nil, .nil, Or.inl rfl⟩
  ahead := Int.natCast_nonneg displayed
  reduced := rfl
  traded := rfl
  within := nofun
  fall := by simp [PassiveQueue.start]

/-- Time passes: what is outdated expires. -/
theorem Balanced.expire (h : ledger.Balanced displayed time) :
    Balanced displayed time { ledger.expire time with
      run := { ledger.run with queue := ledger.run.queue.advance time } } where
  reconciled := h.reconciled.advance
  ahead := (expireReductions_bounds h.reconciled.reductions.positive h.ahead).1
  reduced := by
    show ledger.reduced = ledger.matched.map Prod.fst +
      units (ledger.run.queue.advance time).reductions + (ledger.expired + _)
    rw [h.reduced, units_dropWhile ledger.run.queue.window time, advance_reductions]
    abel
  traded := by
    show ledger.traded = ledger.matched.map Prod.snd +
      units (ledger.run.queue.advance time).credits + (ledger.lapsed + _)
    rw [h.traded, units_dropWhile ledger.run.queue.window time ledger.run.queue.credits,
      advance_credits]
    abel
  within := h.within
  fall := by
    have hfall := h.fall
    have hexpired : ledger.run.queue.ahead - (outdatedUnits ledger.run.queue.window time
        ledger.run.queue.reductions).card ≤ (ledger.run.queue.advance time).ahead :=
      expireReductions_fall h.reconciled.reductions.positive h.ahead
    show displayed - (ledger.run.queue.advance time).ahead ≤
      (ledger.traded.card : ℤ) + (ledger.expired + outdatedUnits ledger.run.queue.window time
        ledger.run.queue.reductions).card
    rw [Multiset.card_add]
    omega

theorem Balanced.depth (h : ledger.Balanced displayed time) {shown : ℕ}
    (hnext : ledger.apply order (.depth time shown) = some next) :
    next.Balanced displayed time := by
  obtain ⟨run, hrun, rfl⟩ := Option.map_eq_some_iff.mp hnext
  obtain ⟨queue, hqueue, rfl⟩ := Option.map_eq_some_iff.mp hrun
  have hexpired := h.expire
  obtain ⟨hahead, -, hwindow, -, hcredits, hreductions⟩ := depth_spec hqueue
  have hpositive := hexpired.reconciled.credits.positive
  have hnonneg : 0 ≤ max 0 (ledger.run.queue.displayed - (shown : ℤ)) := le_max_left _ _
  have hunits := units_meet hpositive hnonneg hreductions
  have hmatched := units_matchChanges hpositive (max 0 (ledger.run.queue.displayed - (shown : ℤ)))
  have hreduced := hexpired.reduced
  have htraded := hexpired.traded
  dsimp only [QueueAccount.expire] at hreduced htraded hunits hmatched
  refine ⟨h.reconciled.depth hqueue, ?_, ?_, ?_, ?_, ?_⟩ <;> dsimp only [note, QueueAccount.expire]
  · rw [hahead]
    exact hexpired.ahead
  · rw [hreduced, advance_displayed, Multiset.map_add, Multiset.map_map, add_right_comm _ _
      (Multiset.replicate _ _), add_assoc (Multiset.map Prod.fst _), add_comm (units _),
      hunits]
    simp only [Function.comp_def]
    abel
  · rw [htraded, advance_displayed, Multiset.map_add, Multiset.map_map, hmatched, hcredits]
    simp only [Function.comp_def, Multiset.map_id']
    abel
  · intro pair hpair
    rw [hwindow]
    rcases Multiset.mem_add.mp hpair with hpair | hpair
    · exact h.within pair hpair
    · obtain ⟨trade, htrade, rfl⟩ := Multiset.mem_map.mp hpair
      exact takenUnits_within hexpired.reconciled.credits h.reconciled.fresh_credits trade htrade
  · rw [hahead]
    exact hexpired.fall

theorem Balanced.trade (h : ledger.Balanced displayed time) {quantity : ℕ}
    (hnext : ledger.apply order (.trade time quantity) = some next) :
    next.Balanced displayed time := by
  obtain ⟨run, hrun, rfl⟩ := Option.map_eq_some_iff.mp hnext
  obtain ⟨⟨queue, fill⟩, hqueue, rfl⟩ := Option.map_eq_some_iff.mp hrun
  have hexpired := h.expire
  obtain ⟨hahead, -, -, hwindow, -, hreductions, hcredits⟩ := trade_spec hqueue
  have hpositive := hexpired.reconciled.reductions.positive
  have hnonneg : (0 : ℤ) ≤ quantity := Int.natCast_nonneg quantity
  have hunits := units_meet hpositive hnonneg hcredits
  have hmatched := units_matchChanges hpositive (quantity : ℤ)
  have hreduced := hexpired.reduced
  have htraded := hexpired.traded
  have hfall := hexpired.fall
  have hlong := hexpired.ahead
  dsimp only [QueueAccount.expire] at hreduced htraded hunits hmatched hfall hlong
  rw [Int.toNat_natCast] at hunits
  refine ⟨h.reconciled.trade hnonneg hqueue, ?_, ?_, ?_, ?_, ?_⟩ <;>
    dsimp only [note, QueueAccount.expire]
  · omega
  · rw [hreduced, Multiset.map_add, Multiset.map_map, hmatched, hreductions]
    simp only [Function.comp_def, Multiset.map_id']
    abel
  · rw [htraded, Multiset.map_add, Multiset.map_map, add_right_comm _ _
      (Multiset.replicate _ _), add_assoc (Multiset.map Prod.snd _), add_comm (units _), hunits]
    simp only [Function.comp_def]
    abel
  · intro pair hpair
    rw [hwindow]
    rcases Multiset.mem_add.mp hpair with hpair | hpair
    · exact h.within pair hpair
    · obtain ⟨reduction, hreduction, rfl⟩ := Multiset.mem_map.mp hpair
      rw [abs_sub_comm]
      exact takenUnits_within hexpired.reconciled.reductions h.reconciled.fresh_reductions
        reduction hreduction
  · rw [Multiset.card_add, Multiset.card_replicate]
    omega

/-- **Every event keeps the balance.** -/
theorem Balanced.apply {event : QueueEvent} (h : ledger.Balanced displayed event.time)
    (hnext : ledger.apply order event = some next) : next.Balanced displayed event.time := by
  cases event with
  | advance time =>
    obtain rfl := Option.some.inj hnext
    exact h.expire
  | depth time shown => exact h.depth hnext
  | trade time quantity => exact h.trade hnext

/-- The window never changes. -/
theorem window_apply {event : QueueEvent} (hnext : ledger.apply order event = some next) :
    next.run.queue.window = ledger.run.queue.window := by
  obtain ⟨run, hrun, rfl⟩ := Option.map_eq_some_iff.mp hnext
  cases event with
  | advance time =>
    obtain rfl := Option.some.inj hrun
    rfl
  | depth time shown =>
    obtain ⟨queue, hqueue, rfl⟩ := Option.map_eq_some_iff.mp hrun
    exact (depth_spec hqueue).2.2.1
  | trade time quantity =>
    obtain ⟨⟨queue, fill⟩, hqueue, rfl⟩ := Option.map_eq_some_iff.mp hrun
    exact (trade_spec hqueue).2.2.2.1

theorem balanced_account {favorable : Bool} {window : ℤ} {events : List QueueEvent}
    (hchronological : Chronological events)
    (hledger : account displayed order favorable window events = some ledger)
    (hlater : ∀ event ∈ events, event.time ≤ later) :
    ledger.Balanced displayed later ∧ ledger.run.queue.window = window := by
  induction events using List.reverseRecOn generalizing ledger later with
  | nil =>
    obtain rfl := Option.some.inj hledger
    exact ⟨.start displayed favorable window later, rfl⟩
  | append_singleton events event ih =>
    rw [Chronological, List.map_append, List.pairwise_append] at hchronological
    obtain ⟨hbefore, -, horder⟩ := hchronological
    rw [account_append] at hledger
    obtain ⟨middle, hmiddle, hnext⟩ := Option.bind_eq_some_iff.mp hledger
    have hlast : ∀ earlier ∈ events, earlier.time ≤ event.time := fun earlier hearlier =>
      horder _ (List.mem_map_of_mem hearlier) _ (List.mem_singleton_self _)
    obtain ⟨hbalanced, hwindow⟩ := ih hbefore hmiddle hlast
    exact ⟨(hbalanced.apply hnext).mono (hlater event (by simp)),
      (window_apply hnext).trans hwindow⟩

end QueueAccount

/-- **A depletion never counts twice.** In every run in the order of the times: one of the pending
sides is empty; each unit of a reduction is matched with one unit of a trade within the window, is
pending or expired, and each unit of a trade likewise; the queue falls by at most the trades and
the expired reductions; and a trade and a depth change at the next time commute. -/
theorem account_reconciles (displayed order window : ℕ) (favorable : Bool)
    (events : List QueueEvent) (hchronological : Chronological events) (ledger : QueueAccount)
    (hledger : account displayed order favorable window events = some ledger) :
    replay displayed order favorable window events = some ledger.run ∧
    (ledger.run.queue.reductions = [] ∨ ledger.run.queue.credits = []) ∧
    ledger.reduced =
      ledger.matched.map Prod.fst + units ledger.run.queue.reductions + ledger.expired ∧
    ledger.traded = ledger.matched.map Prod.snd + units ledger.run.queue.credits + ledger.lapsed ∧
    (∀ pair ∈ ledger.matched, |pair.1 - pair.2| ≤ window) ∧
    displayed - ledger.run.queue.ahead ≤ (ledger.traded.card : ℤ) + ledger.expired.card ∧
    ledger.expired.card + ledger.matched.card ≤ ledger.reduced.card ∧
    ∀ (time : ℤ) (quantity shown : ℕ) (remaining fill fill' : ℤ)
      (traded last reduced last' : PassiveQueue),
      (∀ event ∈ events, event.time ≤ time) →
      ledger.run.queue.trade time quantity remaining = some (traded, fill) →
      traded.depth time shown = some last →
      ledger.run.queue.depth time shown = some reduced →
      reduced.trade time quantity remaining = some (last', fill') →
      last = last' ∧ fill = fill' := by
  have hlatest : ∃ time, ∀ event ∈ events, event.time ≤ time := by
    refine ⟨(events.map QueueEvent.time).foldr max 0, fun event hevent => ?_⟩
    exact List.le_max_of_le' 0 (List.mem_map_of_mem hevent) le_rfl
  obtain ⟨latest, hlatest⟩ := hlatest
  obtain ⟨h, hwindow⟩ := QueueAccount.balanced_account hchronological hledger hlatest
  refine ⟨?_, h.reconciled.exclusive, h.reduced, h.traded, hwindow ▸ h.within, h.fall, ?_, ?_⟩
  · rw [← account_run, hledger, Option.map_some]
  · rw [h.reduced, Multiset.card_add, Multiset.card_add, Multiset.card_map]
    omega
  · intro time quantity shown remaining fill fill' traded last reduced last' htime htraded hlast
      hreduced hlast'
    obtain ⟨hnow, -⟩ := QueueAccount.balanced_account hchronological hledger htime
    have hnonneg : 0 ≤ ledger.run.queue.window := hwindow ▸ Int.natCast_nonneg window
    exact hnow.reconciled.trade_depth_comm hnonneg (Int.natCast_nonneg quantity) htraded hlast
      hreduced hlast'

/-- A reduction of 80, of which a trade of 30 explains a part and the rest expires. -/
theorem account_reconciles_cancellation : ∃ ledger,
    account 100 100 true 5 [.depth 1 20, .trade 2 30, .advance 9] = some ledger ∧
      ledger.run.queue.ahead = 20 ∧ ledger.matched.card = 30 ∧
      (100 : ℤ) - ledger.run.queue.ahead ≤ (ledger.traded.card : ℤ) + ledger.expired.card := by
  refine ⟨_, rfl, rfl, rfl, ?_⟩
  exact (account_reconciles 100 100 5 true [.depth 1 20, .trade 2 30, .advance 9] (by decide) _
    rfl).2.2.2.2.2.1

end EventMarket.Core
