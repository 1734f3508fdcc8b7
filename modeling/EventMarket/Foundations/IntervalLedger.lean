import EventMarket.Foundations.HeldTime

/-!
# A ledger of intervals

Components change their status one at a time. The ledger charges the time between two changes to
the status in force, keeps which components are active, and measures the time during which at
least one of them is. A component is active while it has the positive status.

## Main definitions

* `IntervalLedger`: the ledger, with the operations `account`, `accountUnion`, `opens`, `closes`.
* `IntervalLedger.move`: a component takes a new status.
* `IntervalLedger.Accounted`: the ledger agrees with the statuses over time.

## Main results

* `Accounted.move`, `Accounted.advance`: what keeps the agreement.
* `Settled.move`: a component is active exactly while it has the positive status.
* `Accounted.sum_durations`: the durations of a component add up to the whole time.
-/

namespace EventMarket.Foundations

variable {ι κ : Type*}

/-- The accounts of the components. The histories tell the openings (`true`) from the closings. -/
@[ext]
structure IntervalLedger (ι κ : Type*) where
  status : ι → κ
  since : ι → ℤ
  durations : ι → κ → ℕ
  active : ι → Bool
  opened : ι → ℕ
  closed : ι → ℕ
  history : ι → List Bool
  running : ℕ
  unionSince : ℤ
  union : ℕ

namespace IntervalLedger

section Operations

variable [DecidableEq ι] [DecidableEq κ]

/-- Charge the time since the last change to the status in force. -/
def account (ledger : IntervalLedger ι κ) (index : ι) (now : ℤ) : IntervalLedger ι κ :=
  { ledger with
    since := Function.update ledger.since index now
    durations := Function.update ledger.durations index
      (Function.update (ledger.durations index) (ledger.status index)
        (ledger.durations index (ledger.status index) + (now - ledger.since index).toNat)) }

def setStatus (ledger : IntervalLedger ι κ) (index : ι) (value : κ) (now : ℤ) :
    IntervalLedger ι κ :=
  { ledger.account index now with status := Function.update ledger.status index value }

def accountUnion (ledger : IntervalLedger ι κ) (now : ℤ) : IntervalLedger ι κ :=
  { ledger with
    unionSince := now
    union := if ledger.running ≠ 0 then ledger.union + (now - ledger.unionSince).toNat
      else ledger.union }

def opens (ledger : IntervalLedger ι κ) (index : ι) (now : ℤ) : IntervalLedger ι κ :=
  { ledger.accountUnion now with
    running := ledger.running + 1
    active := Function.update ledger.active index true
    opened := Function.update ledger.opened index (ledger.opened index + 1)
    history := Function.update ledger.history index (ledger.history index ++ [true]) }

/-- Close a component that is active. -/
def closes (ledger : IntervalLedger ι κ) (index : ι) (now : ℤ) : IntervalLedger ι κ :=
  if ledger.active index then
    { ledger.accountUnion now with
      running := ledger.running - 1
      active := Function.update ledger.active index false
      closed := Function.update ledger.closed index (ledger.closed index + 1)
      history := Function.update ledger.history index (ledger.history index ++ [false]) }
  else ledger

/-- **A component takes a new status**, and becomes active or inactive with it. -/
def move (ledger : IntervalLedger ι κ) (positive : κ) (index : ι) (value : κ) (now : ℤ) :
    IntervalLedger ι κ :=
  if value = positive then
    (if ledger.active index then ledger else ledger.opens index now).setStatus index value now
  else (ledger.closes index now).setStatus index value now

end Operations

section Effect

variable [DecidableEq ι] {ledger : IntervalLedger ι κ} {positive value : κ} {index : ι} {now : ℤ}

theorem closes_active : (ledger.closes index now).active =
    Function.update ledger.active index false := by
  unfold closes
  split_ifs with hactive
  · rfl
  · exact (Function.update_eq_self_iff.mpr (by simpa using hactive)).symm

theorem closes_since : (ledger.closes index now).since = ledger.since := by
  unfold closes
  split_ifs <;> rfl

theorem closes_unionSince_le (h : ledger.unionSince ≤ now) :
    (ledger.closes index now).unionSince ≤ now := by
  unfold closes
  split_ifs
  · exact le_rfl
  · exact h

variable [DecidableEq κ]

theorem move_status :
    (ledger.move positive index value now).status = Function.update ledger.status index value := by
  unfold move closes
  split_ifs <;> rfl

theorem move_active : (ledger.move positive index value now).active =
    Function.update ledger.active index (value == positive) := by
  unfold move
  split_ifs with hvalue hactive
  · rw [hvalue, beq_self_eq_true]
    exact (Function.update_eq_self_iff.mpr hactive.symm).symm
  · rw [hvalue, beq_self_eq_true]
    rfl
  · rw [beq_false_of_ne hvalue]
    exact closes_active

end Effect

/-! ### Agreement with the statuses over time -/

/-- **The ledger agrees with the statuses over time**, of which `trajectory` is the record. -/
structure Accounted [Fintype ι] (ledger : IntervalLedger ι κ) (trajectory : ℤ → ι → κ)
    (positive : κ) (first now : ℤ) : Prop where
  measured : ∀ index value, Measures (fun t => trajectory t index = value) first
    (ledger.since index) now (ledger.status index = value) (ledger.durations index value)
  union : Measures (fun t => ∃ index, trajectory t index = positive) first ledger.unionSince now
    (ledger.running ≠ 0) ledger.union
  running_eq : ledger.running = (Finset.univ.filter fun index => ledger.active index = true).card
  opened_eq : ∀ index,
    ledger.opened index = ledger.closed index + if ledger.active index then 1 else 0
  history_eq : ∀ index, ledger.history index =
    (List.range (ledger.opened index + ledger.closed index)).map fun place => place % 2 == 0

/-- The active components are those with the positive status. -/
def Settled (ledger : IntervalLedger ι κ) (positive : κ) : Prop :=
  ∀ index, ledger.active index = true ↔ ledger.status index = positive

theorem Settled.move [DecidableEq ι] [DecidableEq κ] {ledger : IntervalLedger ι κ} {positive : κ}
    (h : ledger.Settled positive) (index : ι) (value : κ) (now : ℤ) :
    (ledger.move positive index value now).Settled positive := by
  intro other
  rw [move_status, move_active]
  rcases eq_or_ne other index with rfl | hother
  · rw [Function.update_self, Function.update_self, beq_iff_eq]
  · rw [Function.update_of_ne hother, Function.update_of_ne hother]
    exact h other

namespace Accounted

variable [Fintype ι] {ledger : IntervalLedger ι κ} {trajectory : ℤ → ι → κ} {positive value : κ}
  {first now later : ℤ} {index : ι}

theorem since_le (h : ledger.Accounted trajectory positive first now) (index : ι) :
    ledger.since index ≤ now :=
  (h.measured index positive).le_now

theorem first_le (h : ledger.Accounted trajectory positive first now) : first ≤ now :=
  h.union.first_le.trans h.union.le_now

/-- A component is running exactly when one is active. -/
theorem running_ne_zero_iff (h : ledger.Accounted trajectory positive first now) :
    ledger.running ≠ 0 ↔ ∃ index, ledger.active index = true := by
  rw [h.running_eq, Finset.card_ne_zero]
  exact ⟨fun ⟨index, hmem⟩ => ⟨index, (Finset.mem_filter.mp hmem).2⟩,
    fun ⟨index, hactive⟩ => ⟨index, Finset.mem_filter.mpr ⟨Finset.mem_univ index, hactive⟩⟩⟩

/-- **The clock moves on** while no status changes. -/
theorem advance (h : ledger.Accounted trajectory positive first now)
    (hsettled : ledger.Settled positive) (hlater : now ≤ later)
    (hconstant : ∀ t, now ≤ t → t < later → trajectory t = ledger.status) :
    ledger.Accounted trajectory positive first later where
  measured index value := (h.measured index value).advance hlater fun t hnow ht => by
    rw [hconstant t hnow ht]
  union := h.union.advance hlater fun t hnow ht => by
    rw [h.running_ne_zero_iff, hconstant t hnow ht]
    exact exists_congr fun index => (hsettled index).symm
  running_eq := h.running_eq
  opened_eq := h.opened_eq
  history_eq := h.history_eq

theorem accountUnion (h : ledger.Accounted trajectory positive first now) :
    (ledger.accountUnion now).Accounted trajectory positive first now where
  measured := h.measured
  union := h.union.account (ledger.running ≠ 0)
  running_eq := h.running_eq
  opened_eq := h.opened_eq
  history_eq := h.history_eq

section

variable [DecidableEq ι]

theorem opens (h : ledger.Accounted trajectory positive first now)
    (hactive : ledger.active index = false) :
    (ledger.opens index now).Accounted trajectory positive first now where
  measured := h.measured
  union := h.accountUnion.union.restart _
  running_eq := by
    have hfilter : (Finset.univ.filter fun other =>
        Function.update ledger.active index true other = true) =
          insert index (Finset.univ.filter fun other => ledger.active other = true) := by
      ext other
      rcases eq_or_ne other index with rfl | hother
      · simp
      · simp [hother]
    unfold IntervalLedger.opens
    dsimp only
    rw [hfilter, Finset.card_insert_of_notMem (by simp [hactive]), h.running_eq]
  opened_eq other := by
    rcases eq_or_ne other index with rfl | hother
    · have hopened := h.opened_eq other
      simp only [hactive, Bool.false_eq_true, if_false] at hopened
      simp [IntervalLedger.opens, IntervalLedger.accountUnion, hopened]
    · simpa [IntervalLedger.opens, IntervalLedger.accountUnion, Function.update_of_ne hother]
        using h.opened_eq other
  history_eq other := by
    rcases eq_or_ne other index with rfl | hother
    · have hopened := h.opened_eq other
      simp only [hactive, Bool.false_eq_true, if_false] at hopened
      have hlength : ledger.opened other + 1 + ledger.closed other =
          ledger.opened other + ledger.closed other + 1 := by omega
      simp only [IntervalLedger.opens, IntervalLedger.accountUnion, Function.update_self,
        h.history_eq other, hlength, List.range_succ, List.map_append, List.map_singleton]
      congr 3
      simp
      omega
    · simpa [IntervalLedger.opens, IntervalLedger.accountUnion, Function.update_of_ne hother]
        using h.history_eq other

theorem closes (h : ledger.Accounted trajectory positive first now) (index : ι) :
    (ledger.closes index now).Accounted trajectory positive first now := by
  unfold IntervalLedger.closes
  split_ifs with hactive
  · refine ⟨h.measured, h.accountUnion.union.restart _, ?_, fun other => ?_, fun other => ?_⟩
    · have hfilter : (Finset.univ.filter fun other =>
          Function.update ledger.active index false other = true) =
            (Finset.univ.filter fun other => ledger.active other = true).erase index := by
        ext other
        rcases eq_or_ne other index with rfl | hother
        · simp
        · simp [hother]
      dsimp only
      rw [hfilter, Finset.card_erase_of_mem (by simp [hactive]), h.running_eq]
    · rcases eq_or_ne other index with rfl | hother
      · have hopened := h.opened_eq other
        simp only [hactive, if_true] at hopened
        simp [IntervalLedger.accountUnion, hopened]
      · simpa [IntervalLedger.accountUnion, Function.update_of_ne hother] using h.opened_eq other
    · rcases eq_or_ne other index with rfl | hother
      · have hopened := h.opened_eq other
        simp only [hactive, if_true] at hopened
        simp only [IntervalLedger.accountUnion, Function.update_self, h.history_eq other,
          ← Nat.add_assoc, List.range_succ, List.map_append, List.map_singleton]
        congr 3
        simp
        omega
      · simpa [IntervalLedger.accountUnion, Function.update_of_ne hother] using h.history_eq other
  · exact h

variable [DecidableEq κ]

theorem setStatus (h : ledger.Accounted trajectory positive first now) (index : ι) (value : κ) :
    (ledger.setStatus index value now).Accounted trajectory positive first now where
  measured other status := by
    rcases eq_or_ne other index with rfl | hother
    · have hmeasured := (h.measured other status).account (value = status)
      unfold IntervalLedger.setStatus account
      dsimp only
      rw [Function.update_self, Function.update_self, Function.update_self, Function.update_apply]
      rcases eq_or_ne status (ledger.status other) with rfl | hstatus
      · simpa using hmeasured
      · simpa [hstatus, hstatus.symm] using hmeasured
    · unfold IntervalLedger.setStatus account
      dsimp only
      rw [Function.update_of_ne hother, Function.update_of_ne hother, Function.update_of_ne hother]
      exact h.measured other status
  union := h.union
  running_eq := h.running_eq
  opened_eq := h.opened_eq
  history_eq := h.history_eq

/-- Charging the time changes no status. -/
theorem account (h : ledger.Accounted trajectory positive first now) (index : ι) :
    (ledger.account index now).Accounted trajectory positive first now := by
  have hsame : ledger.setStatus index (ledger.status index) now = ledger.account index now := by
    unfold IntervalLedger.setStatus
    rw [Function.update_eq_self]
    rfl
  exact hsame ▸ h.setStatus index (ledger.status index)

/-- **A new status keeps the agreement.** -/
theorem move (h : ledger.Accounted trajectory positive first now) (index : ι) (value : κ) :
    (ledger.move positive index value now).Accounted trajectory positive first now := by
  unfold IntervalLedger.move
  split_ifs with hvalue hactive
  · exact h.setStatus index value
  · exact (h.opens (by simpa using hactive)).setStatus index value
  · exact (h.closes index).setStatus index value

end

/-! ### What the totals add up to -/

/-- Openings and closings alternate, so their numbers follow from the length of the history. -/
theorem count_history (h : ledger.Accounted trajectory positive first now) (index : ι) :
    (ledger.history index).count true = ledger.opened index ∧
      (ledger.history index).count false = ledger.closed index := by
  have hcount : ∀ length : ℕ,
      ((List.range length).map fun place => place % 2 == 0).count true = (length + 1) / 2 ∧
        ((List.range length).map fun place => place % 2 == 0).count false = length / 2 := by
    intro length
    induction length with
    | zero => simp
    | succ length ih =>
      rw [List.range_succ, List.map_append, List.count_append, List.count_append, ih.1, ih.2]
      rcases Nat.mod_two_eq_zero_or_one length with hparity | hparity
      · simp [hparity]
        omega
      · simp [hparity]
        omega
  have hopened := h.opened_eq index
  rw [h.history_eq, (hcount _).1, (hcount _).2]
  split_ifs at hopened <;> omega

/-- **The durations of a component that has just been charged add up to the whole time.** -/
theorem sum_durations [Fintype κ] (h : ledger.Accounted trajectory positive first now)
    (hsince : ledger.since index = now) :
    ((∑ value, ledger.durations index value : ℕ) : ℤ) = now - first := by
  have hfirst := h.first_le
  calc ((∑ value, ledger.durations index value : ℕ) : ℤ)
      = (∑ value, heldTime (fun t => trajectory t index = value) first now : ℕ) := by
        rw [Finset.sum_congr rfl fun value _ => ?_]
        rw [(h.measured index value).total_eq, hsince]
    _ = (now - first).toNat := by rw [sum_heldTime_eq fun t => trajectory t index]
    _ = now - first := Int.toNat_of_nonneg (by omega)

end Accounted

end IntervalLedger

end EventMarket.Foundations
