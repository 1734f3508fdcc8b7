import EventMarket.Foundations.Tally

/-!
# Depletion

A log of takes draws on places. What a place shows may change between the takes, but every take
leaves all that was ever taken at its place within what is shown there at that moment. Then the
total at a place is at most the most that was ever shown there.

## Main definitions

* `takenAt`: what a log has taken at a place.
* `Within`: the takes of a log stay within what is shown, after those of an earlier one.

## Main results

* `within_concat`, `Within.append`: one more take, and two logs in a row.
* `Within.takenAt_le`: the total at a place stays below a bound of all that is shown there.
-/

namespace EventMarket.Foundations

variable {α κ : Type*} [DecidableEq κ] {place : α → κ} {amount : α → ℕ} {shown : κ → ℕ}
  {past log more : List α} {take : α} {spot : κ} {bound : ℕ}

/-- What a log has taken at a place. -/
def takenAt (place : α → κ) (amount : α → ℕ) (log : List α) (spot : κ) : ℕ :=
  tally (fun take => if place take = spot then amount take else 0) log

@[simp] theorem takenAt_nil : takenAt place amount [] spot = 0 := rfl

theorem takenAt_cons :
    takenAt place amount (take :: log) spot =
      (if place take = spot then amount take else 0) + takenAt place amount log spot :=
  tally_cons _ _ _

theorem takenAt_append :
    takenAt place amount (log ++ more) spot =
      takenAt place amount log spot + takenAt place amount more spot := tally_append _ _ _

theorem takenAt_concat :
    takenAt place amount (log ++ [take]) spot =
      takenAt place amount log spot + if place take = spot then amount take else 0 :=
  tally_append_singleton _ _ _

/-- **The takes of a log stay within what is shown**: each of them, with all that was taken before
at its place. -/
def Within (place : α → κ) (amount : α → ℕ) (shown : κ → ℕ) (past log : List α) : Prop :=
  ∀ before take after, log = before ++ take :: after →
    takenAt place amount (past ++ (before ++ [take])) (place take) ≤ shown (place take)

theorem within_nil : Within place amount shown past [] := fun before take after h =>
  absurd h.symm (by simp)

/-- One more take. -/
theorem within_concat : Within place amount shown past (log ++ [take]) ↔
    Within place amount shown past log ∧
      takenAt place amount (past ++ (log ++ [take])) (place take) ≤ shown (place take) := by
  constructor
  · intro h
    refine ⟨fun before other after heq => h before other (after ++ [take]) ?_, h log take [] rfl⟩
    rw [heq, List.append_assoc, List.cons_append]
  · rintro ⟨hlog, htake⟩ before other after heq
    rcases List.eq_nil_or_concat after with rfl | ⟨rest, last, rfl⟩
    · obtain ⟨rfl, hlast⟩ := List.append_inj' heq rfl
      obtain rfl := List.head_eq_of_cons_eq hlast
      exact htake
    · rw [List.concat_eq_append, ← List.cons_append, ← List.append_assoc] at heq
      exact hlog before other rest (List.append_inj' heq rfl).1

/-- **Two logs in a row**, while what is shown stays the same. -/
theorem Within.append (h : Within place amount shown past log)
    (hmore : Within place amount shown (past ++ log) more) :
    Within place amount shown past (log ++ more) := by
  induction more using List.reverseRecOn with
  | nil => rwa [List.append_nil]
  | append_singleton more take ih =>
    obtain ⟨hbefore, htake⟩ := within_concat.mp hmore
    rw [← List.append_assoc, within_concat]
    refine ⟨ih hbefore, ?_⟩
    rwa [List.append_assoc log, ← List.append_assoc past]

/-- **The total at a place** stays below a bound of all that was shown there. -/
theorem Within.takenAt_le (h : Within place amount shown past log)
    (hpast : takenAt place amount past spot ≤ bound) (hshown : shown spot ≤ bound) :
    takenAt place amount (past ++ log) spot ≤ bound := by
  induction log using List.reverseRecOn with
  | nil => rwa [List.append_nil]
  | append_singleton log take ih =>
    obtain ⟨hbefore, htake⟩ := within_concat.mp h
    by_cases hplace : place take = spot
    · subst hplace
      exact htake.trans hshown
    · rw [← List.append_assoc, takenAt_concat, if_neg hplace, Nat.add_zero]
      exact ih hbefore

end EventMarket.Foundations
