import EventMarket.Foundations.CheckedArithmetic
import EventMarket.Session.StudyPositions

/-!
# The capital time is exact

The capital time is a number of two digits to the base `10^9`: microdollar seconds, and a fraction
of microdollar nanoseconds. An addition multiplies the paid cash by its time without a word of 128
bits, so both factors are split. Here it is run on words of 64 bits, as the source does, with the
accumulator as the state that an exception leaves behind.

## Main definitions

* `CapitalTime.exact`: the number that the two digits stand for.
* `CapitalTime.add64`: an addition on words; it has no value when an intermediate wraps.
* `CapitalTime.calls`: a sequence of additions, those that throw included.

## Main results

* `CapitalTime.add_spec`: an addition is exact, and throws only when the seconds are full.
* `CapitalTime.call_eq`: on words nothing wraps, and an exception changes nothing.
* `CapitalTime.capital_time_exact`: the same for every sequence.
-/

namespace EventMarket.Session

open Core Foundations

namespace CapitalTime

/-! ### One addition -/

/-- The microdollar nanoseconds. -/
def exact (total : CapitalTime) : ℕ :=
  total.microUsdSeconds * scale + total.fractionalMicroUsdNanoseconds

/-- Both digits are in their range. -/
structure Normal (total : CapitalTime) : Prop where
  seconds_le : total.microUsdSeconds ≤ uint64Max
  fraction_lt : total.fractionalMicroUsdNanoseconds < scale

/-- The sum of whole seconds that an addition carries into. -/
def carried (total : CapitalTime) (amount time : ℕ) : ℕ :=
  amount * (time / scale) + (amount / scale * (time % scale) +
    (amount % scale * (time % scale) + total.fractionalMicroUsdNanoseconds) / scale)

/-- **The split product.** The parts add up to the product of cash and time. -/
theorem split_product (total : CapitalTime) (amount time : ℕ) :
    total.exact + amount * time =
      (total.microUsdSeconds + total.carried amount time) * scale +
        (amount % scale * (time % scale) + total.fractionalMicroUsdNanoseconds) % scale := by
  have hamount := Nat.div_add_mod amount scale
  have htime := Nat.div_add_mod time scale
  have hfraction := Nat.div_add_mod
    (amount % scale * (time % scale) + total.fractionalMicroUsdNanoseconds) scale
  have hproduct : amount * time = amount * (time / scale) * scale +
      (amount / scale * (time % scale) * scale + amount % scale * (time % scale)) := by
    calc amount * time = amount * (scale * (time / scale) + time % scale) := by rw [htime]
      _ = amount * (time / scale) * scale + amount * (time % scale) := by ring
      _ = amount * (time / scale) * scale +
          (scale * (amount / scale) + amount % scale) * (time % scale) := by rw [hamount]
      _ = _ := by ring
  unfold exact carried
  rw [hproduct]
  linarith

/-- The seconds after an addition. -/
theorem seconds_eq (total : CapitalTime) (amount time : ℕ) :
    (total.exact + amount * time) / scale = total.microUsdSeconds + total.carried amount time := by
  have hlt : (amount % scale * (time % scale) + total.fractionalMicroUsdNanoseconds) %
    scale < scale :=
    Nat.mod_lt _ (by decide)
  rw [split_product, Nat.add_comm, Nat.add_mul_div_right _ _ (by decide), Nat.div_eq_of_lt hlt,
    Nat.zero_add]

/-- The products of the remainders leave room in a word. -/
theorem parts_le {total : CapitalTime} (h : total.Normal) {amount : ℕ} (hamount : amount ≤ int64Max)
    (time : ℕ) :
    amount % scale * (time % scale) ≤ 999999999 * 999999999 ∧
      amount / scale * (time % scale) ≤ 9223372036 * 999999999 ∧
      (amount % scale * (time % scale) + total.fractionalMicroUsdNanoseconds) / scale ≤
        1000000000 := by
  have hns : time % scale ≤ 999999999 := Nat.le_of_lt_succ (Nat.mod_lt _ (by decide))
  have hlow : amount % scale ≤ 999999999 := Nat.le_of_lt_succ (Nat.mod_lt _ (by decide))
  have hhigh : amount / scale ≤ 9223372036 := Nat.div_le_div_right hamount
  have hfraction : total.fractionalMicroUsdNanoseconds < 1000000000 := h.fraction_lt
  have hproduct := Nat.mul_le_mul hlow hns
  refine ⟨hproduct, Nat.mul_le_mul hhigh hns, Nat.div_le_of_le_mul ?_⟩
  unfold scale at hproduct ⊢
  omega

/-- **One addition** is exact, unless the seconds do not fit into a word. -/
theorem add_spec {total : CapitalTime} (h : total.Normal) {cash nanoseconds : ℤ} (hcash : 0 ≤ cash)
    (hmax : cash ≤ int64Max) (htime : 0 ≤ nanoseconds) :
    (uint64Max < (total.exact + cash.toNat * nanoseconds.toNat) / scale ∧
      total.add cash nanoseconds = invalid "capital-time overflow") ∨
    ∃ next : CapitalTime, (total.exact + cash.toNat * nanoseconds.toNat) / scale ≤ uint64Max ∧
      total.add cash nanoseconds = .ok next ∧ next.Normal ∧
      next.exact = total.exact + cash.toNat * nanoseconds.toNat := by
  obtain ⟨amount, rfl⟩ := Int.eq_ofNat_of_zero_le hcash
  obtain ⟨time, rfl⟩ := Int.eq_ofNat_of_zero_le htime
  have hamount : amount ≤ int64Max := by exact_mod_cast hmax
  obtain ⟨-, hhigh, hcarry⟩ := parts_le h hamount time
  have hseconds := h.seconds_le
  have hproduct := split_product total amount time
  rw [seconds_eq]
  unfold carried at hproduct ⊢
  unfold CapitalTime.add
  rw [if_neg (by omega)]
  simp only [Int.toNat_natCast]
  generalize hlow : amount % scale * (time % scale) + total.fractionalMicroUsdNanoseconds = low
    at hcarry hproduct ⊢
  generalize amount / scale * (time % scale) = high at hhigh hproduct ⊢
  generalize low / scale = carry at hcarry hproduct ⊢
  have hword : uint64Max = 18446744073709551615 := rfl
  split
  · next hlarge =>
    have hgt : uint64Max < amount * (time / scale) :=
      (Nat.div_lt_iff_lt_mul (Nat.pos_of_ne_zero hlarge.1)).mp hlarge.2
    exact .inl ⟨by omega, rfl⟩
  split
  · next hfull => exact .inl ⟨by omega, rfl⟩
  next hfits =>
  refine .inr ⟨_, by omega, rfl, ⟨?_, Nat.mod_lt _ (by decide)⟩, ?_⟩
  · change total.microUsdSeconds + (amount * (time / scale) + (high + carry)) ≤ uint64Max
    omega
  · rw [hproduct]
    rfl

/-- An amount and a time that are not both there. -/
theorem add_negative (total : CapitalTime) {cash nanoseconds : ℤ} (h : cash < 0 ∨ nanoseconds < 0) :
    total.add cash nanoseconds = invalid "negative capital-time input" := if_pos h

/-! ### On words -/

/-- An addition that may throw, on words that may not wrap; the accumulator is its state. -/
abbrev Addition : Type → Type := ExceptT StudyException (StateT CapitalTime Option)

/-- The exception of a sum that does not fit. -/
def overflowIf (full : Bool) : Addition Unit :=
  if full then throw (.replay "capital-time overflow" 0) else pure ()

/-- The largest amount whose product with the seconds fits; without whole seconds there is no
quotient, and every amount fits. -/
def mostFor (amount seconds : ℕ) : Option ℕ :=
  if seconds ≠ 0 then divIn uint64Max seconds else some amount

/-- The addition as the source makes it, statement for statement. The accumulator is written after
all checks. -/
def add64 (cash nanoseconds : ℤ) : Addition Unit :=
  if cash < 0 ∨ nanoseconds < 0 then throw (.replay "negative capital-time input" 0)
  else do
    let amount := cash.toNat
    let time := nanoseconds.toNat
    let seconds ← divIn time scale
    let ns ← modIn time scale
    let most ← mostFor amount seconds
    overflowIf (most < amount)
    let whole ← mulIn uint64Max amount seconds
    let part ← mulIn uint64Max (amount % scale) ns
    let fractional ← addIn uint64Max part (← get).fractionalMicroUsdNanoseconds
    let high ← mulIn uint64Max (amount / scale) ns
    let extra ← addIn uint64Max high (fractional / scale)
    let room ← subIn uint64Max extra
    overflowIf (room < whole)
    let rest ← subIn uint64Max whole
    let rest ← subIn rest extra
    overflowIf (rest < (← get).microUsdSeconds)
    let added ← addIn uint64Max whole extra
    let sum ← addIn uint64Max (← get).microUsdSeconds added
    modify fun total => { total with microUsdSeconds := sum }
    modify fun total => { total with fractionalMicroUsdNanoseconds := fractional % scale }

/-- A call: whether it threw, and the accumulator after it. -/
def call (total : CapitalTime) (cash nanoseconds : ℤ) :
    Option (Except StudyException Unit × CapitalTime) := (add64 cash nanoseconds).run total

/-- An operation within its range. -/
theorem bind_value {α β : Type} {o : Option α} {a : α} (h : o = some a) (f : α → Addition β) :
    ((liftM o : Addition α) >>= f) = f a := by
  subst h
  rfl

theorem run_get (total : CapitalTime) (f : CapitalTime → Addition Unit) :
    ((get : Addition CapitalTime) >>= f).run total = (f total).run total := rfl

theorem run_overflowIf (full : Bool) (total : CapitalTime) (f : Unit → Addition Unit) :
    (overflowIf full >>= f).run total =
      if full then some (.error (.replay "capital-time overflow" 0), total)
      else (f ()).run total := by
  cases full <;> rfl

/-- **Nothing wraps.** A call has a value, and one that throws leaves the accumulator. -/
theorem call_eq {total : CapitalTime} (h : total.Normal) {cash nanoseconds : ℤ}
    (hmax : cash ≤ int64Max) :
    total.call cash nanoseconds = some (match total.add cash nanoseconds with
      | .ok next => (.ok (), next)
      | .error error => (.error error, total)) := by
  unfold call add64
  by_cases hnegative : cash < 0 ∨ nanoseconds < 0
  · rw [add_negative total hnegative, if_pos hnegative]
    rfl
  obtain ⟨hcash, htime⟩ := not_or.mp hnegative
  obtain ⟨amount, rfl⟩ := Int.eq_ofNat_of_zero_le (not_lt.mp hcash)
  obtain ⟨time, rfl⟩ := Int.eq_ofNat_of_zero_le (not_lt.mp htime)
  have hamount : amount ≤ int64Max := by exact_mod_cast hmax
  obtain ⟨hlow, hhigh, hcarry⟩ := parts_le h hamount time
  have hfraction : total.fractionalMicroUsdNanoseconds < 1000000000 := h.fraction_lt
  have hword : uint64Max = 18446744073709551615 := rfl
  have hscale : 0 < scale := by decide
  unfold CapitalTime.add
  rw [if_neg hnegative, if_neg hnegative]
  simp only [Int.toNat_natCast]
  rw [bind_value (divIn_eq hscale), bind_value (modIn_eq hscale)]
  generalize time / scale = seconds
  generalize time % scale = ns at hlow hhigh hcarry ⊢
  obtain ⟨most, hmost, hfull⟩ : ∃ most, mostFor amount seconds = some most ∧
      (most < amount ↔ seconds ≠ 0 ∧ uint64Max / seconds < amount) := by
    unfold mostFor
    split
    · next hne => exact ⟨_, divIn_eq (Nat.pos_of_ne_zero hne), by simp [hne]⟩
    · next heq => exact ⟨_, rfl, by simp [heq]⟩
  rw [bind_value hmost, run_overflowIf]
  simp only [decide_eq_true_eq, hfull]
  split
  · rfl
  next hfits =>
  have hwhole : amount * seconds ≤ uint64Max := by
    rcases Nat.eq_zero_or_pos seconds with rfl | hpos
    · simp
    · exact Nat.le_of_not_lt fun hlt =>
        hfits ⟨hpos.ne', (Nat.div_lt_iff_lt_mul hpos).mpr hlt⟩
  rw [bind_value (mulIn_eq hwhole), bind_value (mulIn_eq (by omega)), run_get,
    bind_value (addIn_eq (by omega)), bind_value (mulIn_eq (by omega)),
    bind_value (addIn_eq (by omega)), bind_value (subIn_eq (by omega)), run_overflowIf]
  simp only [decide_eq_true_eq]
  generalize (amount % scale * ns + total.fractionalMicroUsdNanoseconds) / scale = carry at hcarry ⊢
  generalize amount / scale * ns = high at hhigh ⊢
  by_cases hroom : uint64Max - (high + carry) < amount * seconds
  · rw [if_pos hroom, if_pos (.inl hroom)]
    rfl
  rw [if_neg hroom, bind_value (subIn_eq hwhole), bind_value (subIn_eq (by omega)), run_get,
    run_overflowIf]
  simp only [decide_eq_true_eq]
  by_cases hlast : uint64Max - amount * seconds - (high + carry) < total.microUsdSeconds
  · rw [if_pos hlast, if_pos (.inr hlast)]
    rfl
  rw [if_neg hlast, if_neg (not_or_intro hroom hlast), bind_value (addIn_eq (by omega)), run_get,
    bind_value (addIn_eq (by omega))]
  rfl

/-! ### Sequences of additions -/

/-- What a call may do to the accumulator. -/
structure Exact (total : CapitalTime) (cash nanoseconds : ℤ) (result : Except StudyException Unit)
    (next : CapitalTime) : Prop where
  normal : next.Normal
  throws_iff : (∃ error, result = .error error) ↔ cash < 0 ∨ nanoseconds < 0 ∨
    (uint64Max : ℤ) < (total.exact + cash * nanoseconds) / scale
  unchanged : ∀ error, result = .error error → next = total
  added : result = .ok () → (next.exact : ℤ) = total.exact + cash * nanoseconds

/-- **A call** has a value, and it is exact. -/
theorem exists_call {total : CapitalTime} (h : total.Normal) {cash : ℤ} (hmax : cash ≤ int64Max)
    (nanoseconds : ℤ) : ∃ result next, total.call cash nanoseconds = some (result, next) ∧
      Exact total cash nanoseconds result next := by
  rw [call_eq h hmax]
  by_cases hnegative : cash < 0 ∨ nanoseconds < 0
  · rw [add_negative total hnegative]
    exact ⟨_, _, rfl, h, ⟨fun _ => hnegative.imp_right .inl, fun _ => ⟨_, rfl⟩⟩,
      fun _ _ => rfl, nofun⟩
  obtain ⟨hcash, htime⟩ := not_or.mp hnegative
  obtain ⟨amount, rfl⟩ := Int.eq_ofNat_of_zero_le (not_lt.mp hcash)
  obtain ⟨time, rfl⟩ := Int.eq_ofNat_of_zero_le (not_lt.mp htime)
  have hspec := add_spec h (not_lt.mp hcash) hmax (not_lt.mp htime)
  rw [Int.toNat_natCast, Int.toNat_natCast] at hspec
  rcases hspec with ⟨hfull, hthrow⟩ | ⟨next, hfits, hvalue, hnormal, hexact⟩
  · rw [hthrow]
    exact ⟨_, _, rfl, h, ⟨fun _ => .inr (.inr (by exact_mod_cast hfull)), fun _ => ⟨_, rfl⟩⟩,
      fun _ _ => rfl, nofun⟩
  · rw [hvalue]
    refine ⟨_, _, rfl, hnormal, ⟨nofun, ?_⟩, nofun, fun _ => by exact_mod_cast hexact⟩
    rintro (hlt | hlt | hlt)
    · exact absurd hlt hcash
    · exact absurd hlt htime
    · exact absurd hfits (not_le.mpr (by exact_mod_cast hlt))

/-- A sequence of calls: what each of them did, and the accumulator after the last. The caller may
catch the exceptions. -/
def calls (total : CapitalTime) :
    List (ℤ × ℤ) → Option (List ((ℤ × ℤ) × Except StudyException Unit) × CapitalTime)
  | [] => some ([], total)
  | addition :: rest => do
    let (result, next) ← total.call addition.1 addition.2
    let (results, last) ← next.calls rest
    some ((addition, result) :: results, last)

/-- The sum of cash times nanoseconds over the additions that did not throw. -/
def held : List ((ℤ × ℤ) × Except StudyException Unit) → ℤ
  | [] => 0
  | ((cash, nanoseconds), .ok ()) :: rest => cash * nanoseconds + held rest
  | (_, .error _) :: rest => held rest

theorem exists_calls {total : CapitalTime} (h : total.Normal) {additions : List (ℤ × ℤ)}
    (hmax : ∀ addition ∈ additions, addition.1 ≤ int64Max) :
    ∃ results last, total.calls additions = some (results, last) ∧
      results.map Prod.fst = additions ∧ last.Normal ∧
      (last.exact : ℤ) = total.exact + held results := by
  induction additions generalizing total with
  | nil => exact ⟨[], total, rfl, rfl, h, (add_zero _).symm⟩
  | cons addition rest ih =>
    obtain ⟨result, next, hcall, hexact⟩ :=
      exists_call h (hmax addition List.mem_cons_self) addition.2
    obtain ⟨results, last, hcalls, hresults, hnormal, hsum⟩ :=
      ih hexact.normal fun other hmem => hmax other (List.mem_cons_of_mem _ hmem)
    refine ⟨(addition, result) :: results, last, ?_, congrArg (addition :: ·) hresults, hnormal, ?_⟩
    · simp only [calls, hcall, hcalls, Option.bind_eq_bind, Option.bind_some]
    · cases result with
      | error error => rw [hsum, hexact.unchanged error rfl]; rfl
      | ok u =>
        rw [hsum, hexact.added rfl]
        exact add_assoc _ _ _

/-- **The capital time is exact.** Whatever additions were made, caught exceptions included: no
word wrapped, the digits are in their range and stand for the sum of cash times nanoseconds over
the additions that did not throw. A further addition throws exactly if an input is negative or the
seconds of the sum do not fit into a word, and then it changes nothing. -/
theorem capital_time_exact {additions : List (ℤ × ℤ)}
    (hmax : ∀ addition ∈ additions, addition.1 ≤ int64Max) :
    ∃ results total, calls {} additions = some (results, total) ∧
      results.map Prod.fst = additions ∧
      (total.microUsdSeconds * scale + total.fractionalMicroUsdNanoseconds : ℤ) = held results ∧
      total.fractionalMicroUsdNanoseconds < scale ∧
      ∀ cash nanoseconds : ℤ, cash ≤ int64Max →
        ∃ result next, total.call cash nanoseconds = some (result, next) ∧
          Exact total cash nanoseconds result next := by
  obtain ⟨results, total, hcalls, hresults, hnormal, hsum⟩ :=
    @exists_calls {} ⟨Nat.zero_le _, by decide⟩ additions hmax
  refine ⟨results, total, hcalls, hresults, ?_, hnormal.fraction_lt,
    fun cash nanoseconds hcash => exists_call hnormal hcash nanoseconds⟩
  simpa [exact] using hsum

/-- Two additions: the largest one, whose product does not fit, and an ordinary one. -/
theorem capital_time_exact_caught :
    ∃ results total, calls {} [(int64Max, int64Max), (5, 1500000000)] = some (results, total) ∧
      held results = 7500000000 := by
  obtain ⟨results, total, hcalls, -, -, -, -⟩ :=
    @capital_time_exact [(int64Max, int64Max), (5, 1500000000)] (by decide)
  refine ⟨results, total, hcalls, ?_⟩
  have hvalue : calls {} [(int64Max, int64Max), (5, 1500000000)] =
      some ([((↑int64Max, ↑int64Max), .error (.replay "capital-time overflow" 0)),
        ((5, 1500000000), .ok ())], ⟨7, 500000000⟩) := by rfl
  rw [hvalue] at hcalls
  obtain ⟨rfl, -⟩ := Prod.mk.inj (Option.some.inj hcalls)
  rfl

end CapitalTime

end EventMarket.Session
