import Mathlib.Data.BitVec
import Mathlib.Data.Nat.Bitwise
import Mathlib.Logic.Function.Iterate
import Mathlib.Tactic.Ring

/-!
# Cyclic redundancy codes

A register of a reflected code is shifted by one place for every bit, and the polynomial is added
when a one falls out. Everything is linear over the field with two elements, so a word of bits can
be fed at once, and different words leave different registers.

## Main definitions

* `shift`, `feed`: one step of the register without and with a bit.
* `feedAll`: the register after some bits.
* `bitsOf`, `ofBits`: the bits of a number, the lowest first.

## Main results

* `feedAll_eq_iterate`: a word is fed at once.
* `iterate_shift_split`: the low places of a register can be looked up in a table.
* `shift_injective`, `feedAll_word_injective`: no register and no word is confused with another.
-/

namespace EventMarket.Foundations

variable {width : ℕ} (polynomial : BitVec width)

/-- One place to the right; the polynomial is added for a one that falls out. -/
def shift (register : BitVec width) : BitVec width :=
  if register.getLsbD 0 then (register >>> 1) ^^^ polynomial else register >>> 1

theorem getLsbD_shift (register : BitVec width) (place : ℕ) :
    (shift polynomial register).getLsbD place =
      (register.getLsbD (place + 1) ^^ (register.getLsbD 0 && polynomial.getLsbD place)) := by
  unfold shift
  split_ifs with hlow <;> simp [hlow, Nat.add_comm]

theorem shift_xor (register other : BitVec width) :
    shift polynomial (register ^^^ other) = shift polynomial register ^^^
      shift polynomial other := by
  refine BitVec.eq_of_getLsbD_eq fun place _ => ?_
  simp only [getLsbD_shift, BitVec.getLsbD_xor]
  cases register.getLsbD 0 <;> cases other.getLsbD 0 <;> cases polynomial.getLsbD place <;>
    simp [Bool.xor_comm]

theorem iterate_shift_xor (count : ℕ) (register other : BitVec width) :
    (shift polynomial)^[count] (register ^^^ other) =
      (shift polynomial)^[count] register ^^^ (shift polynomial)^[count] other := by
  induction count generalizing register other with
  | zero => rfl
  | succ count ih => simp only [Function.iterate_succ_apply, shift_xor, ih]

/-- A register whose lowest bit is clear only moves. -/
theorem shift_double {value : ℕ} (h : 2 * value < 2 ^ width) :
    shift polynomial (BitVec.ofNat width (2 * value)) = BitVec.ofNat width value := by
  have hlow : (BitVec.ofNat width (2 * value)).getLsbD 0 = false := by
    simp [BitVec.getLsbD_ofNat]
  rw [shift, hlow, if_neg Bool.false_ne_true]
  apply BitVec.eq_of_toNat_eq
  rw [BitVec.toNat_ushiftRight, BitVec.toNat_ofNat, BitVec.toNat_ofNat, Nat.mod_eq_of_lt h,
    Nat.mod_eq_of_lt (by omega), Nat.shiftRight_one]
  omega

theorem iterate_shift_mul {count value : ℕ} (h : 2 ^ count * value < 2 ^ width) :
    (shift polynomial)^[count] (BitVec.ofNat width (2 ^ count * value)) =
      BitVec.ofNat width value := by
  induction count with
  | zero => rw [Function.iterate_zero_apply, pow_zero, Nat.one_mul]
  | succ count ih =>
    rw [pow_succ', Nat.mul_assoc] at h ⊢
    rw [Function.iterate_succ_apply, shift_double polynomial h, ih (by omega)]

/-! ### Bits of a number -/

/-- The lowest bits of a number. -/
def bitsOf : (count value : ℕ) → List Bool
  | 0, _ => []
  | count + 1, value => decide (value % 2 = 1) :: bitsOf count (value / 2)

def ofBits : List Bool → ℕ
  | [] => 0
  | bit :: bits => bit.toNat + 2 * ofBits bits

@[simp] theorem length_bitsOf (count value : ℕ) : (bitsOf count value).length = count := by
  induction count generalizing value with
  | zero => rfl
  | succ count ih => rw [bitsOf, List.length_cons, ih]

theorem ofBits_lt (bits : List Bool) : ofBits bits < 2 ^ bits.length := by
  induction bits with
  | nil => decide
  | cons bit bits ih =>
    have hbit := bit.toNat_lt
    rw [ofBits, List.length_cons, pow_succ]
    omega

theorem ofBits_append (bits more : List Bool) :
    ofBits (bits ++ more) = ofBits bits + 2 ^ bits.length * ofBits more := by
  induction bits with
  | nil => simp [ofBits]
  | cons bit bits ih =>
    rw [List.cons_append, ofBits, ofBits, ih, List.length_cons, pow_succ']
    ring

theorem ofBits_bitsOf {count value : ℕ} (h : value < 2 ^ count) :
    ofBits (bitsOf count value) = value := by
  induction count generalizing value with
  | zero =>
    rw [pow_zero, Nat.lt_one_iff] at h
    rw [h, bitsOf, ofBits]
  | succ count ih =>
    rw [pow_succ] at h
    rw [bitsOf, ofBits, ih (by omega)]
    rcases Nat.mod_two_eq_zero_or_one value with hbit | hbit <;> simp [hbit] <;> omega

theorem ofBits_injective {bits more : List Bool} (hlength : bits.length = more.length)
    (h : ofBits bits = ofBits more) : bits = more := by
  induction bits generalizing more with
  | nil => exact (List.eq_nil_of_length_eq_zero hlength.symm).symm
  | cons bit bits ih =>
    cases more with
    | nil => cases hlength
    | cons other more =>
      simp only [ofBits] at h
      have hbit := bit.toNat_lt
      have hother := other.toNat_lt
      have hnat : bit.toNat = other.toNat := by omega
      have hfirst : bit = other := by
        cases bit <;> cases other <;> first | rfl | cases hnat
      rw [ih (Nat.succ.inj hlength) (by omega), hfirst]

/-- Disjoint parts of a number. -/
theorem ofNat_add_mul {count low high : ℕ} (h : low < 2 ^ count) :
    BitVec.ofNat width (low + 2 ^ count * high) =
      BitVec.ofNat width low ^^^ BitVec.ofNat width (2 ^ count * high) := by
  rw [← BitVec.ofNat_xor]
  congr 1
  refine Nat.eq_of_testBit_eq fun place => ?_
  rw [Nat.testBit_xor, Nat.add_comm, Nat.testBit_two_pow_mul_add high h, Nat.testBit_two_pow_mul]
  split_ifs with hplace
  · simp [Nat.not_le.mpr hplace]
  · have hlow : low.testBit place = false :=
      Nat.testBit_lt_two_pow (h.trans_le (Nat.pow_le_pow_right (by decide) (Nat.not_lt.mp hplace)))
    simp [hlow, Nat.not_lt.mp hplace]

/-- **The low places of a register can be looked up in a table**; the others only move. -/
theorem iterate_shift_split (count : ℕ) (register : BitVec width) :
    (shift polynomial)^[count] register =
      (register >>> count) ^^^
        (shift polynomial)^[count] (BitVec.ofNat width (register.toNat % 2 ^ count)) := by
  have hsplit : register = BitVec.ofNat width (register.toNat % 2 ^ count) ^^^
      BitVec.ofNat width (2 ^ count * (register.toNat / 2 ^ count)) := by
    rw [← ofNat_add_mul (Nat.mod_lt _ (Nat.two_pow_pos count)), Nat.mod_add_div,
      BitVec.ofNat_toNat, BitVec.setWidth_eq]
  have hhigh : (shift polynomial)^[count]
      (BitVec.ofNat width (2 ^ count * (register.toNat / 2 ^ count))) = register >>> count := by
    rw [iterate_shift_mul polynomial ((Nat.mul_div_le _ _).trans_lt register.isLt)]
    apply BitVec.eq_of_toNat_eq
    rw [BitVec.toNat_ofNat, BitVec.toNat_ushiftRight, Nat.shiftRight_eq_div_pow,
      Nat.mod_eq_of_lt ((Nat.div_le_self _ _).trans_lt register.isLt)]
  conv_lhs => rw [hsplit, iterate_shift_xor, hhigh, BitVec.xor_comm]

/-! ### Feeding bits -/

/-- One step with a bit. -/
def feed (register : BitVec width) (bit : Bool) : BitVec width :=
  shift polynomial (register ^^^ BitVec.ofNat width bit.toNat)

/-- The register after some bits. -/
def feedAll (bits : List Bool) (register : BitVec width) : BitVec width :=
  bits.foldl (feed polynomial) register

theorem feedAll_append (bits more : List Bool) (register : BitVec width) :
    feedAll polynomial (bits ++ more) register =
      feedAll polynomial more (feedAll polynomial bits register) :=
  List.foldl_append ..

/-- **A word is fed at once.** -/
theorem feedAll_eq_iterate {bits : List Bool} (h : bits.length ≤ width) (register : BitVec width) :
    feedAll polynomial bits register =
      (shift polynomial)^[bits.length] (register ^^^ BitVec.ofNat width (ofBits bits)) := by
  induction bits generalizing register with
  | nil => simp [feedAll, ofBits]
  | cons bit bits ih =>
    have hroom : 2 * ofBits bits < 2 ^ width := by
      have hlt := ofBits_lt bits
      have hle : 2 ^ (bits.length + 1) ≤ 2 ^ width := Nat.pow_le_pow_right (by decide) h
      rw [pow_succ] at hle
      omega
    have hword : BitVec.ofNat width (ofBits (bit :: bits)) =
        BitVec.ofNat width bit.toNat ^^^ BitVec.ofNat width (2 * ofBits bits) := by
      have hbit : bit.toNat < 2 ^ 1 := bit.toNat_lt
      simpa only [ofBits, pow_one] using ofNat_add_mul hbit
    rw [feedAll, List.foldl_cons, ← feedAll, ih (Nat.le_of_succ_le h), feed,
      ← shift_double polynomial hroom, ← shift_xor, List.length_cons, Function.iterate_succ_apply,
      hword, BitVec.xor_assoc]

/-! ### Nothing is confused -/

section Injective

variable {polynomial} (htop : polynomial.getLsbD (width - 1) = true)

include htop

/-- **No register is confused with another**, when the polynomial has the highest power. -/
theorem shift_injective : Function.Injective (shift polynomial) := by
  intro register other h
  have hplace (place : ℕ) := congrArg (fun shifted => shifted.getLsbD place) h
  simp only [getLsbD_shift] at hplace
  have hlow : register.getLsbD 0 = other.getLsbD 0 := by
    have hhighest := hplace (width - 1)
    rw [BitVec.getLsbD_of_ge register _ (by omega), BitVec.getLsbD_of_ge other _ (by omega),
      htop] at hhighest
    simpa using hhighest
  refine BitVec.eq_of_getLsbD_eq fun place _ => ?_
  cases place with
  | zero => exact hlow
  | succ place =>
    have hmoved := hplace place
    rw [hlow] at hmoved
    exact Bool.xor_left_inj.mp hmoved

theorem feedAll_injective (bits : List Bool) : Function.Injective (feedAll polynomial bits) := by
  induction bits with
  | nil => exact fun _ _ h => h
  | cons bit bits ih =>
    intro register other h
    exact (BitVec.xor_left_inj _).mp (shift_injective htop (ih h))

/-- **No word is confused with another of its length.** -/
theorem feedAll_word_injective {bits more : List Bool} (hwidth : bits.length ≤ width)
    (hlength : bits.length = more.length) {register : BitVec width}
    (h : feedAll polynomial bits register = feedAll polynomial more register) : bits = more := by
  rw [feedAll_eq_iterate polynomial hwidth, feedAll_eq_iterate polynomial (hlength ▸ hwidth),
    hlength] at h
  have hword := (BitVec.xor_right_inj _).mp ((shift_injective htop).iterate more.length h)
  have hsmall (word : List Bool) (hle : word.length ≤ width) : ofBits word < 2 ^ width :=
    (ofBits_lt word).trans_le (Nat.pow_le_pow_right (by decide) hle)
  have hnumber := congrArg BitVec.toNat hword
  rw [BitVec.toNat_ofNat, BitVec.toNat_ofNat, Nat.mod_eq_of_lt (hsmall bits hwidth),
    Nat.mod_eq_of_lt (hsmall more (hlength ▸ hwidth))] at hnumber
  exact ofBits_injective hlength hnumber

end Injective

end EventMarket.Foundations
