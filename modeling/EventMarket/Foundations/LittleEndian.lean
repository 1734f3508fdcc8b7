import Mathlib.Algebra.Order.Group.Nat
import Mathlib.Tactic.Ring

/-!
# Little-endian numbers

A number of a fixed width is written as that many bytes, the lowest first, and read back from the
front of a list of bytes.

## Main definitions

* `littleEndian`: the bytes of a number.
* `ofLittleEndian`: the number of a list of bytes.
* `takeBytes`, `takeUnsigned`: reading from the front of a list.

## Main results

* `takeUnsigned_append`: what was written is read back.
* `eq_of_takeUnsigned`: what is read was written so.
-/

namespace EventMarket.Foundations

/-- The lowest `width` bytes of a number, the lowest first. -/
def littleEndian : (width value : ℕ) → List UInt8
  | 0, _ => []
  | width + 1, value => UInt8.ofNat (value % 256) :: littleEndian width (value / 256)

/-- The number of a list of bytes. -/
def ofLittleEndian : List UInt8 → ℕ
  | [] => 0
  | byte :: bytes => byte.toNat + 256 * ofLittleEndian bytes

/-- The first `count` bytes and the rest, when there are that many. -/
def takeBytes (count : ℕ) (bytes : List UInt8) : Option (List UInt8 × List UInt8) :=
  if bytes.length < count then none else some (bytes.take count, bytes.drop count)

/-- A number of a fixed width from the front. -/
def takeUnsigned (width : ℕ) (bytes : List UInt8) : Option (ℕ × List UInt8) :=
  (takeBytes width bytes).map fun (taken, rest) => (ofLittleEndian taken, rest)

@[simp] theorem length_littleEndian (width value : ℕ) :
    (littleEndian width value).length = width := by
  induction width generalizing value with
  | zero => rfl
  | succ width ih => simp [littleEndian, ih]

theorem ofLittleEndian_littleEndian {width value : ℕ} (h : value < 256 ^ width) :
    ofLittleEndian (littleEndian width value) = value := by
  induction width generalizing value with
  | zero =>
    simp only [pow_zero, Nat.lt_one_iff] at h
    simp [littleEndian, ofLittleEndian, h]
  | succ width ih =>
    have hbyte : (UInt8.ofNat (value % 256)).toNat = value % 256 := by
      rw [UInt8.toNat_ofNat']
      omega
    rw [pow_succ] at h
    rw [littleEndian, ofLittleEndian, hbyte, ih (Nat.div_lt_of_lt_mul (by omega))]
    omega

@[simp] theorem takeBytes_append (taken rest : List UInt8) :
    takeBytes taken.length (taken ++ rest) = some (taken, rest) := by
  simp [takeBytes]

theorem takeBytes_append_of_eq {count : ℕ} {taken : List UInt8} (h : taken.length = count)
    (rest : List UInt8) : takeBytes count (taken ++ rest) = some (taken, rest) := by
  rw [← h, takeBytes_append]

theorem takeBytes_eq_none_iff {count : ℕ} {bytes : List UInt8} :
    takeBytes count bytes = none ↔ bytes.length < count := by
  simp [takeBytes]

/-- Taking leaves the bytes that were not taken. -/
theorem length_of_takeBytes {count : ℕ} {bytes taken rest : List UInt8}
    (h : takeBytes count bytes = some (taken, rest)) : bytes.length = count + rest.length := by
  unfold takeBytes at h
  split at h
  · cases h
  · obtain ⟨-, rfl⟩ := Prod.mk.inj (Option.some.inj h)
    rw [List.length_drop]
    omega

theorem length_of_takeUnsigned {width value : ℕ} {bytes rest : List UInt8}
    (h : takeUnsigned width bytes = some (value, rest)) : bytes.length = width + rest.length := by
  obtain ⟨⟨taken, left⟩, htaken, heq⟩ := Option.map_eq_some_iff.1 h
  obtain ⟨-, rfl⟩ := Prod.mk.inj heq
  exact length_of_takeBytes htaken

/-- **What was written is read back.** -/
theorem takeUnsigned_append {width value : ℕ} (h : value < 256 ^ width) (rest : List UInt8) :
    takeUnsigned width (littleEndian width value ++ rest) = some (value, rest) := by
  simp only [takeUnsigned, takeBytes_append_of_eq (length_littleEndian width value),
    Option.map_some, ofLittleEndian_littleEndian h]

theorem takeUnsigned_eq_none_iff {width : ℕ} {bytes : List UInt8} :
    takeUnsigned width bytes = none ↔ bytes.length < width := by
  rw [takeUnsigned, Option.map_eq_none_iff, takeBytes_eq_none_iff]

/-! ### What is read was written so -/

theorem ofLittleEndian_lt (bytes : List UInt8) : ofLittleEndian bytes < 256 ^ bytes.length := by
  induction bytes with
  | nil => decide
  | cons byte bytes ih =>
    have hbyte : byte.toNat < 256 := byte.toNat_lt
    rw [ofLittleEndian, List.length_cons, pow_succ]
    omega

theorem littleEndian_ofLittleEndian (bytes : List UInt8) :
    littleEndian bytes.length (ofLittleEndian bytes) = bytes := by
  induction bytes with
  | nil => rfl
  | cons byte bytes ih =>
    have hbyte : byte.toNat < 256 := byte.toNat_lt
    have hlow : (byte.toNat + 256 * ofLittleEndian bytes) % 256 = byte.toNat := by omega
    have hhigh : (byte.toNat + 256 * ofLittleEndian bytes) / 256 = ofLittleEndian bytes := by omega
    rw [ofLittleEndian, List.length_cons, littleEndian, hlow, hhigh, ih, UInt8.ofNat_toNat]

theorem eq_of_takeBytes {count : ℕ} {bytes taken rest : List UInt8}
    (h : takeBytes count bytes = some (taken, rest)) :
    taken.length = count ∧ bytes = taken ++ rest := by
  unfold takeBytes at h
  split_ifs at h with hlength
  obtain ⟨rfl, rfl⟩ := Prod.mk.inj (Option.some.inj h)
  exact ⟨List.length_take_of_le (Nat.not_lt.mp hlength), (List.take_append_drop count bytes).symm⟩

/-- **What is read was written so.** -/
theorem eq_of_takeUnsigned {width value : ℕ} {bytes rest : List UInt8}
    (h : takeUnsigned width bytes = some (value, rest)) :
    value < 256 ^ width ∧ bytes = littleEndian width value ++ rest := by
  obtain ⟨⟨taken, left⟩, htaken, heq⟩ := Option.map_eq_some_iff.mp h
  obtain ⟨rfl, rfl⟩ := Prod.mk.inj heq
  obtain ⟨rfl, rfl⟩ := eq_of_takeBytes htaken
  exact ⟨ofLittleEndian_lt taken, by rw [littleEndian_ofLittleEndian]⟩

end EventMarket.Foundations
