import Mathlib.Tactic

/-!
# Fixed-point prices, quantities and cash

The engine never uses floating point. A price is an integer number of 1e-4 dollars between `0`
and one contract unit, a quantity an integer number of centicontracts and an amount of cash an
integer number of microdollars; the last two are nonnegative signed 64-bit integers. Each type
carries its range, so a value outside it cannot be built, and `fromRaw` is the checked
constructor of the source.

Decimal texts are parsed exactly by `parseScaledNonnegative`, which fails instead of
overflowing.

## Main definitions

* `Price`, `Quantity`, `QuantityDelta`, `Cash` and their `fromRaw` and `parse`.
* `parseScaledNonnegative`: the parser of nonnegative decimals with a fixed number of digits.
* `contractSettlementValue`: the cash paid by a winning quantity.

## Main results

* `Price.fromRaw_eq_some_iff`, `Quantity.fromRaw_eq_some_iff`, `Cash.fromRaw_eq_some_iff`: what the
  checked constructors accept.
-/

namespace EventMarket.Core

/-- The largest signed 64-bit integer, `std::numeric_limits<std::int64_t>::max()`. -/
abbrev int64Max : ℕ := 9223372036854775807

/-- The smallest signed 64-bit integer. -/
abbrev int64Min : ℤ := -9223372036854775808

/-- The largest unsigned 64-bit integer. -/
abbrev uint64Max : ℕ := 18446744073709551615

/-- Legs are numbered by `Fin 2` and `Fin 3`; their numerals use these instances. -/
instance (priority := 2000) neZero_two : NeZero (2 : ℕ) := ⟨by decide⟩

instance (priority := 2000) neZero_three : NeZero (3 : ℕ) := ⟨by decide⟩

/-! ### Decimal texts -/

/-- The loop over the digits of the whole part, with its overflow check. -/
def parseWhole : List Char → ℕ → Option ℕ
  | [], whole => some whole
  | character :: rest, whole =>
    if character < '0' ∨ '9' < character then none
    else
      let digit := character.toNat - '0'.toNat
      if (int64Max - digit) / 10 < whole then none
      else parseWhole rest (whole * 10 + digit)

/-- The loop over the digits of the fraction; the caller bounds their number. -/
def parseFraction : List Char → ℕ → Option ℕ
  | [], fraction => some fraction
  | character :: rest, fraction =>
    if character < '0' ∨ '9' < character then none
    else parseFraction rest (fraction * 10 + (character.toNat - '0'.toNat))

/-- A nonnegative decimal with at most `fractionDigits` digits after an optional point, scaled
by `scale`. -/
def parseScaledNonnegative (scale fractionDigits : ℕ) (text : List Char) : Option ℕ :=
  let wholeText := text.takeWhile (· ≠ '.')
  let afterWhole := text.dropWhile (· ≠ '.')
  -- A second point makes the text invalid.
  if '.' ∈ afterWhole.drop 1 then none
  else if wholeText = [] then none
  else do
    let whole ← parseWhole wholeText 0
    if int64Max / scale < whole then none
    else do
      let fractionText := afterWhole.drop 1
      if afterWhole ≠ [] ∧ (fractionText = [] ∨ fractionDigits < fractionText.length) then none
      else do
        let digits ← parseFraction fractionText 0
        let fraction := digits * 10 ^ (fractionDigits - fractionText.length)
        let scaledWhole := whole * scale
        if int64Max - fraction < scaledWhole then none
        else some (scaledWhole + fraction)

/-! ### Prices -/

/-- A price in units of 1e-4 dollars, at most one contract unit. -/
structure Price where
  raw : ℕ
  le_scale : raw ≤ 10000
  deriving DecidableEq, Repr

namespace Price

/-- One contract unit. -/
abbrev scale : ℕ := 10000

theorem zero_le_scale : 0 ≤ scale := Nat.zero_le _

def fromRaw (raw : ℤ) : Option Price :=
  if h : raw < 0 ∨ (scale : ℤ) < raw then none
  else some ⟨raw.toNat, by simp only [scale] at h; omega⟩

def parse (text : String) : Option Price := do
  let raw ← parseScaledNonnegative scale 4 text.toList
  fromRaw raw

/-- The price of the complementary outcome, `10'000 - price`. -/
def complement (price : Price) : Price := ⟨scale - price.raw, Nat.sub_le _ _⟩

/-- The price with the largest quadratic fee. -/
def half : Price := ⟨5000, by decide⟩

/-- A price cut to one contract unit. -/
def capped (raw : ℕ) : Price := ⟨min raw scale, Nat.min_le_right _ _⟩

@[simp] theorem capped_raw (raw : ℕ) : (capped raw).raw = min raw 10000 := rfl

@[simp] theorem complement_raw (price : Price) : price.complement.raw = 10000 - price.raw := rfl

@[simp] theorem half_raw : half.raw = 5000 := rfl

@[simp] theorem complement_complement (price : Price) : price.complement.complement = price := by
  cases price with
  | mk raw h => simp only [complement, scale, mk.injEq]; omega

theorem fromRaw_eq_some_iff {raw : ℤ} {price : Price} :
    fromRaw raw = some price ↔ (price.raw : ℤ) = raw := by
  have hle := price.le_scale
  cases price with
  | mk value h =>
    unfold fromRaw
    split_ifs with hr
    · simp only [scale] at hr
      simp only [false_iff]
      omega
    · simp only [scale] at hr
      simp only [Option.some.injEq, mk.injEq]
      omega

end Price

/-! ### Quantities and signed quantity changes -/

/-- A nonnegative 64-bit number of centicontracts. -/
structure Quantity where
  raw : ℕ
  le_max : raw ≤ int64Max
  deriving DecidableEq, Repr

namespace Quantity

/-- Centicontracts in one contract. -/
abbrev scale : ℕ := 100

theorem scale_le_max : scale ≤ int64Max := by decide

/-- A quantity cut to the 64-bit range. -/
def capped (raw : ℕ) : Quantity := ⟨min raw int64Max, Nat.min_le_right _ _⟩

@[simp] theorem capped_raw (raw : ℕ) : (capped raw).raw = min raw 9223372036854775807 := rfl

def fromRaw (raw : ℤ) : Option Quantity :=
  if h : 0 ≤ raw ∧ raw ≤ int64Max then some ⟨raw.toNat, by omega⟩ else none

def parse (text : String) : Option Quantity := do
  let raw ← parseScaledNonnegative scale 2 text.toList
  fromRaw raw

theorem fromRaw_eq_some_iff {raw : ℤ} {quantity : Quantity} :
    fromRaw raw = some quantity ↔ (quantity.raw : ℤ) = raw := by
  have hle := quantity.le_max
  cases quantity with
  | mk value h =>
    unfold fromRaw
    split_ifs with hr
    · simp only [Option.some.injEq, mk.injEq]
      omega
    · simp only [false_iff]
      omega

end Quantity

/-- A signed change of a quantity. -/
structure QuantityDelta where
  raw : ℤ
  deriving DecidableEq, Repr

/-- A leading minus sign negates the magnitude. -/
def QuantityDelta.parse (text : String) : Option QuantityDelta :=
  match text.toList with
  | [] => none
  | '-' :: magnitude =>
    (parseScaledNonnegative Quantity.scale 2 magnitude).map fun raw => ⟨-(raw : ℤ)⟩
  | magnitude => (parseScaledNonnegative Quantity.scale 2 magnitude).map fun raw => ⟨(raw : ℤ)⟩

/-! ### Cash -/

/-- A nonnegative 64-bit number of microdollars. -/
structure Cash where
  raw : ℕ
  le_max : raw ≤ int64Max
  deriving DecidableEq, Repr

namespace Cash

/-- Microdollars in one dollar. -/
abbrev scale : ℕ := 1000000

/-- An amount cut to the 64-bit range. -/
def capped (raw : ℕ) : Cash := ⟨min raw int64Max, Nat.min_le_right _ _⟩

@[simp] theorem capped_raw (raw : ℕ) : (capped raw).raw = min raw 9223372036854775807 := rfl

def fromRaw (raw : ℤ) : Option Cash :=
  if h : 0 ≤ raw ∧ raw ≤ int64Max then some ⟨raw.toNat, by omega⟩ else none

def parse (text : String) : Option Cash := do
  let raw ← parseScaledNonnegative scale 6 text.toList
  fromRaw raw

theorem fromRaw_eq_some_iff {raw : ℤ} {cash : Cash} :
    fromRaw raw = some cash ↔ (cash.raw : ℤ) = raw := by
  have hle := cash.le_max
  cases cash with
  | mk value h =>
    unfold fromRaw
    split_ifs with hr
    · simp only [Option.some.injEq, mk.injEq]
      omega
    · simp only [false_iff]
      omega

end Cash

/-- The cash a winning quantity pays at settlement, one dollar per contract. -/
def contractSettlementValue (quantity : Quantity) : Option Cash :=
  let multiplier := Cash.scale / Quantity.scale
  if int64Max / multiplier < quantity.raw then none
  else Cash.fromRaw (quantity.raw * multiplier)

example : Price.parse "0.5000" = some ⟨5000, by decide⟩ := by decide

example : Quantity.parse "1.234" = none := by decide

end EventMarket.Core
