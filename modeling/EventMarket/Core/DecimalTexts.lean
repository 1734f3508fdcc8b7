import EventMarket.Core.FixedPoint
import EventMarket.Foundations.CheckedArithmetic

/-!
# Decimal texts are parsed exactly

The grammar of a decimal is stated without the parser: digits, and after a point some more of them.
Its value is a rational number. The parser is compared with it twice, on unbounded naturals and on
words of 64 bits.

## Main definitions

* `Decimal`: the texts of the grammar, with their `Decimal.value`.
* `parseScaled64`: the parser on words; it has no value when an intermediate wraps.

## Main results

* `parseScaledNonnegative_eq_some_iff`: what the parser accepts and returns.
* `parseScaled64_eq`: nothing wraps.
* `decimal_texts_exact`: both, for prices and signed quantities too.
-/

namespace EventMarket.Core

open Foundations

/-! ### The grammar -/

/-- A decimal digit. -/
def IsDigit (character : Char) : Prop := '0' ≤ character ∧ character ≤ '9'

/-- The value of a digit. -/
def digitValue (character : Char) : ℕ := character.toNat - '0'.toNat

/-- The number that digits stand for. -/
def numeral (text : List Char) : ℕ := Nat.ofDigits 10 (text.reverse.map digitValue)

/-- A decimal with at most `F` digits after its point; without such digits it has no point. -/
structure Decimal (F : ℕ) where
  whole : List Char
  fraction : List Char
  whole_ne_nil : whole ≠ []
  fraction_length_le : fraction.length ≤ F
  isDigit_whole : ∀ character ∈ whole, IsDigit character
  isDigit_fraction : ∀ character ∈ fraction, IsDigit character

namespace Decimal

variable {F : ℕ}

/-- The written decimal. -/
def text (decimal : Decimal F) : List Char :=
  decimal.whole ++ if decimal.fraction = [] then [] else '.' :: decimal.fraction

/-- The number that a decimal stands for. -/
def value (decimal : Decimal F) : ℚ :=
  numeral decimal.whole + numeral decimal.fraction / 10 ^ decimal.fraction.length

/-- The decimal in units of its last digit. -/
def scaled (decimal : Decimal F) : ℕ :=
  numeral decimal.whole * 10 ^ F +
    numeral decimal.fraction * 10 ^ (F - decimal.fraction.length)

theorem scaled_eq (decimal : Decimal F) : (decimal.scaled : ℚ) = decimal.value * 10 ^ F := by
  have hpow : (10 : ℚ) ^ F =
      10 ^ decimal.fraction.length * 10 ^ (F - decimal.fraction.length) := by
    rw [← pow_add, Nat.add_sub_cancel' decimal.fraction_length_le]
  have hne : (10 : ℚ) ^ decimal.fraction.length ≠ 0 := pow_ne_zero _ (by norm_num)
  unfold scaled value
  push_cast
  rw [add_mul, hpow, div_mul_eq_mul_div, ← mul_assoc (numeral decimal.fraction : ℚ),
    mul_right_comm, mul_div_assoc, div_self hne, mul_one]

end Decimal

theorem numeral_cons (character : Char) (rest : List Char) :
    numeral (character :: rest) = digitValue character * 10 ^ rest.length + numeral rest := by
  unfold numeral
  rw [List.reverse_cons, List.map_append, Nat.ofDigits_append, List.length_map,
    List.length_reverse, List.map_singleton, Nat.ofDigits_singleton]
  ring

theorem digitValue_le {character : Char} (h : IsDigit character) : digitValue character ≤ 9 :=
  Nat.sub_le_sub_right (show character.toNat ≤ '9'.toNat from h.2) _

theorem ne_point {character : Char} (h : IsDigit character) : character ≠ '.' := by
  rintro rfl
  exact absurd h.1 (by decide)

theorem numeral_lt {text : List Char} (h : ∀ character ∈ text, IsDigit character) :
    numeral text < 10 ^ text.length := by
  induction text with
  | nil => exact Nat.one_pos
  | cons character rest ih =>
    have hrest := ih fun other hmem => h other (List.mem_cons_of_mem _ hmem)
    have hdigit := digitValue_le (h character List.mem_cons_self)
    rw [numeral_cons, List.length_cons, pow_succ]
    nlinarith

/-! ### The digit loops -/

theorem not_isDigit_iff {character : Char} :
    character < '0' ∨ '9' < character ↔ ¬IsDigit character := by
  unfold IsDigit
  rw [not_and_or, Char.not_le, Char.not_le]

/-- The loop over the whole part stops at the first digit whose number does not fit. -/
theorem parseWhole_eq_some_iff {text : List Char} {whole number : ℕ} (h : whole ≤ int64Max) :
    parseWhole text whole = some number ↔
      (∀ character ∈ text, IsDigit character) ∧
        whole * 10 ^ text.length + numeral text = number ∧ number ≤ int64Max := by
  induction text generalizing whole with
  | nil =>
    have hnil : whole * 10 ^ ([] : List Char).length + numeral [] = whole := by simp [numeral]
    rw [hnil]
    simp only [parseWhole, Option.some.injEq, List.not_mem_nil, false_implies, implies_true,
      true_and]
    exact ⟨fun heq => ⟨heq, heq ▸ h⟩, And.left⟩
  | cons character rest ih =>
    rw [parseWhole, List.forall_mem_cons]
    have hvalue : whole * 10 ^ (character :: rest).length + numeral (character :: rest) =
        (whole * 10 + digitValue character) * 10 ^ rest.length + numeral rest := by
      rw [numeral_cons, List.length_cons]
      ring
    rw [hvalue]
    by_cases hdigit : IsDigit character
    · rw [if_neg (mt not_isDigit_iff.mp (not_not.mpr hdigit))]
      have hle := digitValue_le hdigit
      have hword : int64Max = 9223372036854775807 := rfl
      change (if (int64Max - digitValue character) / 10 < whole then none
        else parseWhole rest (whole * 10 + digitValue character)) = some number ↔ _
      by_cases hfull : (int64Max - digitValue character) / 10 < whole
      · rw [if_pos hfull]
        have hgrow : whole * 10 + digitValue character ≤
            (whole * 10 + digitValue character) * 10 ^ rest.length :=
          Nat.le_mul_of_pos_right _ (Nat.pow_pos (by decide))
        refine ⟨nofun, fun hnumber => ?_⟩
        omega
      · rw [if_neg hfull, ih (by omega)]
        exact ⟨fun hrest => ⟨⟨hdigit, hrest.1⟩, hrest.2⟩, fun hall => ⟨hall.1.2, hall.2⟩⟩
    · rw [if_pos (not_isDigit_iff.mpr hdigit)]
      exact ⟨nofun, fun hall => absurd hall.1.1 hdigit⟩

theorem parseFraction_eq_some_iff {text : List Char} {fraction number : ℕ} :
    parseFraction text fraction = some number ↔
      (∀ character ∈ text, IsDigit character) ∧
        fraction * 10 ^ text.length + numeral text = number := by
  induction text generalizing fraction with
  | nil => simp [parseFraction, numeral]
  | cons character rest ih =>
    rw [parseFraction, List.forall_mem_cons]
    have hvalue : fraction * 10 ^ (character :: rest).length + numeral (character :: rest) =
        (fraction * 10 + digitValue character) * 10 ^ rest.length + numeral rest := by
      rw [numeral_cons, List.length_cons]
      ring
    rw [hvalue]
    by_cases hdigit : IsDigit character
    · rw [if_neg (mt not_isDigit_iff.mp (not_not.mpr hdigit)), ih]
      exact ⟨fun hrest => ⟨⟨hdigit, hrest.1⟩, hrest.2⟩, fun hall => ⟨hall.1.2, hall.2⟩⟩
    · rw [if_pos (not_isDigit_iff.mpr hdigit)]
      exact ⟨nofun, fun hall => absurd hall.1.1 hdigit⟩

/-! ### The parser -/

variable {F : ℕ}

theorem scale_pos : 0 < 10 ^ F := Nat.pow_pos (by decide)

/-- The digits after the point, padded to the full number of them, are less than one unit. -/
theorem padded_lt {text : List Char} (h : ∀ character ∈ text, IsDigit character)
    (hle : text.length ≤ F) : numeral text * 10 ^ (F - text.length) < 10 ^ F := by
  calc numeral text * 10 ^ (F - text.length) < 10 ^ text.length * 10 ^ (F - text.length) :=
        (Nat.mul_lt_mul_right scale_pos).mpr (numeral_lt h)
    _ = 10 ^ F := by rw [← pow_add, Nat.add_sub_cancel' hle]

namespace Decimal

/-- The point ends the whole part. -/
theorem takeWhile_text (decimal : Decimal F) :
    decimal.text.takeWhile (· ≠ '.') = decimal.whole := by
  have hall : ∀ character ∈ decimal.whole, decide (character ≠ '.') = true := fun character hmem =>
    decide_eq_true (ne_point (decimal.isDigit_whole character hmem))
  unfold text
  rw [List.takeWhile_append_of_pos hall]
  split <;> simp

theorem dropWhile_text (decimal : Decimal F) : decimal.text.dropWhile (· ≠ '.') =
    if decimal.fraction = [] then [] else '.' :: decimal.fraction := by
  have hall : ∀ character ∈ decimal.whole, decide (character ≠ '.') = true := fun character hmem =>
    decide_eq_true (ne_point (decimal.isDigit_whole character hmem))
  unfold text
  rw [List.dropWhile_append_of_pos hall]
  split <;> simp

theorem drop_dropWhile_text (decimal : Decimal F) :
    (decimal.text.dropWhile (· ≠ '.')).drop 1 = decimal.fraction := by
  rw [dropWhile_text]
  split
  · next hnil => rw [hnil]; rfl
  · rfl

end Decimal

/-- A text is cut at its point, which something follows. -/
theorem cut_at_point {text : List Char}
    (h : text.dropWhile (· ≠ '.') ≠ [] → (text.dropWhile (· ≠ '.')).drop 1 ≠ []) :
    (text.takeWhile (· ≠ '.') ++ if (text.dropWhile (· ≠ '.')).drop 1 = [] then []
      else '.' :: (text.dropWhile (· ≠ '.')).drop 1) = text := by
  conv_rhs => rw [← List.takeWhile_append_dropWhile (p := (· ≠ '.')) (l := text)]
  congr 1
  rcases hrest : text.dropWhile (· ≠ '.') with - | ⟨first, rest⟩
  · rfl
  · have hfirst : first = '.' := by
      have hhead := List.head?_dropWhile_not (· ≠ '.') text
      rw [hrest] at hhead
      simpa using hhead
    rw [hrest] at h
    rw [if_neg (h (List.cons_ne_nil _ _)), hfirst]
    rfl

theorem length_drop_le {rest : List Char}
    (h : ¬(rest ≠ [] ∧ (rest.drop 1 = [] ∨ F < (rest.drop 1).length))) :
    (rest.drop 1).length ≤ F := by
  by_cases hsome : rest = []
  · rw [hsome]
    exact Nat.zero_le _
  · exact not_lt.mp fun hlt => h ⟨hsome, .inr hlt⟩

theorem exists_decimal (hscale : 10 ^ F ≤ int64Max) {text : List Char} {raw : ℕ}
    (h : parseScaledNonnegative (10 ^ F) F text = some raw) :
    ∃ decimal : Decimal F, decimal.text = text ∧ decimal.scaled = raw ∧ raw ≤ int64Max := by
  unfold parseScaledNonnegative at h
  dsimp only at h
  split at h
  · exact nomatch h
  split at h
  · exact nomatch h
  next hpoint hne =>
  obtain ⟨whole, hwhole, h⟩ := Option.bind_eq_some_iff.mp h
  split at h
  · exact nomatch h
  split at h
  · exact nomatch h
  next hlarge hafter =>
  obtain ⟨digits, hdigits, h⟩ := Option.bind_eq_some_iff.mp h
  split at h
  · exact nomatch h
  next hroom =>
  obtain ⟨hwhole_digits, hwhole_value, -⟩ := (parseWhole_eq_some_iff (Nat.zero_le _)).mp hwhole
  obtain ⟨hfraction_digits, hfraction_value⟩ := parseFraction_eq_some_iff.mp hdigits
  rw [Nat.zero_mul, Nat.zero_add] at hwhole_value hfraction_value
  subst hwhole_value hfraction_value
  have hfollows : text.dropWhile (· ≠ '.') ≠ [] → (text.dropWhile (· ≠ '.')).drop 1 ≠ [] :=
    fun hsome hnil => hafter ⟨hsome, .inl hnil⟩
  have hlength := length_drop_le hafter
  refine ⟨⟨_, _, hne, hlength, hwhole_digits, hfraction_digits⟩, cut_at_point hfollows,
    Option.some.inj h, ?_⟩
  have hpadded := padded_lt hfraction_digits hlength
  have hraw := Option.some.inj h
  omega

theorem parse_text (decimal : Decimal F) (h : decimal.scaled ≤ int64Max) :
    parseScaledNonnegative (10 ^ F) F decimal.text = some decimal.scaled := by
  have hpoint : '.' ∉ decimal.fraction := fun hmem =>
    ne_point (decimal.isDigit_fraction _ hmem) rfl
  have hsum : numeral decimal.whole * 10 ^ F +
      numeral decimal.fraction * 10 ^ (F - decimal.fraction.length) ≤ int64Max := h
  have hscaled : numeral decimal.whole * 10 ^ F ≤ int64Max := by omega
  have hwhole : parseWhole decimal.whole 0 = some (numeral decimal.whole) :=
    (parseWhole_eq_some_iff (Nat.zero_le _)).mpr ⟨decimal.isDigit_whole,
      by rw [Nat.zero_mul, Nat.zero_add], (Nat.le_mul_of_pos_right _ scale_pos).trans hscaled⟩
  have hfraction : parseFraction decimal.fraction 0 = some (numeral decimal.fraction) :=
    parseFraction_eq_some_iff.mpr ⟨decimal.isDigit_fraction, by rw [Nat.zero_mul, Nat.zero_add]⟩
  have hafter : ¬(decimal.text.dropWhile (· ≠ '.') ≠ [] ∧
      (decimal.fraction = [] ∨ F < decimal.fraction.length)) := by
    rw [decimal.dropWhile_text]
    rintro ⟨hsome, hnil | hlong⟩
    · exact hsome (if_pos hnil)
    · exact absurd decimal.fraction_length_le (not_le.mpr hlong)
  unfold parseScaledNonnegative
  dsimp only
  rw [decimal.takeWhile_text, decimal.drop_dropWhile_text, if_neg hpoint,
    if_neg decimal.whole_ne_nil, hwhole, Option.bind_eq_bind, Option.bind_some,
    if_neg (not_lt.mpr ((Nat.le_div_iff_mul_le scale_pos).mpr hscaled)), if_neg hafter, hfraction,
    Option.bind_some, if_neg (by omega)]
  rfl

/-- **The parser accepts the grammar** as far as the scaled values fit, and returns them. -/
theorem parseScaledNonnegative_eq_some_iff (hscale : 10 ^ F ≤ int64Max) {text : List Char}
    {raw : ℕ} : parseScaledNonnegative (10 ^ F) F text = some raw ↔
      ∃ decimal : Decimal F, decimal.text = text ∧ decimal.scaled = raw ∧ raw ≤ int64Max := by
  refine ⟨exists_decimal hscale, ?_⟩
  rintro ⟨decimal, rfl, rfl, hle⟩
  exact parse_text decimal hle

/-! ### The parser on words -/

/-- The loop over the whole part on words: the outer option is the arithmetic's, the inner one the
parser's. -/
def parseWhole64 : List Char → ℕ → Option (Option ℕ)
  | [], whole => some (some whole)
  | character :: rest, whole =>
    if character < '0' ∨ '9' < character then some none
    else do
      let digit ← subIn character.toNat '0'.toNat
      let room ← subIn int64Max digit
      if room / 10 < whole then some none
      else do
        let shifted ← mulIn int64Max whole 10
        let next ← addIn int64Max shifted digit
        parseWhole64 rest next

/-- The loop over the fraction on words. It makes no check of its own. -/
def parseFraction64 : List Char → ℕ → Option (Option ℕ)
  | [], fraction => some (some fraction)
  | character :: rest, fraction =>
    if character < '0' ∨ '9' < character then some none
    else do
      let digit ← subIn character.toNat '0'.toNat
      let shifted ← mulIn int64Max fraction 10
      let next ← addIn int64Max shifted digit
      parseFraction64 rest next

/-- The loop that pads the missing digits. -/
def padFraction64 : ℕ → ℕ → Option ℕ
  | 0, fraction => some fraction
  | missing + 1, fraction => mulIn int64Max fraction 10 >>= padFraction64 missing

/-- The parser on words. -/
def parseScaled64 (scale fractionDigits : ℕ) (text : List Char) : Option (Option ℕ) :=
  let wholeText := text.takeWhile (· ≠ '.')
  let afterWhole := text.dropWhile (· ≠ '.')
  if '.' ∈ afterWhole.drop 1 then some none
  else if wholeText = [] then some none
  else do
    match ← parseWhole64 wholeText 0 with
    | none => some none
    | some whole =>
      let most ← divIn int64Max scale
      if most < whole then some none
      else
        let fractionText := afterWhole.drop 1
        if afterWhole ≠ [] ∧ (fractionText = [] ∨ fractionDigits < fractionText.length) then
          some none
        else do
          match ← parseFraction64 fractionText 0 with
          | none => some none
          | some digits =>
            let fraction ← padFraction64 (fractionDigits - fractionText.length) digits
            let scaledWhole ← mulIn int64Max whole scale
            let room ← subIn int64Max fraction
            if room < scaledWhole then some none
            else do
              let sum ← addIn int64Max scaledWhole fraction
              some (some sum)

theorem subIn_digit {character : Char} (h : IsDigit character) :
    subIn character.toNat '0'.toNat = some (digitValue character) := subIn_eq h.1

theorem parseWhole64_eq {text : List Char} {whole : ℕ} (h : whole ≤ int64Max) :
    parseWhole64 text whole = some (parseWhole text whole) := by
  induction text generalizing whole with
  | nil => rfl
  | cons character rest ih =>
    rw [parseWhole64, parseWhole]
    by_cases hdigit : IsDigit character
    · have hle := digitValue_le hdigit
      have hword : int64Max = 9223372036854775807 := rfl
      rw [if_neg (mt not_isDigit_iff.mp (not_not.mpr hdigit)),
        if_neg (mt not_isDigit_iff.mp (not_not.mpr hdigit)), subIn_digit hdigit,
        Option.bind_eq_bind, Option.bind_some, subIn_eq (by omega), Option.bind_some]
      change (if (int64Max - digitValue character) / 10 < whole then some none else _) =
        some (if (int64Max - digitValue character) / 10 < whole then none
          else parseWhole rest (whole * 10 + digitValue character))
      by_cases hfull : (int64Max - digitValue character) / 10 < whole
      · rw [if_pos hfull, if_pos hfull]
      · rw [if_neg hfull, if_neg hfull, mulIn_eq (by omega), Option.bind_some,
          addIn_eq (by omega), Option.bind_some]
        exact ih (by omega)
    · rw [if_pos (not_isDigit_iff.mpr hdigit), if_pos (not_isDigit_iff.mpr hdigit)]

/-- As long as the digits read and to come fit, none of the unchecked sums wraps. -/
theorem parseFraction64_eq {text : List Char} {fraction : ℕ}
    (h : (fraction + 1) * 10 ^ text.length ≤ int64Max) :
    parseFraction64 text fraction = some (parseFraction text fraction) := by
  induction text generalizing fraction with
  | nil => rfl
  | cons character rest ih =>
    rw [parseFraction64, parseFraction]
    by_cases hdigit : IsDigit character
    · have hle := digitValue_le hdigit
      have hgrow : (fraction * 10 + digitValue character + 1) * 10 ^ rest.length ≤ int64Max := by
        refine le_trans ?_ h
        rw [List.length_cons, pow_succ, mul_comm (10 ^ rest.length), ← mul_assoc]
        exact Nat.mul_le_mul_right _ (by omega)
      have hnext : fraction * 10 + digitValue character + 1 ≤ int64Max :=
        (Nat.le_mul_of_pos_right _ scale_pos).trans hgrow
      rw [if_neg (mt not_isDigit_iff.mp (not_not.mpr hdigit)),
        if_neg (mt not_isDigit_iff.mp (not_not.mpr hdigit)), subIn_digit hdigit,
        Option.bind_eq_bind, Option.bind_some, mulIn_eq (by omega), Option.bind_some,
        addIn_eq (by omega), Option.bind_some]
      exact ih hgrow
    · rw [if_pos (not_isDigit_iff.mpr hdigit), if_pos (not_isDigit_iff.mpr hdigit)]

theorem padFraction64_eq {missing fraction : ℕ} (h : fraction * 10 ^ missing ≤ int64Max) :
    padFraction64 missing fraction = some (fraction * 10 ^ missing) := by
  induction missing generalizing fraction with
  | zero => rw [padFraction64, pow_zero, mul_one]
  | succ missing ih =>
    have hnext : fraction * 10 * 10 ^ missing = fraction * 10 ^ (missing + 1) := by ring
    have hle : fraction * 10 ≤ int64Max := by
      calc fraction * 10 ≤ fraction * 10 * 10 ^ missing := Nat.le_mul_of_pos_right _ scale_pos
        _ ≤ int64Max := hnext ▸ h
    rw [padFraction64, mulIn_eq hle, Option.bind_eq_bind, Option.bind_some, ih (hnext ▸ h), hnext]

/-- **Nothing wraps**, however long the text is. -/
theorem parseScaled64_eq (hscale : 10 ^ F ≤ int64Max) (text : List Char) :
    parseScaled64 (10 ^ F) F text = some (parseScaledNonnegative (10 ^ F) F text) := by
  unfold parseScaled64 parseScaledNonnegative
  dsimp only
  split
  · rfl
  split
  · rfl
  rw [parseWhole64_eq (Nat.zero_le _), Option.bind_eq_bind, Option.bind_some]
  cases hwhole : parseWhole (text.takeWhile (· ≠ '.')) 0 with
  | none => rfl
  | some whole =>
    simp only [divIn_eq scale_pos, Option.bind_eq_bind, Option.bind_some]
    split
    · rfl
    next hlarge =>
    split
    · rfl
    next hafter =>
    have hlength := length_drop_le hafter
    have hroom : (0 + 1) * 10 ^ ((text.dropWhile (· ≠ '.')).drop 1).length ≤ int64Max := by
      rw [Nat.zero_add, Nat.one_mul]
      exact (Nat.pow_le_pow_right (by decide) hlength).trans hscale
    rw [parseFraction64_eq hroom, Option.bind_some]
    cases hdigits : parseFraction ((text.dropWhile (· ≠ '.')).drop 1) 0 with
    | none => rfl
    | some digits =>
      obtain ⟨hfraction_digits, hvalue⟩ := parseFraction_eq_some_iff.mp hdigits
      rw [Nat.zero_mul, Nat.zero_add] at hvalue
      have hpadded := padded_lt hfraction_digits hlength
      rw [hvalue] at hpadded
      have hscaled := (Nat.le_div_iff_mul_le scale_pos).mp (not_lt.mp hlarge)
      simp only [padFraction64_eq (hpadded.le.trans hscale), mulIn_eq hscaled,
        subIn_eq (hpadded.le.trans hscale), Option.bind_some]
      split
      · rfl
      · next hfits => rw [addIn_eq (by omega), Option.bind_some]

/-! ### The parsed values -/

/-- The scaled value is the integer that the parser returns. -/
theorem parse_eq_some_iff_value (hscale : 10 ^ F ≤ int64Max) {text : List Char} {raw : ℕ} :
    parseScaledNonnegative (10 ^ F) F text = some raw ↔
      ∃ decimal : Decimal F, decimal.text = text ∧ decimal.value * 10 ^ F = raw ∧
        decimal.value * 10 ^ F ≤ int64Max := by
  rw [parseScaledNonnegative_eq_some_iff hscale]
  refine exists_congr fun decimal => and_congr_right fun _ => ?_
  rw [← decimal.scaled_eq]
  constructor
  · rintro ⟨rfl, hle⟩
    exact ⟨rfl, by exact_mod_cast hle⟩
  · rintro ⟨hraw, hle⟩
    have hraw : decimal.scaled = raw := by exact_mod_cast hraw
    exact ⟨hraw, hraw ▸ by exact_mod_cast hle⟩

theorem isSome_parse_iff (hscale : 10 ^ F ≤ int64Max) {text : List Char} :
    (parseScaledNonnegative (10 ^ F) F text).isSome ↔
      ∃ decimal : Decimal F, decimal.text = text ∧ decimal.value * 10 ^ F ≤ int64Max := by
  rw [Option.isSome_iff_exists]
  constructor
  · rintro ⟨raw, hraw⟩
    obtain ⟨decimal, htext, -, hle⟩ := (parse_eq_some_iff_value hscale).mp hraw
    exact ⟨decimal, htext, hle⟩
  · rintro ⟨decimal, htext, hle⟩
    exact ⟨decimal.scaled,
      (parse_eq_some_iff_value hscale).mpr ⟨decimal, htext, decimal.scaled_eq.symm, hle⟩⟩

/-- A price is a decimal that is at most one contract unit. -/
theorem Price.parse_eq_some_iff {text : String} {price : Price} :
    Price.parse text = some price ↔ ∃ decimal : Decimal 4, decimal.text = text.toList ∧
      decimal.value ≤ 1 ∧ decimal.value * 10 ^ 4 = price.raw := by
  unfold Price.parse
  rw [Option.bind_eq_bind, Option.bind_eq_some_iff]
  have hscale : 10 ^ 4 ≤ int64Max := by decide
  constructor
  · rintro ⟨raw, hraw, hprice⟩
    obtain ⟨decimal, htext, hvalue, -⟩ := (parse_eq_some_iff_value hscale).mp hraw
    have heq : price.raw = raw := by exact_mod_cast Price.fromRaw_eq_some_iff.mp hprice
    have hle : (price.raw : ℚ) ≤ 10000 := by exact_mod_cast price.le_scale
    exact ⟨decimal, htext, by rw [heq, ← hvalue] at hle; linarith, by rw [hvalue, heq]⟩
  · rintro ⟨decimal, htext, hle, hvalue⟩
    refine ⟨price.raw, (parse_eq_some_iff_value hscale).mpr ⟨decimal, htext, hvalue, ?_⟩,
      Price.fromRaw_eq_some_iff.mpr rfl⟩
    calc decimal.value * 10 ^ 4 ≤ 1 * 10 ^ 4 := by gcongr
      _ ≤ (int64Max : ℚ) := by norm_num

/-- A decimal starts with a digit. -/
theorem Decimal.exists_text_eq_cons (decimal : Decimal F) :
    ∃ first rest, decimal.text = first :: rest ∧ IsDigit first := by
  obtain ⟨first, rest, hwhole⟩ := List.exists_cons_of_ne_nil decimal.whole_ne_nil
  refine ⟨first, rest ++ if decimal.fraction = [] then [] else '.' :: decimal.fraction, ?_,
    decimal.isDigit_whole first (hwhole ▸ List.mem_cons_self)⟩
  unfold text
  rw [hwhole, List.cons_append]

theorem Decimal.text_ne_minus (decimal : Decimal F) (magnitude : List Char) :
    decimal.text ≠ '-' :: magnitude := by
  obtain ⟨first, rest, htext, hdigit⟩ := decimal.exists_text_eq_cons
  intro heq
  obtain ⟨rfl, -⟩ := List.cons.inj (htext ▸ heq)
  exact absurd hdigit.1 (by decide)

theorem cast_eq_some_iff {magnitude : Option ℕ} {raw : ℤ} :
    (do let value ← magnitude; pure (value : ℤ)) = some raw ↔
      ∃ value : ℕ, magnitude = some value ∧ (value : ℤ) = raw := by
  cases magnitude <;> simp

/-- A signed quantity is a decimal after an optional minus. -/
theorem QuantityDelta.parse_eq_some_iff {text : String} {delta : QuantityDelta} :
    QuantityDelta.parse text = some delta ↔ ∃ decimal : Decimal 2,
      decimal.value * 10 ^ 2 ≤ int64Max ∧
        (text.toList = decimal.text ∧ (delta.raw : ℚ) = decimal.value * 10 ^ 2 ∨
          text.toList = '-' :: decimal.text ∧ (delta.raw : ℚ) = -(decimal.value * 10 ^ 2)) := by
  have hscale : 10 ^ 2 ≤ int64Max := by decide
  unfold QuantityDelta.parse
  split
  · next hnil =>
    refine ⟨nofun, ?_⟩
    rintro ⟨decimal, -, ⟨htext, -⟩ | ⟨htext, -⟩⟩
    · obtain ⟨first, rest, hcons, -⟩ := decimal.exists_text_eq_cons
      exact nomatch hnil.symm.trans (htext.trans hcons)
    · exact nomatch hnil.symm.trans htext
  · next magnitude hminus =>
    rw [Option.map_eq_some_iff]
    constructor
    · rintro ⟨_, hcast, rfl⟩
      obtain ⟨raw, hraw, rfl⟩ := cast_eq_some_iff.mp hcast
      obtain ⟨decimal, htext, hvalue, hle⟩ := (parse_eq_some_iff_value hscale).mp hraw
      refine ⟨decimal, hle, .inr ⟨by rw [hminus, htext], ?_⟩⟩
      rw [hvalue]
      push_cast
      rfl
    · rintro ⟨decimal, hle, ⟨htext, -⟩ | ⟨htext, hdelta⟩⟩
      · exact absurd (htext.symm.trans hminus) (decimal.text_ne_minus magnitude)
      · have hmagnitude := (List.cons.inj (hminus.symm.trans htext)).2
        have hparse := (parse_eq_some_iff_value hscale).mpr
          ⟨decimal, hmagnitude.symm, decimal.scaled_eq.symm, hle⟩
        refine ⟨decimal.scaled, cast_eq_some_iff.mpr ⟨_, hparse, rfl⟩, ?_⟩
        rw [← decimal.scaled_eq] at hdelta
        have heq : delta.raw = -(decimal.scaled : ℤ) := by exact_mod_cast hdelta
        rw [← heq]
  · next magnitude hne hplain =>
    rw [Option.map_eq_some_iff]
    constructor
    · rintro ⟨_, hcast, rfl⟩
      obtain ⟨raw, hraw, rfl⟩ := cast_eq_some_iff.mp hcast
      obtain ⟨decimal, htext, hvalue, hle⟩ := (parse_eq_some_iff_value hscale).mp hraw
      refine ⟨decimal, hle, .inl ⟨htext.symm, ?_⟩⟩
      rw [hvalue]
      push_cast
      rfl
    · rintro ⟨decimal, hle, ⟨htext, hdelta⟩ | ⟨htext, -⟩⟩
      · have hparse := (parse_eq_some_iff_value hscale).mpr
          ⟨decimal, htext.symm, decimal.scaled_eq.symm, hle⟩
        refine ⟨decimal.scaled, cast_eq_some_iff.mpr ⟨_, hparse, rfl⟩, ?_⟩
        rw [← decimal.scaled_eq] at hdelta
        have heq : delta.raw = (decimal.scaled : ℤ) := by exact_mod_cast hdelta
        rw [← heq]
      · exact absurd htext (hplain _)

/-- **Decimal texts are parsed exactly.** For every number of fractional digits and every text: on
words nothing wraps; the parser succeeds exactly on the texts of the grammar whose scaled value
fits into a signed word, and returns that value. A price is moreover at most one contract unit, and
a signed quantity may start with a minus. -/
theorem decimal_texts_exact :
    (∀ F, 10 ^ F ≤ int64Max → ∀ text : List Char,
      parseScaled64 (10 ^ F) F text = some (parseScaledNonnegative (10 ^ F) F text) ∧
      ((parseScaledNonnegative (10 ^ F) F text).isSome ↔
        ∃ decimal : Decimal F, decimal.text = text ∧ decimal.value * 10 ^ F ≤ int64Max) ∧
      ∀ raw, parseScaledNonnegative (10 ^ F) F text = some raw ↔
        ∃ decimal : Decimal F, decimal.text = text ∧ decimal.value * 10 ^ F = raw ∧
          decimal.value * 10 ^ F ≤ int64Max) ∧
    (∀ text price, Price.parse text = some price ↔ ∃ decimal : Decimal 4,
      decimal.text = text.toList ∧ decimal.value ≤ 1 ∧ decimal.value * 10 ^ 4 = price.raw) ∧
    ∀ text delta, QuantityDelta.parse text = some delta ↔ ∃ decimal : Decimal 2,
      decimal.value * 10 ^ 2 ≤ int64Max ∧
        (text.toList = decimal.text ∧ (delta.raw : ℚ) = decimal.value * 10 ^ 2 ∨
          text.toList = '-' :: decimal.text ∧ (delta.raw : ℚ) = -(decimal.value * 10 ^ 2)) :=
  ⟨fun _ hscale text => ⟨parseScaled64_eq hscale text, isSome_parse_iff hscale,
    fun _ => parse_eq_some_iff_value hscale⟩, fun _ _ => Price.parse_eq_some_iff,
    fun _ _ => QuantityDelta.parse_eq_some_iff⟩

/-- The instance for prices, at a text with zeros in front and one that is too long. -/
theorem decimal_texts_exact_price :
    (∃ decimal : Decimal 4, decimal.text = "000.5".toList ∧ decimal.value * 10 ^ 4 = 5000) ∧
      ¬∃ decimal : Decimal 4, decimal.text = "0.50000".toList ∧
        decimal.value * 10 ^ 4 ≤ int64Max := by
  obtain ⟨hparse, -, -⟩ := decimal_texts_exact
  constructor
  · obtain ⟨decimal, htext, hvalue, -⟩ :=
      ((hparse 4 (by decide) "000.5".toList).2.2 5000).mp (by decide)
    exact ⟨decimal, htext, hvalue⟩
  · rw [← (hparse 4 (by decide) "0.50000".toList).2.1]
    decide

end EventMarket.Core
