import EventMarket.Gateway.JsonStrict
import Mathlib.Data.Nat.Digits.Lemmas

/-!
# Compact JSON text

The text that the library prints: no whitespace, the fields in the order of their names, and the
bytes of a text as they are but for quotes, backslashes and control characters. Reading back what
was printed gives the value, so that a library with these properties exists.

## Main definitions

* `Json.text`: the compact text of a value.
* `readValue`: the value at the start of a text.
* `compactLibrary`: the library that reads what it prints.

## Main results

* `readValue_text`: what was printed is read back.
* `compactLibrary_lawful`: the library is lawful.
-/

namespace EventMarket.Gateway

open Core

/-! ### Printing -/

/-- The escapes of one letter. -/
def shortEscapes : List (UInt8 × UInt8) :=
  [(34, 34), (92, 92), (8, 98), (9, 116), (10, 110), (12, 102), (13, 114)]

def hexDigit (value : UInt8) : UInt8 := if value < 10 then 48 + value else 87 + value

/-- A byte of a text. -/
def escapeByte (byte : UInt8) : List UInt8 :=
  match shortEscapes.lookup byte with
  | some letter => [92, letter]
  | none =>
    if byte < 32 then [92, 117, 48, 48, hexDigit (byte / 16), hexDigit (byte % 16)] else [byte]

def stringText (value : String) : List UInt8 :=
  34 :: (value.toByteArray.data.toList.flatMap escapeByte ++ [34])

def decimalText (value : ℕ) : List UInt8 :=
  if value = 0 then [48] else (Nat.digits 10 value).reverse.map fun digit => (48 + digit).toUInt8

namespace Json

mutual

/-- The compact text of a value. -/
def text : Json → List UInt8
  | .null => [110, 117, 108, 108]
  | .boolean true => [116, 114, 117, 101]
  | .boolean false => [102, 97, 108, 115, 101]
  | .unsigned value => decimalText value
  | .negative value => 45 :: decimalText value
  | .float value => value.toByteArray.data.toList
  | .string value => stringText value
  | .array [] => [91, 93]
  | .array (item :: items) => 91 :: (text item ++ itemsText items)
  | .object [] => [123, 125]
  | .object ((name, value) :: fields) =>
    123 :: (stringText name ++ 58 :: (text value ++ fieldsText fields))

/-- The text after the first item of an array. -/
def itemsText : List Json → List UInt8
  | [] => [93]
  | item :: items => 44 :: (text item ++ itemsText items)

/-- The text after the first field of an object. -/
def fieldsText : List (String × Json) → List UInt8
  | [] => [125]
  | (name, value) :: fields =>
    44 :: (stringText name ++ 58 :: (text value ++ fieldsText fields))

end

end Json

/-! ### Reading -/

def hexValue (digit : UInt8) : UInt8 := if digit < 58 then digit - 48 else digit - 87

/-- One byte of a text. -/
def readByte (bytes : List UInt8) : Option (UInt8 × List UInt8) :=
  match bytes with
  | [] => none
  | first :: rest =>
    if first ≠ 92 then some (first, rest)
    else
      match rest with
      | [] => none
      | letter :: rest =>
        if letter = 117 then
          match rest with
          | 48 :: 48 :: high :: low :: rest => some (hexValue high * 16 + hexValue low, rest)
          | _ => none
        else (shortEscapes.find? fun escape => escape.2 == letter).map fun escape =>
          (escape.1, rest)

/-- The bytes of a text up to its closing quote. -/
def readBytes : ℕ → List UInt8 → Option (List UInt8 × List UInt8)
  | 0, _ => none
  | fuel + 1, bytes =>
    if bytes.head? = some 34 then some ([], bytes.tail)
    else (readByte bytes).bind fun (byte, rest) =>
      (readBytes fuel rest).map fun (bytes, rest) => (byte :: bytes, rest)

/-- A text after its opening quote. -/
def readQuoted (bytes : List UInt8) : Option (String × List UInt8) :=
  (readBytes bytes.length bytes).bind fun (text, rest) =>
    (String.fromUTF8? ⟨text.toArray⟩).map fun text => (text, rest)

def isDigit (byte : UInt8) : Bool := 48 ≤ byte && byte ≤ 57

/-- A number in decimal digits. -/
def readDecimal (bytes : List UInt8) : ℕ × List UInt8 :=
  (Nat.ofDigits 10 ((bytes.takeWhile isDigit).reverse.map fun digit => digit.toNat - 48),
    bytes.dropWhile isDigit)

def readLiteral (literal : List UInt8) (value : Json) (bytes : List UInt8) :
    Option (Json × List UInt8) :=
  if literal.isPrefixOf bytes then some (value, bytes.drop literal.length) else none

mutual

/-- The value at the start of a text and the rest of the text. -/
def readValue : ℕ → List UInt8 → Option (Json × List UInt8)
  | 0, _ => none
  | _ + 1, [] => none
  | fuel + 1, first :: rest =>
    if first = 110 then readLiteral [117, 108, 108] .null rest
    else if first = 116 then readLiteral [114, 117, 101] (.boolean true) rest
    else if first = 102 then readLiteral [97, 108, 115, 101] (.boolean false) rest
    else if first = 34 then (readQuoted rest).map fun (text, rest) => (.string text, rest)
    else if first = 91 then
      if rest.head? = some 93 then some (.array [], rest.tail)
      else (readItems fuel rest).map fun (items, rest) => (.array items, rest)
    else if first = 123 then
      if rest.head? = some 125 then some (.object [], rest.tail)
      else (readFields fuel rest).map fun (fields, rest) => (.object fields, rest)
    else if first = 45 then some (.negative (readDecimal rest).1, (readDecimal rest).2)
    else if isDigit first then
      some (.unsigned (readDecimal (first :: rest)).1, (readDecimal (first :: rest)).2)
    else none

/-- The items of an array up to its end. -/
def readItems : ℕ → List UInt8 → Option (List Json × List UInt8)
  | 0, _ => none
  | fuel + 1, bytes =>
    (readValue fuel bytes).bind fun (item, rest) =>
      if rest.head? = some 93 then some ([item], rest.tail)
      else if rest.head? = some 44 then
        (readItems fuel rest.tail).map fun (items, rest) => (item :: items, rest)
      else none

/-- The fields of an object up to its end. -/
def readFields : ℕ → List UInt8 → Option (List (String × Json) × List UInt8)
  | 0, _ => none
  | fuel + 1, bytes =>
    if bytes.head? ≠ some 34 then none
    else (readQuoted bytes.tail).bind fun (name, rest) =>
      if rest.head? ≠ some 58 then none
      else (readValue fuel rest.tail).bind fun (value, rest) =>
        if rest.head? = some 125 then some ([(name, value)], rest.tail)
        else if rest.head? = some 44 then
          (readFields fuel rest.tail).map fun (fields, rest) => ((name, value) :: fields, rest)
        else none

end

/-! ### Reading back texts and numbers -/

theorem hexValue_hexDigit {byte : UInt8} (h : byte < 32) :
    hexValue (hexDigit (byte / 16)) * 16 + hexValue (hexDigit (byte % 16)) = byte := by
  have hall : ∀ value < 32, hexValue (hexDigit (UInt8.ofNat value / 16)) * 16 +
      hexValue (hexDigit (UInt8.ofNat value % 16)) = UInt8.ofNat value := by decide
  simpa using hall byte.toNat h

theorem shortEscapes_find {escape : UInt8 × UInt8} (h : escape ∈ shortEscapes) :
    escape.2 ≠ 117 ∧ (shortEscapes.find? fun other => other.2 == escape.2) = some escape := by
  have hall : (shortEscapes.all fun escape => decide (escape.2 ≠ 117 ∧
      (shortEscapes.find? fun other => other.2 == escape.2) = some escape)) = true := by decide
  exact of_decide_eq_true (List.all_eq_true.mp hall escape h)

/-- A printed byte is read back, and it is not a closing quote. -/
theorem readByte_escapeByte (byte : UInt8) (rest : List UInt8) :
    readByte (escapeByte byte ++ rest) = some (byte, rest) ∧
      (escapeByte byte ++ rest).head? ≠ some 34 := by
  unfold escapeByte
  cases hletter : shortEscapes.lookup byte with
  | some letter =>
    obtain ⟨before, after, heq, -⟩ := List.lookup_eq_some_iff.mp hletter
    obtain ⟨hunicode, hfind⟩ := shortEscapes_find (heq ▸ by simp : (byte, letter) ∈ shortEscapes)
    refine ⟨?_, by simp⟩
    simp only [List.cons_append, List.nil_append, readByte, ne_eq, not_true_eq_false, if_false]
    rw [if_neg hunicode]
    exact congrArg (Option.map fun escape : UInt8 × UInt8 => (escape.1, rest)) hfind
  | none =>
    have hnot := List.lookup_eq_none_iff.mp hletter
    have hbackslash : byte ≠ 92 := by simpa using hnot (92, 92) (by decide)
    have hquote : byte ≠ 34 := by simpa using hnot (34, 34) (by decide)
    dsimp only
    split_ifs with hcontrol
    · refine ⟨?_, by simp⟩
      simp [readByte, hexValue_hexDigit hcontrol]
    · refine ⟨?_, by simpa using hquote⟩
      simp [readByte, hbackslash]

theorem readBytes_escaped (bytes rest : List UInt8) {fuel : ℕ} (hfuel : bytes.length < fuel) :
    readBytes fuel (bytes.flatMap escapeByte ++ 34 :: rest) = some (bytes, rest) := by
  induction bytes generalizing fuel with
  | nil =>
    obtain ⟨fuel, rfl⟩ := Nat.exists_eq_add_of_lt hfuel
    simp [readBytes]
  | cons byte bytes ih =>
    obtain ⟨fuel, rfl⟩ : ∃ more, fuel = more + 1 := ⟨fuel - 1, by omega⟩
    obtain ⟨hread, hhead⟩ := readByte_escapeByte byte (bytes.flatMap escapeByte ++ 34 :: rest)
    rw [List.flatMap_cons, List.append_assoc, readBytes, if_neg hhead, hread]
    simp only [Option.bind_some]
    rw [ih (by simpa using hfuel)]
    rfl

theorem length_le_escaped (bytes : List UInt8) :
    bytes.length ≤ (bytes.flatMap escapeByte).length := by
  induction bytes with
  | nil => simp
  | cons byte bytes ih =>
    have hbyte : 1 ≤ (escapeByte byte).length := by
      unfold escapeByte
      cases shortEscapes.lookup byte with
      | some => simp
      | none => dsimp only; split_ifs <;> simp
    rw [List.flatMap_cons, List.length_append, List.length_cons]
    omega

/-- **A printed text is read back.** -/
theorem readQuoted_stringText (value : String) (rest : List UInt8) :
    readQuoted ((stringText value ++ rest).tail) = some (value, rest) := by
  have hlength := length_le_escaped value.toByteArray.data.toList
  unfold readQuoted stringText
  simp only [List.cons_append, List.tail_cons, List.append_assoc, List.nil_append]
  rw [readBytes_escaped _ rest (by simp only [List.length_append, List.length_cons]; omega)]
  simp only [Option.bind_some, Array.toArray_toList]
  rw [String.fromUTF8?, dif_pos value.isValidUTF8]
  rfl

theorem isDigit_decimalText {value : ℕ} : ∀ byte ∈ decimalText value, isDigit byte = true := by
  have hall : ∀ digit < 10, isDigit (48 + digit).toUInt8 = true := by decide
  unfold decimalText
  split_ifs
  · exact List.forall_mem_singleton.mpr rfl
  · intro byte hbyte
    obtain ⟨digit, hdigit, rfl⟩ := List.mem_map.mp hbyte
    exact hall digit (Nat.digits_lt_base (by decide) (List.mem_reverse.mp hdigit))

theorem ofDigits_decimalText (value : ℕ) :
    Nat.ofDigits 10 ((decimalText value).reverse.map fun digit => digit.toNat - 48) = value := by
  have hall : ∀ digit < 10, (48 + digit).toUInt8.toNat - 48 = digit := by decide
  unfold decimalText
  split_ifs with hzero
  · simp [hzero]
  · rw [← List.map_reverse, List.reverse_reverse, List.map_map]
    have hdigits : (Nat.digits 10 value).map ((fun digit : UInt8 => digit.toNat - 48) ∘
        fun digit => (48 + digit).toUInt8) = Nat.digits 10 value := by
      conv_rhs => rw [← List.map_id (Nat.digits 10 value)]
      exact List.map_congr_left fun digit hdigit =>
        hall digit (Nat.digits_lt_base (by decide) hdigit)
    rw [hdigits, Nat.ofDigits_digits]

/-- **A printed number is read back** when no digit follows. -/
theorem readDecimal_decimalText (value : ℕ) {rest : List UInt8}
    (hrest : ∀ byte ∈ rest.head?, isDigit byte = false) :
    readDecimal (decimalText value ++ rest) = (value, rest) := by
  have hend : rest.takeWhile isDigit = [] ∧ rest.dropWhile isDigit = rest := by
    cases rest with
    | nil => simp
    | cons byte rest => simp [hrest byte rfl]
  unfold readDecimal
  rw [List.takeWhile_append_of_pos isDigit_decimalText, hend.1, List.append_nil,
    List.dropWhile_append_of_pos isDigit_decimalText, hend.2, ofDigits_decimalText]

/-! ### Reading back values -/

/-- What follows a value: nothing, a line break, a separator or an end. -/
def Delimited (rest : List UInt8) : Prop := ∀ byte ∈ rest.head?, isDigit byte = false

theorem delimited_itemsText (items : List Json) (rest : List UInt8) :
    Delimited (Json.itemsText items ++ rest) := by
  cases items <;> simp [Delimited, Json.itemsText, isDigit]

theorem delimited_fieldsText (fields : List (String × Json)) (rest : List UInt8) :
    Delimited (Json.fieldsText fields ++ rest) := by
  cases fields <;> simp [Delimited, Json.fieldsText, isDigit]

/-- A value that is read back, given more fuel than its text is long. -/
def Reads (value : Json) : Prop :=
  ∀ fuel rest, value.text.length ≤ fuel → Delimited rest →
    readValue (fuel + 1) (value.text ++ rest) = some (value, rest)

theorem exists_decimalText (value : ℕ) : ∃ first more, decimalText value = first :: more ∧
    isDigit first = true := by
  cases htext : decimalText value with
  | nil =>
    unfold decimalText at htext
    split_ifs at htext with hzero
    rw [List.map_eq_nil_iff, List.reverse_eq_nil_iff, Nat.digits_eq_nil_iff_eq_zero] at htext
    exact absurd htext hzero
  | cons first more =>
    exact ⟨first, more, rfl, isDigit_decimalText first (htext ▸ List.mem_cons_self)⟩

theorem reads_unsigned (value : ℕ) : Reads (.unsigned value) := by
  intro fuel rest _ hrest
  obtain ⟨first, more, hfirst, hdigit⟩ := exists_decimalText value
  have hdecimal := readDecimal_decimalText value hrest
  have hne {byte : UInt8} (h : isDigit byte = false) : first ≠ byte := fun heq => by
    rw [heq, h] at hdigit
    cases hdigit
  rw [Json.text, hfirst, List.cons_append, readValue]
  rw [if_neg (hne (by decide)), if_neg (hne (by decide)), if_neg (hne (by decide)),
    if_neg (hne (by decide)), if_neg (hne (by decide)), if_neg (hne (by decide)),
    if_neg (hne (by decide)), if_pos hdigit, ← List.cons_append, ← hfirst, hdecimal]

theorem reads_negative (value : ℕ) : Reads (.negative value) := by
  intro fuel rest _ hrest
  rw [Json.text, List.cons_append, readValue]
  simp [readDecimal_decimalText value hrest]

theorem reads_string (value : String) : Reads (.string value) := by
  intro fuel rest _ _
  have hread := readQuoted_stringText value rest
  rw [Json.text, stringText, List.cons_append, readValue]
  rw [stringText, List.cons_append, List.tail_cons] at hread
  rw [if_neg (by decide), if_neg (by decide), if_neg (by decide), if_pos rfl, hread]
  rfl

theorem readItems_text {items : List Json} {item : Json} (hitem : Reads item)
    (hitems : ∀ other ∈ items, Reads other) {fuel : ℕ} (rest : List UInt8)
    (hfuel : item.text.length + (Json.itemsText items).length < fuel) :
    readItems fuel (item.text ++ (Json.itemsText items ++ rest)) = some (item :: items, rest) := by
  induction items generalizing item fuel with
  | nil =>
    rw [Json.itemsText, List.length_singleton] at hfuel
    obtain ⟨fuel, rfl⟩ : ∃ more, fuel = more + 2 := ⟨fuel - 2, by omega⟩
    rw [readItems, hitem fuel _ (by omega) (delimited_itemsText [] rest)]
    simp [Json.itemsText]
  | cons other items ih =>
    rw [Json.itemsText, List.length_cons, List.length_append] at hfuel
    obtain ⟨fuel, rfl⟩ : ∃ more, fuel = more + 2 := ⟨fuel - 2, by omega⟩
    rw [readItems, hitem fuel _ (by omega) (delimited_itemsText (other :: items) rest)]
    have hrest := ih (hitems other List.mem_cons_self)
      (fun more hmore => hitems more (List.mem_cons_of_mem _ hmore))
      (by omega : other.text.length + (Json.itemsText items).length < fuel + 1)
    simp [Json.itemsText, List.append_assoc, hrest]

theorem readFields_text {fields : List (String × Json)} {name : String} {value : Json}
    (hvalue : Reads value) (hfields : ∀ field ∈ fields, Reads field.2) {fuel : ℕ}
    (rest : List UInt8) (hfuel : value.text.length + (Json.fieldsText fields).length < fuel) :
    readFields fuel (stringText name ++ 58 :: (value.text ++ (Json.fieldsText fields ++ rest))) =
      some ((name, value) :: fields, rest) := by
  induction fields generalizing name value fuel with
  | nil =>
    rw [Json.fieldsText, List.length_singleton] at hfuel
    obtain ⟨fuel, rfl⟩ : ∃ more, fuel = more + 2 := ⟨fuel - 2, by omega⟩
    rw [readFields, if_neg (by simp [stringText]), readQuoted_stringText]
    simp only [Option.bind_some, List.head?_cons, ne_eq, not_true_eq_false, if_false,
      List.tail_cons]
    rw [hvalue fuel _ (by omega) (delimited_fieldsText [] rest)]
    simp [Json.fieldsText]
  | cons other fields ih =>
    obtain ⟨otherName, otherValue⟩ := other
    rw [Json.fieldsText, List.length_cons, List.length_append, List.length_cons,
      List.length_append] at hfuel
    obtain ⟨fuel, rfl⟩ : ∃ more, fuel = more + 2 := ⟨fuel - 2, by omega⟩
    rw [readFields, if_neg (by simp [stringText]), readQuoted_stringText]
    simp only [Option.bind_some, List.head?_cons, ne_eq, not_true_eq_false, if_false,
      List.tail_cons]
    rw [hvalue fuel _ (by omega) (delimited_fieldsText ((otherName, otherValue) :: fields) rest)]
    have hrest := @ih otherName otherValue (hfields _ List.mem_cons_self)
      (fun more hmore => hfields more (List.mem_cons_of_mem _ hmore)) (fuel + 1)
      (by omega : otherValue.text.length + (Json.fieldsText fields).length < fuel + 1)
    simp [Json.fieldsText, List.append_assoc, hrest]

/-- The text of a value does not start with the end of an array. -/
theorem Reads.head_ne {value : Json} (h : Reads value) (rest : List UInt8) :
    (value.text ++ rest).head? ≠ some 93 := by
  have hread := h value.text.length [] le_rfl (by simp [Delimited])
  rw [List.append_nil] at hread
  generalize value.text.length = fuel at hread
  cases htext : value.text with
  | nil =>
    rw [htext, readValue] at hread
    cases hread
  | cons first more =>
    intro hhead
    obtain rfl : first = 93 := by simpa using hhead
    rw [htext, readValue, if_neg (by decide), if_neg (by decide), if_neg (by decide),
      if_neg (by decide), if_neg (by decide), if_neg (by decide), if_neg (by decide),
      if_neg (by decide)] at hread
    cases hread

theorem reads_array {items : List Json} (hitems : ∀ item ∈ items, Reads item) :
    Reads (.array items) := by
  intro fuel rest hfuel _
  cases items with
  | nil => simp [Json.text, readValue]
  | cons item items =>
    rw [Json.text, List.length_cons, List.length_append] at hfuel
    have hitem := hitems item List.mem_cons_self
    have hread := readItems_text hitem
      (fun other hother => hitems other (List.mem_cons_of_mem _ hother)) rest
      (by omega : item.text.length + (Json.itemsText items).length < fuel)
    rw [Json.text, List.cons_append, List.append_assoc, readValue, if_neg (by decide),
      if_neg (by decide), if_neg (by decide), if_neg (by decide), if_pos rfl,
      if_neg (hitem.head_ne _), hread]
    rfl

theorem reads_object {fields : List (String × Json)} (hfields : ∀ field ∈ fields, Reads field.2) :
    Reads (.object fields) := by
  intro fuel rest hfuel _
  cases fields with
  | nil => simp [Json.text, readValue]
  | cons field fields =>
    obtain ⟨name, value⟩ := field
    rw [Json.text, List.length_cons, List.length_append, List.length_cons,
      List.length_append] at hfuel
    have hread := @readFields_text fields name value (hfields _ List.mem_cons_self)
      (fun other hother => hfields other (List.mem_cons_of_mem _ hother)) fuel rest (by omega)
    rw [Json.text, List.cons_append, List.append_assoc, List.cons_append, List.append_assoc,
      readValue, if_neg (by decide), if_neg (by decide), if_neg (by decide), if_neg (by decide),
      if_neg (by decide), if_pos rfl, if_neg (by simp [stringText]), hread]
    rfl

/-- **What was printed is read back.** -/
theorem readValue_text {depth : ℕ} {value : Json} (h : value.Plain depth) : Reads value := by
  induction h with
  | null =>
    intro fuel rest _ _
    simp [Json.text, readValue, readLiteral]
  | boolean value =>
    intro fuel rest _ _
    cases value <;> simp [Json.text, readValue, readLiteral]
  | unsigned => exact reads_unsigned _
  | negative => exact reads_negative _
  | string value => exact reads_string value
  | array _ ih => exact reads_array ih
  | object _ _ ih => exact reads_object ih

/-! ### A lawful library -/

namespace Json

mutual

/-- Whether a parse can give the value. -/
def isStored : Json → Bool
  | .unsigned value => value ≤ uint64Max
  | .negative value => value ≤ int64Max + 1
  | .array items => areStored items
  | .object fields => decide ((fields.map Prod.fst).Pairwise (· < ·)) && haveStored fields
  | _ => true

def areStored : List Json → Bool
  | [] => true
  | item :: items => isStored item && areStored items

def haveStored : List (String × Json) → Bool
  | [] => true
  | (_, value) :: fields => isStored value && haveStored fields

end

theorem stored_of_isStored : (value : Json) → value.isStored = true → value.Stored
  | .null, _ => .null
  | .boolean value, _ => .boolean value
  | .unsigned _, h => .unsigned (of_decide_eq_true h)
  | .negative _, h => .negative (of_decide_eq_true h)
  | .float text, _ => .float text
  | .string value, _ => .string value
  | .array items, h => .array (stored_of_areStored items h)
  | .object fields, h => by
    rw [isStored, Bool.and_eq_true, decide_eq_true_eq] at h
    exact .object h.1 (stored_of_haveStored fields h.2)
where
  stored_of_areStored : (items : List Json) → areStored items = true →
      ∀ item ∈ items, item.Stored
    | [], _ => by simp
    | item :: items, h => by
      rw [areStored, Bool.and_eq_true] at h
      exact List.forall_mem_cons.mpr ⟨stored_of_isStored item h.1, stored_of_areStored items h.2⟩
  stored_of_haveStored : (fields : List (String × Json)) → haveStored fields = true →
      ∀ field ∈ fields, field.2.Stored
    | [], _ => by simp
    | (_, value) :: fields, h => by
      rw [haveStored, Bool.and_eq_true] at h
      exact List.forall_mem_cons.mpr
        ⟨stored_of_isStored value h.1, stored_of_haveStored fields h.2⟩

theorem areStored_of_forall {items : List Json} (h : ∀ item ∈ items, item.isStored = true) :
    areStored items = true := by
  induction items with
  | nil => rfl
  | cons item items ih =>
    rw [areStored, h item List.mem_cons_self, ih fun other hother =>
      h other (List.mem_cons_of_mem _ hother)]
    rfl

theorem haveStored_of_forall {fields : List (String × Json)}
    (h : ∀ field ∈ fields, field.2.isStored = true) : haveStored fields = true := by
  induction fields with
  | nil => rfl
  | cons field fields ih =>
    obtain ⟨name, value⟩ := field
    rw [haveStored, h (name, value) List.mem_cons_self, ih fun other hother =>
      h other (List.mem_cons_of_mem _ hother)]
    rfl

theorem isStored_of_plain {depth : ℕ} {value : Json} (h : value.Plain depth) :
    value.isStored = true := by
  induction h with
  | null | boolean | string => rfl
  | unsigned hle | negative _ hle => exact decide_eq_true hle
  | array _ ih => exact areStored_of_forall ih
  | object hsorted _ ih =>
    rw [isStored, decide_eq_true hsorted, haveStored_of_forall ih]
    rfl

/-! ### The length of a text -/

theorem length_itemsText (items : List Json) :
    (itemsText items).length = 1 + (items.map fun item => item.text.length + 1).sum := by
  induction items with
  | nil => rfl
  | cons item items ih =>
    rw [itemsText, List.length_cons, List.length_append, ih, List.map_cons, List.sum_cons]
    omega

theorem length_text_array (items : List Json) :
    (text (.array items)).length =
      if items = [] then 2 else 1 + (items.map fun item => item.text.length + 1).sum := by
  cases items with
  | nil => rfl
  | cons item items =>
    rw [text, List.length_cons, List.length_append, length_itemsText, if_neg (by simp),
      List.map_cons, List.sum_cons]
    omega

theorem length_fieldsText (fields : List (String × Json)) :
    (fieldsText fields).length =
      1 + (fields.map fun field => (stringText field.1).length + field.2.text.length + 2).sum := by
  induction fields with
  | nil => rfl
  | cons field fields ih =>
    obtain ⟨name, value⟩ := field
    rw [fieldsText, List.length_cons, List.length_append, List.length_cons, List.length_append, ih,
      List.map_cons, List.sum_cons]
    dsimp only
    omega

theorem length_text_object (fields : List (String × Json)) :
    (text (.object fields)).length = if fields = [] then 2 else
      1 + (fields.map fun field => (stringText field.1).length + field.2.text.length + 2).sum := by
  cases fields with
  | nil => rfl
  | cons field fields =>
    obtain ⟨name, value⟩ := field
    rw [text, List.length_cons, List.length_append, List.length_cons, List.length_append,
      length_fieldsText, if_neg (by simp), List.map_cons, List.sum_cons]
    dsimp only
    omega

/-- The order of the items does not change how long a text is. -/
theorem Reordered.length_text {value other : Json} (h : value.Reordered other) :
    other.text.length = value.text.length := by
  induction h with
  | refl => rfl
  | items hperm =>
    rw [length_text_array, length_text_array, (hperm.map _).sum_eq]
    simp only [← List.isEmpty_iff, hperm.isEmpty_eq]
  | field _ before after ih =>
    rw [length_text_object, length_text_object]
    simp [ih]
  | trans _ _ ih ih' => exact ih'.trans ih

end Json

/-- The library prints the compact text. -/
def JsonLibrary.PrintsCompact (library : JsonLibrary) : Prop :=
  ∀ depth value, Json.Plain depth value → library.dump value = value.text

/-- The library that reads what it prints, also with a line break after it. -/
def compactLibrary : JsonLibrary where
  dump := Json.text
  parse bytes :=
    match readValue (bytes.length + 1) bytes with
    | some (value, rest) =>
      if (rest = [] ∨ rest = [10]) ∧ value.isStored = true ∧ value.text ++ rest = bytes then
        ⟨value.events 0, some value⟩
      else ⟨[], none⟩
    | none => ⟨[], none⟩

theorem compactLibrary_parse {depth : ℕ} {value : Json} (h : value.Plain depth)
    {rest : List UInt8} (hrest : rest = [] ∨ rest = [10]) :
    compactLibrary.parse (value.text ++ rest) = ⟨value.events 0, some value⟩ := by
  have hdelimited : Delimited rest := by
    rcases hrest with rfl | rfl <;> simp [Delimited, isDigit]
  have hread := readValue_text h (value.text ++ rest).length rest
    (by rw [List.length_append]; omega) hdelimited
  simp only [compactLibrary, hread]
  rw [if_pos ⟨hrest, Json.isStored_of_plain h, trivial⟩]

theorem compactLibrary_value {bytes : List UInt8} {value : Json}
    (h : (compactLibrary.parse bytes).value = some value) :
    value.isStored = true ∧ ∃ rest, value.text ++ rest = bytes := by
  simp only [compactLibrary] at h
  cases hread : readValue (bytes.length + 1) bytes with
  | none => simp [hread] at h
  | some result =>
    obtain ⟨read, rest⟩ := result
    simp only [hread] at h
    split_ifs at h with hchecked
    obtain rfl := Option.some.inj h
    exact ⟨hchecked.2.1, rest, hchecked.2.2⟩

theorem compactLibrary_printsCompact : compactLibrary.PrintsCompact := fun _ _ _ => rfl

/-- **The library is lawful.** -/
theorem compactLibrary_lawful : compactLibrary.Lawful where
  stored bytes value h := value.stored_of_isStored (compactLibrary_value h).1
  parse_dump depth value h := by
    simpa [compactLibrary] using compactLibrary_parse h (Or.inl rfl)
  parse_line depth value h := compactLibrary_parse h (Or.inr rfl)
  compact bytes value other h depth _ hreordered := by
    obtain ⟨-, rest, rfl⟩ := compactLibrary_value h
    rw [show compactLibrary.dump other = other.text from rfl, hreordered.length_text,
      List.length_append]
    omega

end EventMarket.Gateway
