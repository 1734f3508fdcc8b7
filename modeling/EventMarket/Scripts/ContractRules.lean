import Mathlib.Data.Nat.Notation

/-!
# The grammar of the contract rules

The rule of a market is a fixed sentence with a reference time and a strike, or an interval. The
patterns leave no choice: a run of digits always ends at a character that is no digit, so a text
is read from left to right.

## Main definitions

* `ruleMatch`: the sentence of a threshold.
* `rangeMatch`: the sentence of an interval.
-/

namespace EventMarket.Scripts

/-- Remove a text from the front. -/
def dropText : List Char → List Char → Option (List Char)
  | [], rest => some rest
  | _ :: _, [] => none
  | expected :: text, character :: rest => if expected = character then dropText text rest else none

def isDigit (character : Char) : Bool := decide ('0' ≤ character ∧ character ≤ '9')

/-- At most so many digits from the front. -/
def takeDigits : ℕ → List Char → List Char × List Char
  | 0, rest => ([], rest)
  | _ + 1, [] => ([], [])
  | most + 1, character :: rest =>
    if isDigit character then
      let taken := takeDigits most rest
      (character :: taken.1, taken.2)
    else ([], character :: rest)

/-- `[0-9]{least,most}`. -/
def digits (least most : ℕ) (text : List Char) : Option (List Char × List Char) :=
  let taken := takeDigits most text
  if taken.1.length < least then none else some taken

/-- `[0-9]+(?:\.[0-9]+)?`. -/
def decimalText (text : List Char) : Option (List Char × List Char) := do
  let (whole, rest) ← digits 1 text.length text
  match rest with
  | '.' :: fraction =>
    match digits 1 fraction.length fraction with
    | some (digits, rest) => some (whole ++ '.' :: digits, rest)
    | none => some (whole, rest)
  | _ => some (whole, rest)

/-- One of two texts of the same length. -/
def either (first second : String) (text : List Char) : Option (Bool × List Char) :=
  match dropText first.toList text with
  | some rest => some (true, rest)
  | none => (dropText second.toList text).map fun rest => (false, rest)

def numberOf (digits : List Char) : ℕ :=
  digits.foldl (fun number digit => number * 10 + (digit.toNat - '0'.toNat)) 0

/-- The reference hour with the text it was read from. -/
structure ClockTime where
  hour : ℕ
  morning : Bool
  summer : Bool
  text : List Char

/-- `(?P<hour>[0-9]{1,2}) (?P<meridiem>AM|PM) (?P<zone>EDT|EST)`. -/
def clockTime (text : List Char) : Option (ClockTime × List Char) := do
  let (hour, rest) ← digits 1 2 text
  let rest ← dropText [' '] rest
  let (morning, rest) ← either "AM" "PM" rest
  let rest ← dropText [' '] rest
  let (summer, rest) ← either "EDT" "EST" rest
  some (⟨numberOf hour, morning, summer, text.take (text.length - rest.length)⟩, rest)

def monthNames : List String :=
  ["Jan", "Feb", "Mar", "Apr", "May", "Jun", "Jul", "Aug", "Sep", "Oct", "Nov", "Dec"]

/-- `[A-Z][a-z]{2}`. -/
def monthText : List Char → Option (List Char × List Char)
  | first :: second :: third :: rest =>
    if 'A' ≤ first ∧ first ≤ 'Z' ∧ 'a' ≤ second ∧ second ≤ 'z' ∧ 'a' ≤ third ∧ third ≤ 'z' then
      some ([first, second, third], rest)
    else none
  | _ => none

/-- The month of a name, from one. -/
def monthOf (name : List Char) : Option ℕ :=
  let index := monthNames.findIdx fun other => other.toList == name
  if index < 12 then some (index + 1) else none

/-- A sentence that was read. The head ends before the first number, the tail begins after the
last one. -/
structure RuleMatch where
  time : ClockTime
  month : List Char
  day : ℕ
  year : ℕ
  numbers : List (List Char)
  head : List Char
  tail : List Char

/-- The end of the sentence: the same time again, and the date. -/
def ruleEnd (time : ClockTime) (text : List Char) : Option (List Char × ℕ × ℕ) := do
  let rest ← dropText " at ".toList text
  let rest ← dropText time.text rest
  let rest ← dropText " on ".toList rest
  let (month, rest) ← monthText rest
  let rest ← dropText [' '] rest
  let (day, rest) ← digits 1 2 rest
  let rest ← dropText ", ".toList rest
  let (year, rest) ← digits 4 4 rest
  let rest ← dropText ", then the market resolves to Yes.".toList rest
  if rest = [] then some (month, numberOf day, numberOf year) else none

/-- The beginning of the sentence, up to the comparison. -/
def ruleStart (asset index comparison : String) (text : List Char) :
    Option (ClockTime × List Char) := do
  let rest ← dropText ("If the simple average of the sixty seconds of CF Benchmarks' " ++ asset ++
    " Real-Time Index (" ++ index ++ ") before ").toList text
  let (time, rest) ← clockTime rest
  let rest ← dropText comparison.toList rest
  some (time, rest)

/-- The sentence of a threshold. -/
def ruleMatch (asset index : String) (primary : String) : Option RuleMatch := do
  let text := primary.toList
  let (time, rest) ← ruleStart asset index " is above " text
  let (strike, tail) ← decimalText rest
  let (month, day, year) ← ruleEnd time tail
  some ⟨time, month, day, year, [strike], text.take (text.length - rest.length), tail⟩

/-- The sentence of an interval. -/
def rangeMatch (primary : String) : Option RuleMatch := do
  let text := primary.toList
  let (time, rest) ← ruleStart "Bitcoin" "BRTI" " is between " text
  let (lower, middle) ← decimalText rest
  let middle ← dropText ['-'] middle
  let (upper, tail) ← decimalText middle
  let (month, day, year) ← ruleEnd time tail
  some ⟨time, month, day, year, [lower, upper], text.take (text.length - rest.length), tail⟩

end EventMarket.Scripts
