import EventMarket.Gateway.Json
import Mathlib.Algebra.Order.Ring.Unbundled.Rat
import Mathlib.Data.List.Sort
import Mathlib.Data.Prod.Lex
import Mathlib.Data.String.Basic

/-!
# Values of the scripts

The scripts read JSON documents as dictionaries and lists. Their decimal numbers, times, addresses
and hashes come from the standard library, which is a parameter.

## Main definitions

* `Record`, `Record.get`: a dictionary.
* `Library`: the parts of the standard library that the scripts use.
* `truthy`, `flagOf`, `integerOf`: how values count as conditions, flags and integers.
* `ScriptError`: the reasons that the scripts name, and the exceptions that they do not expect.
-/

namespace EventMarket.Scripts

open Gateway

/-- A dictionary; the names are distinct. -/
abbrev Record : Type := List (String × Json)

/-- A field of a dictionary; `None` when it is missing. -/
def Record.get (record : Record) (name : String) : Json := (record.lookup name).getD .null

/-- What `datetime.fromisoformat` makes of a text: an instant in microseconds, a time without a
time zone, a text that is no time, or one whose time in UTC is out of range. -/
inductive IsoTime where
  | instant (micros : ℤ)
  | naive
  | invalid
  | outOfRange
  deriving DecidableEq

/-- The standard library. -/
structure Library where
  /-- `Decimal(str(value))`, when it is a finite number. -/
  decimal : Json → Option ℚ
  /-- A product in the decimal context, unless it overflows. -/
  times : ℚ → ℤ → Option ℚ
  isoTime : String → IsoTime
  /-- `isoformat` of an instant in UTC. -/
  showTime : ℤ → String
  /-- `datetime` of a year, month, day and hour at an offset in hours. -/
  civil : ℕ → ℕ → ℕ → ℕ → ℤ → Option ℤ
  /-- The scheme, the authority, the path and the fragment of an address. -/
  urlsplit : String → Option (String × String × String × String)
  /-- The hash of the canonical text of a document, unless it cannot be written. -/
  digest : Json → Option String

/-- The fixed reason codes, and the exceptions that are not caught. -/
inductive ScriptError where
  | family (reason : String)
  | selection (reason : String)
  | uncaught
  deriving DecidableEq

/-- Whether a value is this text. -/
def isText (value : Json) (text : String) : Bool :=
  match value with
  | .string other => other == text
  | _ => false

def isTrue : Json → Bool
  | .boolean true => true
  | _ => false

def isFalse : Json → Bool
  | .boolean false => true
  | _ => false

def isNone : Json → Bool
  | .null => true
  | _ => false

/-- Whether a value counts as true. -/
def truthy (library : Library) : Json → Bool
  | .null => false
  | .boolean value => value
  | .string text => !text.isEmpty
  | .array items => !items.isEmpty
  | .object fields => !fields.isEmpty
  | .unsigned value => value != 0
  | .negative value => value != 0
  | .float text => decide (library.decimal (.float text) ≠ some 0)

/-- An integer that is not a truth value. -/
def integerOf : Json → Option ℤ
  | .unsigned value => some value
  | .negative value => some (-value)
  | _ => none

/-- The value that is equal to `None`, `False` or `True`; a number may be equal to a truth value. -/
def flagOf (library : Library) : Json → Option (Option Bool)
  | .null => some none
  | .boolean value => some (some value)
  | .unsigned value =>
    if value = 0 then some (some false) else if value = 1 then some (some true) else none
  | .negative value => if value = 0 then some (some false) else none
  | .float text =>
    if library.decimal (.float text) = some 0 then some (some false)
    else if library.decimal (.float text) = some 1 then some (some true)
    else none
  | _ => none

/-- A list sorted by a key; the sort is stable. -/
def sortedBy {α β : Type} [LE β] [DecidableLE β] (key : α → β) (items : List α) : List α :=
  items.insertionSort fun item other => key item ≤ key other

section Sorting

variable {α β : Type} [LinearOrder β] (key : α → β) (items : List α)

theorem sortedBy_perm : (sortedBy key items).Perm items := List.perm_insertionSort _ _

theorem sortedBy_pairwise : (sortedBy key items).Pairwise fun item other => key item ≤ key other :=
  have : Std.Total fun item other : α => key item ≤ key other := ⟨fun _ _ => le_total _ _⟩
  have : IsTrans α fun item other => key item ≤ key other := ⟨fun _ _ _ => le_trans⟩
  List.pairwise_insertionSort _ items

@[simp] theorem mem_sortedBy {key : α → β} {items : List α} {item : α} :
    item ∈ sortedBy key items ↔ item ∈ items := (sortedBy_perm key items).mem_iff

end Sorting

end EventMarket.Scripts
