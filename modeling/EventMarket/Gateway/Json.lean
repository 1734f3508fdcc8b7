import Mathlib.Data.Nat.Notation

/-!
# JSON values

The values of the JSON library that the gateway and the sessions read. The text itself is parsed
and printed by the library, which is a parameter of what uses it: a parse reports its events one
after the other, so that a caller can reject a document while it is read.

## Main definitions

* `Json`: values; a number keeps whether it was written unsigned.
* `Json.find`, `Json.contains`: the fields of an object.
* `JsonLibrary`: parsing and printing.
-/

namespace EventMarket.Gateway

/-- The values of the library. The fields of an object are sorted by their names. -/
inductive Json where
  | null
  | boolean (value : Bool)
  | unsigned (value : ℕ)
  | negative (value : ℕ)
  | float (text : String)
  | string (value : String)
  | array (items : List Json)
  | object (fields : List (String × Json))

namespace Json

/-- A field of an object; other values have none. -/
def find (value : Json) (name : String) : Option Json :=
  match value with
  | .object fields => fields.lookup name
  | _ => none

def contains (value : Json) (name : String) : Bool := (value.find name).isSome

def isObject : Json → Bool
  | .object _ => true
  | _ => false

end Json

/-- What the library reports while it parses. -/
inductive ParseEvent where
  | objectStart
  | objectEnd
  | arrayStart
  | arrayEnd
  | key (name : String)
  | value

/-- A parse: the events with their depths up to the end or to a syntax error, and the value when
there is none. -/
structure Parsed where
  events : List (ℕ × ParseEvent)
  value : Option Json

/-- The JSON library: parsing bytes and printing values. -/
structure JsonLibrary where
  parse : List UInt8 → Parsed
  dump : Json → List UInt8

end EventMarket.Gateway
