import EventMarket.Gateway.Json
import EventMarket.Core.FixedPoint

/-!
# Strict JSON of the sessions

The sessions read JSON strictly: a document is refused when it nests too deep or repeats a field
name, and a field is read with its exact type and a bound.

## Main definitions

* `StudyException`: an error that names a field, or one of the JSON library.
* `parseStrict`: parsing with the check of depth and names.
* `integer`, `string`: bounded fields.
-/

namespace EventMarket.Session

open Core Gateway

/-- What reading a document may throw. -/
inductive StudyException where
  | replay (field : String) (recordIndex : ℕ)
  | json
  deriving DecidableEq, Repr

/-- The error that names a field. -/
def invalid {α : Type} (field : String) : Except StudyException α := .error (.replay field 0)

/-- A field that must be there. -/
def Json.fieldAt (value : Json) (field : String) : Except StudyException Json :=
  match value.find field with
  | none => .error .json
  | some item => .ok item

/-- An unsigned number that is not above a maximum. -/
def integer (value : Json) (field : String) (maximum : ℕ := int64Max) : Except StudyException ℕ :=
  match Json.fieldAt value field with
  | .error error => .error error
  | .ok (.unsigned number) => if maximum < number then invalid field else .ok number
  | .ok _ => invalid field

/-- A text that is not empty and not too long. -/
def string (value : Json) (field : String) : Except StudyException String :=
  match Json.fieldAt value field with
  | .error error => .error error
  | .ok (.string text) => if text = "" ∨ 4096 < text.utf8ByteSize then invalid field else .ok text
  | .ok _ => invalid field

/-- The check of one event while a document is parsed, with the names of the open objects. -/
def checkEvent (keys : List (List String)) (depth : ℕ) (event : ParseEvent) :
    Except StudyException (List (List String)) :=
  if 12 < depth then invalid "JSON depth"
  else
    match event, keys with
    | .objectStart, keys => .ok ([] :: keys)
    | .objectEnd, keys => .ok keys.tail
    | .key name, names :: keys =>
      if name ∈ names then invalid "duplicate field" else .ok ((name :: names) :: keys)
    | _, keys => .ok keys

/-- The value of a document that passes the check of its events. -/
def parseStrict (library : JsonLibrary) (bytes : List UInt8) : Except StudyException Json :=
  let parsed := library.parse bytes
  match parsed.events.foldlM (fun keys event => checkEvent keys event.1 event.2) [] with
  | .error error => .error error
  | .ok _ =>
    match parsed.value with
    | none => .error .json
    | some value => .ok value

/-- The bytes of a text of ASCII characters. -/
def ascii (text : String) : List UInt8 := text.toList.map fun character => .ofNat character.toNat

/-! ### What the fields are -/

theorem integer_eq_ok {value : Json} {field : String} {maximum number : ℕ}
    (h : integer value field maximum = .ok number) :
    value.find field = some (.unsigned number) ∧ number ≤ maximum := by
  unfold integer Json.fieldAt at h
  cases hfind : value.find field with
  | none => simp [hfind] at h
  | some item =>
    simp only [hfind] at h
    cases item with
    | unsigned other =>
      simp only at h
      split_ifs at h with hle
      · cases h
      obtain rfl := Except.ok.inj h
      exact ⟨rfl, Nat.le_of_not_lt hle⟩
    | _ => cases h

theorem string_eq_ok {value : Json} {field text : String} (h : string value field = .ok text) :
    value.find field = some (.string text) := by
  unfold string Json.fieldAt at h
  cases hfind : value.find field with
  | none => simp [hfind] at h
  | some item =>
    simp only [hfind] at h
    cases item with
    | string other =>
      simp only at h
      split_ifs at h
      · cases h
      obtain rfl := Except.ok.inj h
      rfl
    | _ => cases h

end EventMarket.Session
