import EventMarket.Core.FixedPoint
import EventMarket.Foundations.Run
import EventMarket.Gateway.Json

/-!
# Strict documents

Documents are parsed with a check of every event: they are refused when they nest too deep or
repeat the name of a field. What the documents of this repository contain is plain, without
floating point; the library prints it so that it can be read back.

## Main definitions

* `parseChecked`: the value of a document that passes the check of its events.
* `Json.Stored`, `Json.Plain`: the values that a parse gives, and those without floating point.
* `Json.events`: the events of parsing what was printed.
* `JsonLibrary.Lawful`: parsing and printing are inverse and printing is compact.

## Main results

* `checkKeys_events`: a plain value that does not nest too deep passes the check.
* `JsonLibrary.Lawful.parseChecked_dump`: a printed plain value is read back.
-/

namespace EventMarket.Gateway

open Core Foundations

/-! ### The check of the events -/

/-- The check of one event, with the names of the open objects. -/
def checkKeys {ε : Type} (maximum : ℕ) (tooDeep duplicate : ε) (keys : List (List String))
    (event : ℕ × ParseEvent) : Except ε (List (List String)) :=
  if maximum < event.1 then .error tooDeep
  else
    match event.2, keys with
    | .objectStart, keys => .ok ([] :: keys)
    | .objectEnd, keys => .ok keys.tail
    | .key name, names :: keys =>
      if name ∈ names then .error duplicate else .ok ((name :: names) :: keys)
    | _, keys => .ok keys

/-- The value of a document that passes the check of its events. -/
def parseChecked {ε : Type} (library : JsonLibrary) (maximum : ℕ)
    (tooDeep duplicate syntaxError : ε)
    (bytes : List UInt8) : Except ε Json :=
  let parsed := library.parse bytes
  match parsed.events.foldlM (checkKeys maximum tooDeep duplicate) [] with
  | .error error => .error error
  | .ok _ =>
    match parsed.value with
    | none => .error syntaxError
    | some value => .ok value

/-- An object with exactly these fields. -/
def Json.hasShape (value : Json) (fields : List String) : Bool :=
  match value with
  | .object entries => entries.length == fields.length && fields.all fun name => value.contains name
  | _ => false

/-! ### The values of a parse -/

namespace Json

/-- The values that a parse gives: the fields of every object are sorted by their names, and the
numbers have 64 bits. -/
inductive Stored : Json → Prop
  | null : Stored .null
  | boolean (value : Bool) : Stored (.boolean value)
  | unsigned {value : ℕ} (hle : value ≤ uint64Max) : Stored (.unsigned value)
  | negative {value : ℕ} (hle : value ≤ int64Max + 1) : Stored (.negative value)
  | float (text : String) : Stored (.float text)
  | string (value : String) : Stored (.string value)
  | array {items : List Json} (hitems : ∀ item ∈ items, Stored item) : Stored (.array items)
  | object {fields : List (String × Json)} (hsorted : (fields.map Prod.fst).Pairwise (· < ·))
      (hfields : ∀ field ∈ fields, Stored field.2) : Stored (.object fields)

/-- The values without floating point that nest at most so deep. -/
inductive Plain : ℕ → Json → Prop
  | null {depth : ℕ} : Plain depth .null
  | boolean {depth : ℕ} (value : Bool) : Plain depth (.boolean value)
  | unsigned {depth value : ℕ} (hle : value ≤ uint64Max) : Plain depth (.unsigned value)
  | negative {depth value : ℕ} (hpos : 0 < value) (hle : value ≤ int64Max + 1) :
      Plain depth (.negative value)
  | string {depth : ℕ} (value : String) : Plain depth (.string value)
  | array {depth : ℕ} {items : List Json} (hitems : ∀ item ∈ items, Plain depth item) :
      Plain (depth + 1) (.array items)
  | object {depth : ℕ} {fields : List (String × Json)}
      (hsorted : (fields.map Prod.fst).Pairwise (· < ·))
      (hfields : ∀ field ∈ fields, Plain depth field.2) : Plain (depth + 1) (.object fields)

/-- The same value with the items of some arrays in another order. -/
inductive Reordered : Json → Json → Prop
  | refl (value : Json) : Reordered value value
  | items {items other : List Json} (hperm : items.Perm other) :
      Reordered (.array items) (.array other)
  | field {name : String} {value other : Json} (h : Reordered value other)
      (before after : List (String × Json)) :
      Reordered (.object (before ++ (name, value) :: after))
        (.object (before ++ (name, other) :: after))
  | trans {value middle other : Json} (h : Reordered value middle)
      (h' : Reordered middle other) : Reordered value other

mutual

/-- The events of parsing the text of a value. -/
def events (depth : ℕ) : Json → List (ℕ × ParseEvent)
  | .array items =>
    (depth, .arrayStart) :: (itemEvents (depth + 1) items ++ [(depth, .arrayEnd)])
  | .object fields =>
    (depth, .objectStart) :: (fieldEvents (depth + 1) fields ++ [(depth, .objectEnd)])
  | _ => [(depth, .value)]

def itemEvents (depth : ℕ) : List Json → List (ℕ × ParseEvent)
  | [] => []
  | item :: items => events depth item ++ itemEvents depth items

def fieldEvents (depth : ℕ) : List (String × Json) → List (ℕ × ParseEvent)
  | [] => []
  | (name, value) :: fields =>
    (depth, .key name) :: (events depth value ++ fieldEvents depth fields)

end

end Json

/-! ### The library -/

/-- **What is relied on of the library.** A parse gives stored values. The compact text of a plain
value, also with a line break after it, is parsed to that value with the events of its structure.
Printing is compact: the text of a value that was parsed, in any order of the items of its arrays,
is not longer than the text it was parsed from. -/
structure JsonLibrary.Lawful (library : JsonLibrary) : Prop where
  stored : ∀ bytes value, (library.parse bytes).value = some value → value.Stored
  parse_dump : ∀ depth value, Json.Plain depth value →
    library.parse (library.dump value) = ⟨value.events 0, some value⟩
  parse_line : ∀ depth value, Json.Plain depth value →
    library.parse (library.dump value ++ [10]) = ⟨value.events 0, some value⟩
  compact : ∀ bytes value other, (library.parse bytes).value = some value →
    ∀ depth, Json.Plain depth value → Json.Reordered value other →
      (library.dump other).length ≤ bytes.length

section Checks

variable {ε : Type} {maximum : ℕ} {tooDeep duplicate syntaxError : ε}

theorem bind_ok_eq {α β : Type} (a : α) (f : α → Except ε β) : (Except.ok a >>= f) = f a := rfl

theorem nodup_of_sorted {names : List String} (h : names.Pairwise (· < ·)) : names.Nodup :=
  h.imp fun {a b} (hlt : a < b) (heq : a = b) => String.lt_irrefl b (heq ▸ hlt)

theorem checkKeys_fields {fields : List (String × Json)} {depth : ℕ} {names : List String}
    (keys : List (List String)) (hdepth : depth ≤ maximum)
    (hdistinct : (fields.map Prod.fst).Nodup) (hfresh : ∀ name ∈ fields.map Prod.fst, name ∉ names)
    (hvalues : ∀ field ∈ fields, ∀ keys,
      (field.2.events depth).foldlM (checkKeys maximum tooDeep duplicate) keys = .ok keys) :
    ∃ seen, (Json.fieldEvents depth fields).foldlM (checkKeys maximum tooDeep duplicate)
      (names :: keys) = .ok (seen :: keys) := by
  induction fields generalizing names with
  | nil => exact ⟨names, rfl⟩
  | cons field fields ih =>
    obtain ⟨name, value⟩ := field
    simp only [List.map_cons, List.nodup_cons] at hdistinct
    have hkey : checkKeys maximum tooDeep duplicate (names :: keys) (depth, .key name) =
        .ok ((name :: names) :: keys) := by
      have hnot : name ∉ names := hfresh name List.mem_cons_self
      simp [checkKeys, Nat.not_lt.mpr hdepth, hnot]
    obtain ⟨seen, hseen⟩ := ih hdistinct.2 (fun other hother hmem => by
      rcases List.mem_cons.mp hmem with rfl | hmem
      · exact hdistinct.1 hother
      · exact hfresh other (List.mem_cons_of_mem _ hother) hmem)
      (fun other hother => hvalues other (List.mem_cons_of_mem _ hother))
    refine ⟨seen, ?_⟩
    rw [Json.fieldEvents, List.foldlM_cons, hkey, bind_ok_eq, List.foldlM_append,
      hvalues _ List.mem_cons_self, bind_ok_eq, hseen]

theorem checkKeys_items {items : List Json} {depth : ℕ} (keys : List (List String))
    (hvalues : ∀ item ∈ items, ∀ keys,
      (item.events depth).foldlM (checkKeys maximum tooDeep duplicate) keys = .ok keys) :
    (Json.itemEvents depth items).foldlM (checkKeys maximum tooDeep duplicate) keys = .ok keys := by
  induction items with
  | nil => rfl
  | cons item items ih =>
    rw [Json.itemEvents, List.foldlM_append, hvalues item List.mem_cons_self, bind_ok_eq]
    exact ih fun other hother => hvalues other (List.mem_cons_of_mem _ hother)

/-- **A plain value that does not nest too deep passes the check.** -/
theorem checkKeys_events {height depth : ℕ} {value : Json} (h : Json.Plain height value)
    (hdepth : depth + height ≤ maximum) (keys : List (List String)) :
    (value.events depth).foldlM (checkKeys maximum tooDeep duplicate) keys = .ok keys := by
  have hvalue {depth : ℕ} (hle : depth ≤ maximum) (event : ParseEvent)
      (hplain : event = .value ∨ event = .arrayStart ∨ event = .arrayEnd)
      (keys : List (List String)) :
      checkKeys maximum tooDeep duplicate keys (depth, event) = .ok keys := by
    rcases hplain with rfl | rfl | rfl <;> simp [checkKeys, Nat.not_lt.mpr hle]
  induction h generalizing depth keys with
  | null | boolean | unsigned | negative | string =>
    rw [Json.events, List.foldlM_cons, hvalue (by omega) _ (Or.inl rfl)]
    · rfl
    all_goals simp
  | @array height items _ ih =>
    rw [Json.events, List.foldlM_cons, hvalue (by omega) _ (Or.inr (Or.inl rfl)), bind_ok_eq,
      List.foldlM_append, checkKeys_items keys fun item hitem keys =>
        ih item hitem (by omega) keys, bind_ok_eq, List.foldlM_cons,
      hvalue (by omega) _ (Or.inr (Or.inr rfl))]
    rfl
  | @object height fields hsorted _ ih =>
    have hle : depth ≤ maximum := by omega
    have hstart : checkKeys maximum tooDeep duplicate keys (depth, .objectStart) =
        .ok ([] :: keys) := by simp [checkKeys, Nat.not_lt.mpr hle]
    have hend (seen : List String) :
        checkKeys maximum tooDeep duplicate (seen :: keys) (depth, .objectEnd) = .ok keys := by
      simp [checkKeys, Nat.not_lt.mpr hle]
    obtain ⟨seen, hseen⟩ := @checkKeys_fields _ maximum tooDeep duplicate
      fields (depth + 1) [] keys (by omega) (nodup_of_sorted hsorted) (by simp)
      fun field hfield keys => ih field hfield (by omega) keys
    rw [Json.events, List.foldlM_cons, hstart, bind_ok_eq, List.foldlM_append, hseen,
      bind_ok_eq, List.foldlM_cons, hend]
    rfl

/-- **A printed plain value is read back.** -/
theorem JsonLibrary.Lawful.parseChecked_dump {library : JsonLibrary} (h : library.Lawful)
    {height : ℕ} {value : Json} (hplain : Json.Plain height value) (hle : height ≤ maximum) :
    parseChecked library maximum tooDeep duplicate syntaxError (library.dump value) =
      .ok value := by
  unfold parseChecked
  rw [h.parse_dump height value hplain]
  simp only [checkKeys_events hplain (by omega : 0 + height ≤ maximum)]

/-- **A printed plain value is read back**, also with a line break after it. -/
theorem JsonLibrary.Lawful.parseChecked_line {library : JsonLibrary} (h : library.Lawful)
    {height : ℕ} {value : Json} (hplain : Json.Plain height value) (hle : height ≤ maximum) :
    parseChecked library maximum tooDeep duplicate syntaxError (library.dump value ++ [10]) =
      .ok value := by
  unfold parseChecked
  rw [h.parse_line height value hplain]
  simp only [checkKeys_events hplain (by omega : 0 + height ≤ maximum)]

theorem parseChecked_eq_ok {library : JsonLibrary} {bytes : List UInt8} {value : Json}
    (h : parseChecked library maximum tooDeep duplicate syntaxError bytes = .ok value) :
    (library.parse bytes).value = some value := by
  unfold parseChecked at h
  dsimp only at h
  split at h
  · cases h
  · split at h
    · cases h
    · rename_i heq
      rw [heq, Except.ok.inj h]

end Checks

/-! ### Objects of a fixed shape -/

/-- **A stored object of a fixed shape** has exactly these fields, in the order of their names. -/
theorem Json.eq_of_hasShape {value : Json} {names : List String} (h : value.hasShape names = true)
    (hstored : value.Stored) (hnames : names.Nodup) :
    ∃ fields, value = .object fields ∧ (fields.map Prod.fst).Perm names ∧
      (fields.map Prod.fst).Pairwise (· < ·) ∧ ∀ field ∈ fields, field.2.Stored := by
  cases hstored with
  | @object fields hsorted hfields =>
    refine ⟨fields, rfl, ?_, hsorted, hfields⟩
    simp only [Json.hasShape, Bool.and_eq_true, beq_iff_eq, List.all_eq_true] at h
    have hsubset : names ⊆ fields.map Prod.fst := fun name hname => by
      have hmem := h.2 name hname
      simp only [Json.contains, Json.find] at hmem
      obtain ⟨item, hitem⟩ := Option.isSome_iff_exists.mp hmem
      rw [List.lookup_eq_some_iff] at hitem
      obtain ⟨before, after, rfl, -⟩ := hitem
      simp
    have hsubperm := hnames.subperm hsubset
    refine (hsubperm.perm_of_length_le ?_).symm
    simp [h.1]
  | _ => exact absurd h (by simp [Json.hasShape])

end EventMarket.Gateway
