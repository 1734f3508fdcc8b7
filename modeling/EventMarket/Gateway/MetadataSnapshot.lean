import EventMarket.Constraint.Payoff
import EventMarket.Gateway.JsonStrict
import EventMarket.Gateway.MarketRegistry

/-!
# Reviewed metadata snapshots

A metadata document names the markets of one version and the constraints between them. It is
validated in one pass; then the registries are built, the constraints in the order of their ids,
and the document is printed again in its canonical form.

## Main definitions

* `MetadataError`, `MetadataSnapshot`: a refusal with its field, and what is loaded.
* `parseMetadataSnapshot`: loading a document.
-/

namespace EventMarket.Gateway

open Constraint Core Market

/-- The most bytes of a document. -/
def maximumMetadataBytes : ℕ := 4 * 1024 * 1024

/-- The largest 32-bit number. -/
abbrev uint32Max : ℕ := 4294967295

inductive MetadataErrorCode where
  | invalidJson
  | duplicateField
  | invalidShape
  | invalidValue
  | unsupportedVersion
  | duplicateMarket
  | duplicateConstraint
  | unknownMarket
  | inputTooLarge
  | nestingTooDeep
  deriving DecidableEq, Repr

/-- The text of a code. -/
def MetadataErrorCode.text : MetadataErrorCode → String
  | .invalidJson => "invalid_json"
  | .duplicateField => "duplicate_field"
  | .invalidShape => "invalid_shape"
  | .invalidValue => "invalid_value"
  | .unsupportedVersion => "unsupported_version"
  | .duplicateMarket => "duplicate_market"
  | .duplicateConstraint => "duplicate_constraint"
  | .unknownMarket => "unknown_market"
  | .inputTooLarge => "input_too_large"
  | .nestingTooDeep => "nesting_too_deep"

structure MetadataError where
  code : MetadataErrorCode
  field : String
  deriving DecidableEq, Repr

structure MetadataSnapshot where
  markets : MarketRegistry
  constraints : ConstraintRegistry
  canonicalJson : List UInt8

def reject {α : Type} (code : MetadataErrorCode) (field : String) : Except MetadataError α :=
  .error { code, field }

/-! ### Fields -/

/-- A field of an object that has it. -/
def Json.field (value : Json) (name : String) : Json := (value.find name).getD .null

def shape (value : Json) (fields : List String) (path : String) : Except MetadataError Unit :=
  if value.hasShape fields then .ok () else reject .invalidShape path

def positiveInteger (value : Json) (maximum : ℕ) (path : String) : Except MetadataError ℕ :=
  match value with
  | .unsigned number =>
    if number = 0 ∨ maximum < number then reject .invalidValue path else .ok number
  | _ => reject .invalidValue path

def readId (value : Json) (path : String) : Except MetadataError ℕ :=
  positiveInteger value uint32Max path

/-- A control character of ASCII. -/
def isControl (character : Char) : Bool := character.toNat < 0x20 || character.toNat == 0x7f

/-- A text is not empty and not too long, has something else than spaces, and no control
character. -/
def ValidText (maximum : ℕ) (text : String) : Prop :=
  text ≠ "" ∧ text.utf8ByteSize ≤ maximum ∧ text.toList.all (· == ' ') = false ∧
    text.toList.any isControl = false

instance (maximum : ℕ) (text : String) : Decidable (ValidText maximum text) :=
  inferInstanceAs (Decidable (_ ∧ _ ∧ _ ∧ _))

def readText (value : Json) (maximum : ℕ) (path : String) : Except MetadataError String :=
  match value with
  | .string result => if ValidText maximum result then .ok result else reject .invalidValue path
  | _ => reject .invalidValue path

def readArray (value : Json) (maximum : ℕ) (path : String) : Except MetadataError (List Json) :=
  match value with
  | .array items => if maximum < items.length then reject .invalidValue path else .ok items
  | _ => reject .invalidShape path

/-! ### Entries -/

def registerEntry (registry : MarketRegistry) (entry : Json) :
    Except MetadataError MarketRegistry := do
  shape entry ["id", "ticker"] "markets[]"
  let marketId ← readId (entry.field "id") "markets[].id"
  let ticker ← readText (entry.field "ticker") 128 "markets[].ticker"
  let (registry, result) := registry.registerMarket marketId ticker
  if result = .registered then .ok registry else reject .duplicateMarket "markets[]"

def readRelationship (relation : Json) : Except MetadataError Relationship :=
  if !relation.contains "type" then reject .invalidShape "constraints[].relationship"
  else do
    let type ← readText (relation.field "type") 32 "constraints[].relationship.type"
    if type = "implication" then do
      shape relation ["type", "antecedent", "consequent"] "constraints[].relationship"
      let first ← readId (relation.field "antecedent") "relationship.antecedent"
      let second ← readId (relation.field "consequent") "relationship.consequent"
      .ok (.implication first second)
    else if type = "complement" then do
      shape relation ["type", "left", "right"] "constraints[].relationship"
      let first ← readId (relation.field "left") "relationship.left"
      let second ← readId (relation.field "right") "relationship.right"
      .ok (.complement first second)
    else reject .invalidValue "constraints[].relationship.type"

/-- The relationship of a constraint: its markets are different and known. -/
def checkRelationship (markets : MarketRegistry) (relationship : Relationship) :
    Except MetadataError Relationship :=
  let (first, second) := relationship.markets
  if first = second then reject .invalidValue "constraints[].relationship"
  else if (markets.findTicker first).isNone ∨ (markets.findTicker second).isNone then
    reject .unknownMarket "constraints[].relationship"
  else .ok relationship

/-- One more constraint; its id and its key are new. -/
def readConstraint (markets : MarketRegistry) (validated : List ConstraintDefinition)
    (entry : Json) : Except MetadataError (List ConstraintDefinition) := do
  shape entry ["id", "semantic_version", "key", "provenance", "relationship"] "constraints[]"
  let id ← readId (entry.field "id") "constraints[].id"
  let semanticVersion ← readId (entry.field "semantic_version") "constraints[].semantic_version"
  let key ← readText (entry.field "key") 256 "constraints[].key"
  let provenance ← readText (entry.field "provenance") 4096 "constraints[].provenance"
  if id ∈ validated.map ConstraintDefinition.id ∨ key ∈ validated.map ConstraintDefinition.key then
    reject .duplicateConstraint "constraints[]"
  else do
    let relation ← readRelationship (entry.field "relationship")
    let relationship ← checkRelationship markets relation
    .ok (validated ++ [⟨id, semanticVersion, key, provenance, relationship⟩])

def addConstraint (registry : ConstraintRegistry) (definition : ConstraintDefinition) :
    Except MetadataError ConstraintRegistry :=
  let (registry, result) := registry.add definition
  if result = .registered then .ok registry else reject .invalidValue "constraints[]"

/-! ### The canonical form -/

/-- The id of an entry. -/
def Json.entryId (entry : Json) : ℕ :=
  match entry.field "id" with
  | .unsigned id => id
  | _ => 0

def sortEntries (entries : List Json) : List Json :=
  entries.mergeSort fun left right => decide (left.entryId ≤ right.entryId)

def sortDefinitions (definitions : List ConstraintDefinition) : List ConstraintDefinition :=
  definitions.mergeSort fun left right => decide (left.id ≤ right.id)

def Json.setField (value : Json) (name : String) (item : Json) : Json :=
  match value with
  | .object fields =>
    .object (fields.map fun field => if field.1 = name then (name, item) else field)
  | _ => value

/-! ### Documents -/

/-- The version and the entries of a document. -/
def readHeader (root : Json) : Except MetadataError (ℕ × List Json × List Json) := do
  shape root ["schema_version", "metadata_version", "venue", "markets", "constraints"] "$"
  let schema ← positiveInteger (root.field "schema_version") uint64Max "schema_version"
  if schema ≠ 1 then reject .unsupportedVersion "schema_version"
  else do
    let version ← positiveInteger (root.field "metadata_version") uint64Max "metadata_version"
    let venue ← readText (root.field "venue") 32 "venue"
    if venue ≠ "kalshi" then reject .invalidValue "venue"
    else do
      let markets ← readArray (root.field "markets") 10000 "markets"
      let definitions ← readArray (root.field "constraints") 50000 "constraints"
      if markets = [] then reject .invalidValue "markets"
      else .ok (version, markets, definitions)

/-- The snapshot of a parsed document. -/
def readSnapshot (library : JsonLibrary) (root : Json) : Except MetadataError MetadataSnapshot := do
  let (version, markets, definitions) ← readHeader root
  let registry ← markets.foldlM registerEntry { metadataVersion := version }
  let validated ← definitions.foldlM (readConstraint registry) []
  let constraints ← (sortDefinitions validated).foldlM addConstraint {}
  let canonical := (root.setField "markets" (.array (sortEntries markets))).setField "constraints"
    (.array (sortEntries definitions))
  .ok { markets := registry, constraints, canonicalJson := library.dump canonical }

def parseMetadataSnapshot (library : JsonLibrary) (input : List UInt8) :
    Except MetadataError MetadataSnapshot :=
  if maximumMetadataBytes < input.length then reject .inputTooLarge "$"
  else do
    let root ← parseChecked library 8 { code := .nestingTooDeep, field := "$" }
      { code := .duplicateField, field := "$" } { code := .invalidJson, field := "$" } input
    readSnapshot library root

end EventMarket.Gateway
