import EventMarket.Gateway.MetadataSnapshot

/-!
# The content of a metadata document

What a document says, apart from how it is written. A parsed document is accepted exactly when it
is the text of an admissible content, and the snapshot depends on the content alone.

## Main definitions

* `MetadataDocument`: the version, the markets and the constraints of a document.
* `MetadataDocument.json`: the document as a JSON value.
* `MetadataDocument.Admissible`: the content can be loaded.
* `MetadataDocument.snapshot`: the snapshot of the content.

## Main results

* `readSnapshot_eq_ok_iff`: the accepted documents and their snapshots.
-/

namespace EventMarket.Gateway

open Constraint Core Foundations Market

structure MetadataDocument where
  metadataVersion : ℕ
  markets : List (MarketId × String)
  definitions : List ConstraintDefinition

/-! ### The document as a value -/

def marketJson (market : MarketId × String) : Json :=
  .object [("id", .unsigned market.1), ("ticker", .string market.2)]

def relationshipJson : Relationship → Json
  | .implication antecedent consequent =>
    .object [("antecedent", .unsigned antecedent), ("consequent", .unsigned consequent),
      ("type", .string "implication")]
  | .complement left right =>
    .object [("left", .unsigned left), ("right", .unsigned right), ("type", .string "complement")]

def definitionJson (definition : ConstraintDefinition) : Json :=
  .object [("id", .unsigned definition.id), ("key", .string definition.key),
    ("provenance", .string definition.provenance),
    ("relationship", relationshipJson definition.relationship),
    ("semantic_version", .unsigned definition.semanticVersion)]

namespace MetadataDocument

def json (document : MetadataDocument) : Json :=
  .object [("constraints", .array (document.definitions.map definitionJson)),
    ("markets", .array (document.markets.map marketJson)),
    ("metadata_version", .unsigned document.metadataVersion),
    ("schema_version", .unsigned 1), ("venue", .string "kalshi")]

/-- The content with its markets and its constraints in the order of their ids. -/
def sorted (document : MetadataDocument) : MetadataDocument where
  metadataVersion := document.metadataVersion
  markets := document.markets.mergeSort fun left right => decide (left.1 ≤ right.1)
  definitions := sortDefinitions document.definitions

end MetadataDocument

/-! ### What can be loaded -/

/-- A positive number of 32 bits. -/
def ValidId (id : ℕ) : Prop := 0 < id ∧ id ≤ uint32Max

/-- A market that can be registered. -/
def ValidMarket (market : MarketId × String) : Prop := ValidId market.1 ∧ ValidText 128 market.2

/-- A constraint between two different known markets. -/
structure ValidConstraint (known : List MarketId) (definition : ConstraintDefinition) : Prop where
  id : ValidId definition.id
  semanticVersion : ValidId definition.semanticVersion
  key : ValidText 256 definition.key
  provenance : ValidText 4096 definition.provenance
  first : ValidId definition.relationship.markets.1
  second : ValidId definition.relationship.markets.2
  different : definition.relationship.markets.1 ≠ definition.relationship.markets.2
  known_first : definition.relationship.markets.1 ∈ known
  known_second : definition.relationship.markets.2 ∈ known

/-- **The content can be loaded.** All ids, tickers and keys are unique, and every constraint is
between known markets. -/
structure MetadataDocument.Admissible (document : MetadataDocument) : Prop where
  version_pos : 0 < document.metadataVersion
  version_le : document.metadataVersion ≤ uint64Max
  markets_ne_nil : document.markets ≠ []
  markets_le : document.markets.length ≤ 10000
  definitions_le : document.definitions.length ≤ 50000
  markets_valid : ∀ market ∈ document.markets, ValidMarket market
  ids_nodup : (document.markets.map Prod.fst).Nodup
  tickers_nodup : (document.markets.map Prod.snd).Nodup
  definitions_valid : ∀ definition ∈ document.definitions,
    ValidConstraint (document.markets.map Prod.fst) definition
  constraint_ids_nodup : (document.definitions.map ConstraintDefinition.id).Nodup
  keys_nodup : (document.definitions.map ConstraintDefinition.key).Nodup

/-- The registry of a list of markets, registered one after the other. -/
def registryOf (version : ℕ) (markets : List (MarketId × String)) : MarketRegistry where
  metadataVersion := version
  marketIds := (markets.map Prod.swap).reverse
  tickers := markets.reverse

def MetadataDocument.snapshot (library : JsonLibrary) (document : MetadataDocument) :
    MetadataSnapshot where
  markets := registryOf document.metadataVersion document.markets
  constraints := .ofDefinitions document.sorted.definitions
  canonicalJson := library.dump document.sorted.json

/-! ### Fields of a document -/

section Fields

variable {value : Json} {maximum : ℕ} {path : String}

theorem positiveInteger_eq_ok_iff {number : ℕ} :
    positiveInteger value maximum path = .ok number ↔
      value = .unsigned number ∧ 0 < number ∧ number ≤ maximum := by
  cases value with
  | unsigned other =>
    unfold positiveInteger reject
    by_cases hrefused : other = 0 ∨ maximum < other
    · simp only [if_pos hrefused, reduceCtorEq, false_iff, Json.unsigned.injEq]
      rintro ⟨rfl, hpos, hle⟩
      omega
    · simp only [if_neg hrefused, Except.ok.injEq, Json.unsigned.injEq]
      constructor
      · rintro rfl
        exact ⟨rfl, by omega, by omega⟩
      · exact fun h => h.1
  | _ => simp [positiveInteger, reject]

theorem readId_eq_ok_iff {number : ℕ} :
    readId value path = .ok number ↔ value = .unsigned number ∧ ValidId number :=
  positiveInteger_eq_ok_iff

theorem readText_eq_ok_iff {text : String} :
    readText value maximum path = .ok text ↔ value = .string text ∧ ValidText maximum text := by
  cases value with
  | string other =>
    unfold readText reject
    by_cases hvalid : ValidText maximum other
    · simp only [if_pos hvalid, Except.ok.injEq, Json.string.injEq]
      constructor
      · rintro rfl
        exact ⟨rfl, hvalid⟩
      · exact fun h => h.1
    · simp only [if_neg hvalid, reduceCtorEq, false_iff, Json.string.injEq]
      rintro ⟨rfl, hother⟩
      exact hvalid hother
  | _ => simp [readText, reject]

theorem readArray_eq_ok_iff {items : List Json} :
    readArray value maximum path = .ok items ↔ value = .array items ∧ items.length ≤ maximum := by
  cases value with
  | array other =>
    unfold readArray reject
    by_cases hlong : maximum < other.length
    · simp only [if_pos hlong, reduceCtorEq, false_iff, Json.array.injEq]
      rintro ⟨rfl, hle⟩
      omega
    · simp only [if_neg hlong, Except.ok.injEq, Json.array.injEq]
      constructor
      · rintro rfl
        exact ⟨rfl, by omega⟩
      · exact fun h => h.1
  | _ => simp [readArray, reject]

theorem shape_eq_ok_iff {names : List String} {result : Unit} :
    shape value names path = .ok result ↔ value.hasShape names = true := by
  unfold shape reject
  split_ifs with h <;> simp [h]

theorem shape_ok {names : List String} (h : value.hasShape names = true) :
    shape value names path = .ok () :=
  shape_eq_ok_iff.mpr h

/-- The fields of a stored object of a fixed shape, in the order of their names. -/
theorem fields_of_shape {names ordered : List String} (h : value.hasShape names = true)
    (hstored : value.Stored) (hperm : ordered.Perm names) (hordered : ordered.Pairwise (· < ·)) :
    ∃ fields, value = .object fields ∧ fields.map Prod.fst = ordered ∧
      ∀ field ∈ fields, field.2.Stored := by
  obtain ⟨fields, rfl, hnames, hsorted, hfields⟩ :=
    Json.eq_of_hasShape h hstored (hperm.nodup_iff.mp (nodup_of_sorted hordered))
  refine ⟨fields, rfl, ?_, hfields⟩
  exact (hnames.trans hperm.symm).eq_of_pairwise
    (fun a b _ _ hab hba => absurd hba (String.lt_asymm hab)) hsorted hordered

theorem exists_of_map_fst {fields : List (String × Json)} {name : String} {names : List String}
    (h : fields.map Prod.fst = name :: names) :
    ∃ item rest, fields = (name, item) :: rest ∧ rest.map Prod.fst = names := by
  obtain ⟨⟨_, item⟩, rest, rfl, rfl, hrest⟩ := List.map_eq_cons_iff.mp h
  exact ⟨item, rest, rfl, hrest⟩

end Fields

/-! ### Entries of a document -/

theorem registerEntry_eq_ok_iff {registry next : MarketRegistry} {entry : Json}
    (hstored : entry.Stored) :
    registerEntry registry entry = .ok next ↔ ∃ market, entry = marketJson market ∧
      ValidMarket market ∧ registry.registerMarket market.1 market.2 = (next, .registered) := by
  constructor
  · intro h
    unfold registerEntry at h
    obtain ⟨_, hshape, hfields⟩ := bind_eq_ok h
    obtain ⟨id, hid, hrest⟩ := bind_eq_ok hfields
    obtain ⟨ticker, hticker, hregister⟩ := bind_eq_ok hrest
    clear h hfields hrest
    obtain ⟨fields, rfl, hnames, -⟩ := fields_of_shape (shape_eq_ok_iff.mp hshape) hstored
      (List.Perm.refl ["id", "ticker"]) (by decide)
    obtain ⟨first, rest, rfl, hrest⟩ := exists_of_map_fst hnames
    obtain ⟨second, last, rfl, hlast⟩ := exists_of_map_fst hrest
    obtain rfl := List.map_eq_nil_iff.mp hlast
    obtain ⟨rfl, hidValid⟩ := readId_eq_ok_iff.mp hid
    obtain ⟨hsecond, htickerValid⟩ := readText_eq_ok_iff.mp hticker
    obtain rfl : second = .string ticker := hsecond
    refine ⟨(id, ticker), rfl, ⟨hidValid, htickerValid⟩, ?_⟩
    dsimp only at hregister
    split_ifs at hregister with hresult
    · obtain rfl := Except.ok.inj hregister
      exact Prod.ext rfl hresult
    · cases hregister
  · rintro ⟨market, rfl, hvalid, hregistered⟩
    have hid : readId ((marketJson market).field "id") "markets[].id" = .ok market.1 :=
      readId_eq_ok_iff.mpr ⟨rfl, hvalid.1⟩
    have hticker : readText ((marketJson market).field "ticker") 128 "markets[].ticker" =
        .ok market.2 := readText_eq_ok_iff.mpr ⟨rfl, hvalid.2⟩
    have hshape : shape (marketJson market) ["id", "ticker"] "markets[]" = .ok () :=
      shape_ok rfl
    unfold registerEntry
    rw [hshape, bind_ok_eq, hid, bind_ok_eq, hticker, bind_ok_eq, hregistered]
    rfl

theorem stored_of_shape {names : List String} {path : String} {entry : Json} {result : Unit}
    (hstored : entry.Stored) (hshape : shape entry names path = .ok result) {ordered : List String}
    (hperm : ordered.Perm names) (hordered : ordered.Pairwise (· < ·)) :
    ∃ fields, entry = .object fields ∧ fields.map Prod.fst = ordered ∧
      ∀ field ∈ fields, field.2.Stored :=
  fields_of_shape (shape_eq_ok_iff.mp hshape) hstored hperm hordered

theorem readRelationship_eq_ok_iff {entry : Json} {relationship : Relationship}
    (hstored : entry.Stored) :
    readRelationship entry = .ok relationship ↔ entry = relationshipJson relationship ∧
      ValidId relationship.markets.1 ∧ ValidId relationship.markets.2 := by
  constructor
  · intro h
    unfold readRelationship at h
    split_ifs at h with hcontains
    · cases h
    obtain ⟨type, htype, h⟩ := bind_eq_ok h
    split_ifs at h with himplication hcomplement
    · obtain ⟨_, hshape, h⟩ := bind_eq_ok h
      obtain ⟨first, hfirst, h⟩ := bind_eq_ok h
      obtain ⟨second, hsecond, h⟩ := bind_eq_ok h
      obtain rfl := Except.ok.inj h
      obtain ⟨fields, rfl, hnames, -⟩ := stored_of_shape hstored hshape
        (by decide : ["antecedent", "consequent", "type"].Perm _) (by decide)
      obtain ⟨one, tail, rfl, htail⟩ := exists_of_map_fst hnames
      obtain ⟨two, rest, rfl, hrest⟩ := exists_of_map_fst htail
      obtain ⟨three, last, rfl, hlast⟩ := exists_of_map_fst hrest
      obtain rfl := List.map_eq_nil_iff.mp hlast
      obtain ⟨hone, hfirstValid⟩ := readId_eq_ok_iff.mp hfirst
      obtain ⟨htwo, hsecondValid⟩ := readId_eq_ok_iff.mp hsecond
      obtain ⟨hthree, -⟩ := readText_eq_ok_iff.mp htype
      obtain rfl : one = .unsigned first := hone
      obtain rfl : two = .unsigned second := htwo
      obtain rfl : three = .string type := hthree
      exact ⟨by rw [himplication]; rfl, hfirstValid, hsecondValid⟩
    · obtain ⟨_, hshape, h⟩ := bind_eq_ok h
      obtain ⟨first, hfirst, h⟩ := bind_eq_ok h
      obtain ⟨second, hsecond, h⟩ := bind_eq_ok h
      obtain rfl := Except.ok.inj h
      obtain ⟨fields, rfl, hnames, -⟩ := stored_of_shape hstored hshape
        (by decide : ["left", "right", "type"].Perm _) (by decide)
      obtain ⟨one, tail, rfl, htail⟩ := exists_of_map_fst hnames
      obtain ⟨two, rest, rfl, hrest⟩ := exists_of_map_fst htail
      obtain ⟨three, last, rfl, hlast⟩ := exists_of_map_fst hrest
      obtain rfl := List.map_eq_nil_iff.mp hlast
      obtain ⟨hone, hfirstValid⟩ := readId_eq_ok_iff.mp hfirst
      obtain ⟨htwo, hsecondValid⟩ := readId_eq_ok_iff.mp hsecond
      obtain ⟨hthree, -⟩ := readText_eq_ok_iff.mp htype
      obtain rfl : one = .unsigned first := hone
      obtain rfl : two = .unsigned second := htwo
      obtain rfl : three = .string type := hthree
      exact ⟨by rw [hcomplement]; rfl, hfirstValid, hsecondValid⟩
    · cases h
  · rintro ⟨rfl, hfirst, hsecond⟩
    have hid {value : Json} {number : ℕ} {path : String} (hvalue : value = .unsigned number)
        (hvalid : ValidId number) : readId value path = .ok number :=
      readId_eq_ok_iff.mpr ⟨hvalue, hvalid⟩
    cases relationship with
    | implication antecedent consequent =>
      have htype : readText ((relationshipJson
        (.implication antecedent consequent)).field "type") 32
          "constraints[].relationship.type" = .ok "implication" :=
        readText_eq_ok_iff.mpr ⟨rfl, by decide⟩
      unfold readRelationship
      rw [if_neg (by simp [relationshipJson, Json.contains, Json.find, List.lookup_cons]), htype,
        bind_ok_eq, if_pos rfl, shape_ok (by rfl), bind_ok_eq,
        hid (by rfl) hfirst, bind_ok_eq, hid (by rfl) hsecond]
      rfl
    | complement left right =>
      have htype : readText ((relationshipJson (.complement left right)).field "type") 32
          "constraints[].relationship.type" = .ok "complement" :=
        readText_eq_ok_iff.mpr ⟨rfl, by decide⟩
      unfold readRelationship
      rw [if_neg (by simp [relationshipJson, Json.contains, Json.find, List.lookup_cons]), htype,
        bind_ok_eq, if_neg (by decide), if_pos rfl, shape_ok (by rfl), bind_ok_eq,
        hid (by rfl) hfirst, bind_ok_eq, hid (by rfl) hsecond]
      rfl

theorem find_registryOf {version : ℕ} {markets : List (MarketId × String)} {marketId : MarketId} :
    ((registryOf version markets).findTicker marketId).isNone = true ↔
      marketId ∉ markets.map Prod.fst := by
  rw [MarketRegistry.findTicker, registryOf, Option.isNone_iff_eq_none, List.lookup_eq_none_iff]
  simp only [List.mem_reverse, bne_iff_ne, ne_eq, List.mem_map, not_exists, not_and]
  constructor
  · intro h entry hentry heq
    exact h entry hentry heq.symm
  · intro h entry hentry heq
    exact h entry hentry heq.symm

theorem checkRelationship_eq_ok_iff {version : ℕ} {markets : List (MarketId × String)}
    {relationship result : Relationship} :
    checkRelationship (registryOf version markets) relationship = .ok result ↔
      result = relationship ∧ relationship.markets.1 ≠ relationship.markets.2 ∧
        relationship.markets.1 ∈ markets.map Prod.fst ∧
        relationship.markets.2 ∈ markets.map Prod.fst := by
  unfold checkRelationship reject
  dsimp only
  simp only [find_registryOf]
  by_cases hsame : relationship.markets.1 = relationship.markets.2
  · simp [hsame]
  rw [if_neg hsame]
  by_cases hunknown : relationship.markets.1 ∉ markets.map Prod.fst ∨
      relationship.markets.2 ∉ markets.map Prod.fst
  · rw [if_pos hunknown]
    simp only [reduceCtorEq, false_iff]
    rintro ⟨-, -, hfirst, hsecond⟩
    exact hunknown.elim (· hfirst) (· hsecond)
  · rw [if_neg hunknown]
    rw [not_or, not_not, not_not] at hunknown
    simp only [Except.ok.injEq]
    constructor
    · rintro rfl
      exact ⟨rfl, hsame, hunknown⟩
    · exact fun h => h.1.symm

theorem readConstraint_eq_ok_iff {version : ℕ} {markets : List (MarketId × String)}
    {validated next : List ConstraintDefinition} {entry : Json} (hstored : entry.Stored) :
    readConstraint (registryOf version markets) validated entry = .ok next ↔
      ∃ definition, entry = definitionJson definition ∧
        ValidConstraint (markets.map Prod.fst) definition ∧
        definition.id ∉ validated.map ConstraintDefinition.id ∧
        definition.key ∉ validated.map ConstraintDefinition.key ∧
        next = validated ++ [definition] := by
  constructor
  · intro h
    unfold readConstraint at h
    obtain ⟨_, hshape, h1⟩ := bind_eq_ok h
    obtain ⟨id, hid, h2⟩ := bind_eq_ok h1
    obtain ⟨semanticVersion, hversion, h3⟩ := bind_eq_ok h2
    obtain ⟨key, hkey, h4⟩ := bind_eq_ok h3
    obtain ⟨provenance, hprovenance, h5⟩ := bind_eq_ok h4
    clear h h1 h2 h3 h4
    split_ifs at h5 with hduplicate
    · cases h5
    obtain ⟨relation, hrelation, h6⟩ := bind_eq_ok h5
    obtain ⟨relationship, hrelationship, hnext⟩ := bind_eq_ok h6
    clear h5 h6
    obtain ⟨fields, rfl, hnames, hfields⟩ := stored_of_shape hstored hshape
      (by decide : ["id", "key", "provenance", "relationship", "semantic_version"].Perm _)
      (by decide)
    obtain ⟨one, tail1, rfl, htail1⟩ := exists_of_map_fst hnames
    obtain ⟨two, tail2, rfl, htail2⟩ := exists_of_map_fst htail1
    obtain ⟨three, tail3, rfl, htail3⟩ := exists_of_map_fst htail2
    obtain ⟨four, tail4, rfl, htail4⟩ := exists_of_map_fst htail3
    obtain ⟨five, last, rfl, hlast⟩ := exists_of_map_fst htail4
    obtain rfl := List.map_eq_nil_iff.mp hlast
    obtain ⟨hone, hidValid⟩ := readId_eq_ok_iff.mp hid
    obtain ⟨htwo, hkeyValid⟩ := readText_eq_ok_iff.mp hkey
    obtain ⟨hthree, hprovenanceValid⟩ := readText_eq_ok_iff.mp hprovenance
    obtain ⟨hfive, hversionValid⟩ := readId_eq_ok_iff.mp hversion
    have hfour : readRelationship four = .ok relation := hrelation
    obtain ⟨rfl, hfirst, hsecond⟩ := (readRelationship_eq_ok_iff
      (hfields ("relationship", four) (by simp))).mp hfour
    obtain ⟨rfl, hdifferent, hknownFirst, hknownSecond⟩ :=
      checkRelationship_eq_ok_iff.mp hrelationship
    obtain rfl : one = .unsigned id := hone
    obtain rfl : two = .string key := htwo
    obtain rfl : three = .string provenance := hthree
    obtain rfl : five = .unsigned semanticVersion := hfive
    rw [not_or] at hduplicate
    exact ⟨⟨id, semanticVersion, key, provenance, relationship⟩, rfl,
      ⟨hidValid, hversionValid, hkeyValid, hprovenanceValid, hfirst, hsecond, hdifferent,
        hknownFirst, hknownSecond⟩, hduplicate.1, hduplicate.2, (Except.ok.inj hnext).symm⟩
  · rintro ⟨definition, rfl, hvalid, hid, hkey, rfl⟩
    have hrelationStored : (relationshipJson definition.relationship).Stored := by
      cases hstored with
      | object _ hfields =>
        exact hfields ("relationship", relationshipJson definition.relationship) (by simp)
    unfold readConstraint
    rw [shape_ok (by rfl), bind_ok_eq, readId_eq_ok_iff.mpr ⟨by rfl, hvalid.id⟩, bind_ok_eq,
      readId_eq_ok_iff.mpr ⟨by rfl, hvalid.semanticVersion⟩, bind_ok_eq,
      readText_eq_ok_iff.mpr ⟨by rfl, hvalid.key⟩, bind_ok_eq,
      readText_eq_ok_iff.mpr ⟨by rfl, hvalid.provenance⟩, bind_ok_eq,
      if_neg (not_or.mpr ⟨hid, hkey⟩),
      show (definitionJson definition).field "relationship" =
        relationshipJson definition.relationship from rfl,
      (readRelationship_eq_ok_iff hrelationStored).mpr ⟨rfl, hvalid.first, hvalid.second⟩,
      bind_ok_eq, checkRelationship_eq_ok_iff.mpr
        ⟨rfl, hvalid.different, hvalid.known_first, hvalid.known_second⟩]
    rfl

/-! ### All entries -/

theorem registerMarket_registryOf {version : ℕ} {done : List (MarketId × String)}
    {market : MarketId × String} {next : MarketRegistry} (hversion : 0 < version)
    (hvalid : ValidMarket market) :
    (registryOf version done).registerMarket market.1 market.2 = (next, .registered) ↔
      market.1 ∉ done.map Prod.fst ∧ market.2 ∉ done.map Prod.snd ∧
        next = registryOf version (done ++ [market]) := by
  have hticker : (registryOf version done).findMarket market.2 = none ↔
      market.2 ∉ done.map Prod.snd := by
    rw [MarketRegistry.findMarket, registryOf, List.lookup_eq_none_iff]
    simp only [List.mem_reverse, List.mem_map, bne_iff_ne, ne_eq]
    constructor
    · rintro h ⟨entry, hentry, heq⟩
      exact h entry.swap ⟨entry, hentry, rfl⟩ heq.symm
    · rintro h _ ⟨entry, hentry, rfl⟩ heq
      exact h ⟨entry, hentry, heq.symm⟩
  unfold MarketRegistry.registerMarket
  rw [if_neg (show ¬(registryOf version done).metadataVersion = 0 from hversion.ne'),
    if_neg (Nat.pos_iff_ne_zero.mp hvalid.1.1),
    if_neg hvalid.2.1]
  cases hknown : (registryOf version done).findMarket market.2 with
  | some known =>
    have hmem : ¬market.2 ∉ done.map Prod.snd := fun hnot => by
      rw [hticker.mpr hnot] at hknown
      cases hknown
    refine iff_of_false (fun h => ?_) fun h => hmem h.2.1
    have hresult := congrArg Prod.snd h
    dsimp only at hresult
    split_ifs at hresult
  | none =>
    dsimp only
    by_cases hid : market.1 ∈ done.map Prod.fst
    · have hsome : ((registryOf version done).findTicker market.1).isSome = true := by
        rw [← Option.not_isNone, Bool.not_eq_true', ← Bool.not_eq_true, find_registryOf, not_not]
        exact hid
      simp [hsome, hid]
    · have hnone : ¬((registryOf version done).findTicker market.1).isSome = true := by
        rw [← Option.not_isNone, Bool.not_eq_true', Bool.not_eq_false, find_registryOf]
        exact hid
      rw [if_neg hnone]
      simp only [Prod.mk.injEq, and_true, hid, not_false_eq_true, hticker.mp hknown, true_and]
      have hmade : ({ registryOf version done with
          marketIds := (market.2, market.1) :: (registryOf version done).marketIds
          tickers := (market.1, market.2) :: (registryOf version done).tickers } :
          MarketRegistry) = registryOf version (done ++ [market]) := by
        simp [registryOf, Prod.swap]
      rw [hmade]
      exact eq_comm

/-- **The accepted market entries.** -/
theorem registerEntries_eq_ok_iff {version : ℕ} {entries : List Json} {registry : MarketRegistry}
    (hversion : 0 < version) (hstored : ∀ entry ∈ entries, entry.Stored) :
    entries.foldlM registerEntry { metadataVersion := version } = .ok registry ↔
      ∃ markets : List (MarketId × String), entries = markets.map marketJson ∧
        (∀ market ∈ markets, ValidMarket market) ∧ (markets.map Prod.fst).Nodup ∧
        (markets.map Prod.snd).Nodup ∧ registry = registryOf version markets := by
  have hstep (done : List (MarketId × String)) (entry : Json) (next : MarketRegistry)
      (hentry : entry.Stored) : registerEntry (registryOf version done) entry = .ok next ↔
        ∃ market, entry = marketJson market ∧
          (ValidMarket market ∧ market.1 ∉ done.map Prod.fst ∧ market.2 ∉ done.map Prod.snd) ∧
          next = registryOf version (done ++ [market]) := by
    rw [registerEntry_eq_ok_iff hentry]
    refine exists_congr fun market => and_congr_right fun _ => ?_
    constructor
    · rintro ⟨hvalid, hregister⟩
      obtain ⟨hid, hticker, rfl⟩ := (registerMarket_registryOf hversion hvalid).mp hregister
      exact ⟨⟨hvalid, hid, hticker⟩, rfl⟩
    · rintro ⟨⟨hvalid, hid, hticker⟩, rfl⟩
      exact ⟨hvalid, (registerMarket_registryOf hversion hvalid).mpr ⟨hid, hticker, rfl⟩⟩
  have hrun : entries.foldlM registerEntry (registryOf version []) = .ok registry ↔ _ :=
    runExcept_reads_iff hstep hstored
  refine hrun.trans (exists_congr fun markets => and_congr_right fun _ => ?_)
  rw [nodup_map_iff_fresh, nodup_map_iff_fresh]
  constructor
  · rintro ⟨hadmits, rfl⟩
    refine ⟨fun market hmarket => ?_, fun before market after heq => (hadmits _ _ _ heq).2.1,
      fun before market after heq => (hadmits _ _ _ heq).2.2, rfl⟩
    obtain ⟨before, after, heq⟩ := List.append_of_mem hmarket
    exact (hadmits _ _ _ heq).1
  · rintro ⟨hvalid, hids, htickers, rfl⟩
    exact ⟨fun before market after heq => ⟨hvalid market (by simp [heq]), hids _ _ _ heq,
      htickers _ _ _ heq⟩, rfl⟩

/-- **The accepted constraint entries.** -/
theorem readConstraints_eq_ok_iff {version : ℕ} {markets : List (MarketId × String)}
    {entries : List Json} {validated : List ConstraintDefinition}
    (hstored : ∀ entry ∈ entries, entry.Stored) :
    entries.foldlM (readConstraint (registryOf version markets)) [] = .ok validated ↔
      entries = validated.map definitionJson ∧
        (∀ definition ∈ validated, ValidConstraint (markets.map Prod.fst) definition) ∧
        (validated.map ConstraintDefinition.id).Nodup ∧
        (validated.map ConstraintDefinition.key).Nodup := by
  have hstep (done : List ConstraintDefinition) (entry : Json) (next : List ConstraintDefinition)
      (hentry : entry.Stored) :
      readConstraint (registryOf version markets) done entry = .ok next ↔
        ∃ definition, entry = definitionJson definition ∧
          (ValidConstraint (markets.map Prod.fst) definition ∧
            definition.id ∉ done.map ConstraintDefinition.id ∧
            definition.key ∉ done.map ConstraintDefinition.key) ∧
          next = done ++ [definition] := by
    rw [readConstraint_eq_ok_iff hentry]
    simp only [and_assoc]
  have hrun : entries.foldlM (readConstraint (registryOf version markets)) (id []) =
      .ok validated ↔ _ := runExcept_reads_iff hstep hstored
  refine hrun.trans ?_
  rw [nodup_map_iff_fresh, nodup_map_iff_fresh]
  constructor
  · rintro ⟨definitions, rfl, hadmits, rfl⟩
    refine ⟨rfl, fun definition hmem => ?_, fun before definition after heq =>
      (hadmits _ _ _ heq).2.1, fun before definition after heq => (hadmits _ _ _ heq).2.2⟩
    obtain ⟨before, after, heq⟩ := List.append_of_mem hmem
    exact (hadmits _ _ _ heq).1
  · rintro ⟨rfl, hvalid, hids, hkeys⟩
    exact ⟨validated, rfl, fun before definition after heq =>
      ⟨hvalid definition (by simp [heq]), hids _ _ _ heq, hkeys _ _ _ heq⟩, rfl⟩

/-- A valid constraint can be compiled. -/
theorem ValidConstraint.compiles {known : List MarketId} {definition : ConstraintDefinition}
    (h : ValidConstraint known definition) :
    ∃ compiled, compileConstraint definition = .ok compiled := by
  have hmetadata : hasValidMetadata definition = true := by
    simp [hasValidMetadata, Nat.pos_iff_ne_zero.mp h.id.1,
      Nat.pos_iff_ne_zero.mp h.semanticVersion.1, h.key.1, h.provenance.1]
  unfold compileConstraint
  rw [if_neg (by simp [hmetadata])]
  dsimp only
  rw [if_neg (by simp [Nat.pos_iff_ne_zero.mp h.first.1, Nat.pos_iff_ne_zero.mp h.second.1,
    h.different])]
  exact ⟨_, rfl⟩

/-- The constraints that were validated are all registered. -/
theorem addConstraints_eq {known : List MarketId} {definitions : List ConstraintDefinition}
    (hvalid : ∀ definition ∈ definitions, ValidConstraint known definition)
    (hids : (definitions.map ConstraintDefinition.id).Nodup)
    (hkeys : (definitions.map ConstraintDefinition.key).Nodup) :
    definitions.foldlM addConstraint {} = .ok (.ofDefinitions definitions) := by
  have hstep (done : List ConstraintDefinition) (definition : ConstraintDefinition)
      (next : ConstraintRegistry) (hdefinition : ValidConstraint known definition ∧
        definition.id ∉ done.map ConstraintDefinition.id ∧
        definition.key ∉ done.map ConstraintDefinition.key) :
      addConstraint (.ofDefinitions done) definition =
        .ok (.ofDefinitions (done ++ [definition])) := by
    obtain ⟨hvalid, hid, hkey⟩ := hdefinition
    obtain ⟨compiled, hcompiled⟩ := hvalid.compiles
    unfold addConstraint
    rw [ConstraintRegistry.add_ofDefinitions hcompiled hid hkey]
    rfl
  induction definitions using List.reverseRecOn with
  | nil => rfl
  | append_singleton definitions definition ih =>
    rw [List.map_append] at hids hkeys
    have hid := List.disjoint_of_nodup_append hids
    have hkey := List.disjoint_of_nodup_append hkeys
    rw [List.foldlM_append, ih (fun other hother => hvalid other (List.mem_append_left _ hother))
      (List.Nodup.of_append_left hids) (List.Nodup.of_append_left hkeys), bind_ok_eq,
      List.foldlM_cons, hstep definitions definition {} ⟨hvalid definition (by simp),
        fun hmem => hid hmem (by simp), fun hmem => hkey hmem (by simp)⟩]
    rfl

/-! ### The whole document -/

/-- The document of a version with these entries. -/
def documentJson (version : ℕ) (markets definitions : List Json) : Json :=
  .object [("constraints", .array definitions), ("markets", .array markets),
    ("metadata_version", .unsigned version), ("schema_version", .unsigned 1),
    ("venue", .string "kalshi")]

theorem readHeader_eq_ok_iff {root : Json} {version : ℕ} {markets definitions : List Json}
    (hstored : root.Stored) :
    readHeader root = .ok (version, markets, definitions) ↔
      root = documentJson version markets definitions ∧ 0 < version ∧ version ≤ uint64Max ∧
        markets ≠ [] ∧ markets.length ≤ 10000 ∧ definitions.length ≤ 50000 := by
  constructor
  · intro h
    unfold readHeader at h
    obtain ⟨_, hshape, h1⟩ := bind_eq_ok h
    obtain ⟨schema, hschema, h2⟩ := bind_eq_ok h1
    clear h h1
    split_ifs at h2 with hone
    · cases h2
    obtain ⟨number, hnumber, h3⟩ := bind_eq_ok h2
    obtain ⟨venue, hvenue, h4⟩ := bind_eq_ok h3
    clear h2 h3
    split_ifs at h4 with hkalshi
    · cases h4
    obtain ⟨readMarkets, hmarkets, h5⟩ := bind_eq_ok h4
    obtain ⟨readDefinitions, hdefinitions, h6⟩ := bind_eq_ok h5
    clear h4 h5
    split_ifs at h6 with hempty
    · cases h6
    obtain ⟨rfl, rfl, rfl⟩ : number = version ∧ readMarkets = markets ∧
        readDefinitions = definitions := by simpa using Except.ok.inj h6
    obtain ⟨fields, rfl, hnames, -⟩ := stored_of_shape hstored hshape
      (by decide : ["constraints", "markets", "metadata_version", "schema_version", "venue"].Perm _)
      (by decide)
    obtain ⟨one, tail1, rfl, htail1⟩ := exists_of_map_fst hnames
    obtain ⟨two, tail2, rfl, htail2⟩ := exists_of_map_fst htail1
    obtain ⟨three, tail3, rfl, htail3⟩ := exists_of_map_fst htail2
    obtain ⟨four, tail4, rfl, htail4⟩ := exists_of_map_fst htail3
    obtain ⟨five, last, rfl, hlast⟩ := exists_of_map_fst htail4
    obtain rfl := List.map_eq_nil_iff.mp hlast
    obtain ⟨hfour, -⟩ := positiveInteger_eq_ok_iff.mp hschema
    obtain ⟨hthree, hpos, hle⟩ := positiveInteger_eq_ok_iff.mp hnumber
    obtain ⟨hfive, -⟩ := readText_eq_ok_iff.mp hvenue
    obtain ⟨htwo, hmarketsLe⟩ := readArray_eq_ok_iff.mp hmarkets
    obtain ⟨hone', hdefinitionsLe⟩ := readArray_eq_ok_iff.mp hdefinitions
    obtain rfl : one = .array readDefinitions := hone'
    obtain rfl : two = .array readMarkets := htwo
    obtain rfl : three = .unsigned number := hthree
    obtain rfl : four = .unsigned schema := hfour
    obtain rfl : five = .string venue := hfive
    obtain rfl := not_not.mp hone
    obtain rfl := not_not.mp hkalshi
    exact ⟨rfl, hpos, hle, hempty, hmarketsLe, hdefinitionsLe⟩
  · rintro ⟨rfl, hpos, hle, hempty, hmarkets, hdefinitions⟩
    unfold readHeader
    rw [shape_ok (by rfl), bind_ok_eq,
      positiveInteger_eq_ok_iff.mpr ⟨by rfl, Nat.one_pos, by decide⟩, bind_ok_eq,
      if_neg (not_not.mpr rfl), positiveInteger_eq_ok_iff.mpr ⟨by rfl, hpos, hle⟩, bind_ok_eq,
      readText_eq_ok_iff.mpr ⟨by rfl, (by decide : ValidText 32 "kalshi")⟩, bind_ok_eq,
      if_neg (not_not.mpr rfl), readArray_eq_ok_iff.mpr ⟨by rfl, hmarkets⟩, bind_ok_eq,
      readArray_eq_ok_iff.mpr ⟨by rfl, hdefinitions⟩, bind_ok_eq, if_neg hempty]

theorem sortEntries_markets (markets : List (MarketId × String)) :
    sortEntries (markets.map marketJson) =
      (markets.mergeSort fun left right => decide (left.1 ≤ right.1)).map marketJson := by
  symm
  apply List.map_mergeSort
  exact fun _ _ _ _ => rfl

theorem sortEntries_definitions (definitions : List ConstraintDefinition) :
    sortEntries (definitions.map definitionJson) =
      (sortDefinitions definitions).map definitionJson := by
  symm
  apply List.map_mergeSort
  exact fun _ _ _ _ => rfl

/-- The canonical form of a document is the document with sorted entries. -/
theorem MetadataDocument.setFields_json (document : MetadataDocument) :
    (document.json.setField "markets"
      (.array (sortEntries (document.markets.map marketJson)))).setField
      "constraints" (.array (sortEntries (document.definitions.map definitionJson))) =
        document.sorted.json := by
  rw [sortEntries_markets, sortEntries_definitions]
  rfl

theorem MetadataDocument.sorted_definitions_perm (document : MetadataDocument) :
    document.sorted.definitions.Perm document.definitions :=
  List.mergeSort_perm ..

theorem MetadataDocument.sorted_markets_perm (document : MetadataDocument) :
    document.sorted.markets.Perm document.markets :=
  List.mergeSort_perm ..

/-- The registry of constraints of an admissible content. -/
theorem MetadataDocument.Admissible.addConstraints_sorted {document : MetadataDocument}
    (h : document.Admissible) :
    (sortDefinitions document.definitions).foldlM addConstraint {} =
      .ok (.ofDefinitions document.sorted.definitions) :=
  have hperm := document.sorted_definitions_perm
  addConstraints_eq (fun definition hmem => h.definitions_valid definition (hperm.mem_iff.mp hmem))
    ((hperm.map _).nodup_iff.mpr h.constraint_ids_nodup)
    ((hperm.map _).nodup_iff.mpr h.keys_nodup)

/-- **The accepted documents and their snapshots.** A parsed value is accepted exactly when it says
an admissible content, and the snapshot is that of the content. -/
theorem readSnapshot_eq_ok_iff {library : JsonLibrary} {root : Json} {snapshot : MetadataSnapshot}
    (hstored : root.Stored) :
    readSnapshot library root = .ok snapshot ↔ ∃ document : MetadataDocument,
      root = document.json ∧ document.Admissible ∧ snapshot = document.snapshot library := by
  have hentries {version : ℕ} {markets definitions : List Json}
      (hroot : root = documentJson version markets definitions) :
      (∀ entry ∈ markets, entry.Stored) ∧ ∀ entry ∈ definitions, entry.Stored := by
    subst hroot
    cases hstored with
    | object _ hfields =>
      constructor
      · cases hfields ("markets", .array markets) (by simp) with
        | array hitems => exact hitems
      · cases hfields ("constraints", .array definitions) (by simp) with
        | array hitems => exact hitems
  constructor
  · intro h
    unfold readSnapshot at h
    obtain ⟨⟨version, entries, definitions⟩, hheader, h1⟩ := bind_eq_ok h
    obtain ⟨registry, hregistry, h2⟩ := bind_eq_ok h1
    obtain ⟨validated, hvalidated, h3⟩ := bind_eq_ok h2
    obtain ⟨constraints, hconstraints, h4⟩ := bind_eq_ok h3
    clear h h1 h2 h3
    obtain ⟨hroot, hpos, hle, hempty, hmarketsLe, hdefinitionsLe⟩ :=
      (readHeader_eq_ok_iff hstored).mp hheader
    obtain ⟨markets, rfl, hmarkets, hids, htickers, rfl⟩ :=
      (registerEntries_eq_ok_iff hpos (hentries hroot).1).mp hregistry
    obtain ⟨rfl, hvalid, hconstraintIds, hkeys⟩ :=
      (readConstraints_eq_ok_iff (hentries hroot).2).mp hvalidated
    have hadmissible : MetadataDocument.Admissible ⟨version, markets, validated⟩ :=
      ⟨hpos, hle, fun hnil => hempty (by rw [show markets = [] from hnil]; rfl),
        by simpa using hmarketsLe, by simpa using hdefinitionsLe, hmarkets, hids, htickers, hvalid,
        hconstraintIds, hkeys⟩
    have hsame : constraints = .ofDefinitions (sortDefinitions validated) :=
      Except.ok.inj (hconstraints.symm.trans hadmissible.addConstraints_sorted)
    subst hroot
    refine ⟨⟨version, markets, validated⟩, rfl, hadmissible, ?_⟩
    rw [← Except.ok.inj h4, hsame]
    simp only [MetadataDocument.snapshot, ← MetadataDocument.setFields_json]
    rfl
  · rintro ⟨document, rfl, hadmissible, rfl⟩
    have hstores := hentries (rfl : document.json = documentJson document.metadataVersion
      (document.markets.map marketJson) (document.definitions.map definitionJson))
    unfold readSnapshot
    rw [(readHeader_eq_ok_iff hstored).mpr ⟨rfl, hadmissible.version_pos, hadmissible.version_le,
        by simpa using hadmissible.markets_ne_nil, by simpa using hadmissible.markets_le,
        by simpa using hadmissible.definitions_le⟩, bind_ok_eq]
    dsimp only
    rw [(registerEntries_eq_ok_iff hadmissible.version_pos hstores.1).mpr ⟨document.markets, rfl,
        hadmissible.markets_valid, hadmissible.ids_nodup, hadmissible.tickers_nodup, rfl⟩,
      bind_ok_eq, (readConstraints_eq_ok_iff hstores.2).mpr ⟨rfl, hadmissible.definitions_valid,
        hadmissible.constraint_ids_nodup, hadmissible.keys_nodup⟩, bind_ok_eq,
      hadmissible.addConstraints_sorted, bind_ok_eq, document.setFields_json]
    rfl

end EventMarket.Gateway
