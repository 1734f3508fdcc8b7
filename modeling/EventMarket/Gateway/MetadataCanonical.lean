import EventMarket.Gateway.JsonText
import EventMarket.Gateway.MetadataDocument

/-!
# The canonical form of a metadata document

The canonical form of an accepted document is accepted again, with the same markets and the same
constraints, and is its own canonical form. Documents that differ only in how they are written and
in the order of their entries have the same canonical form, and the canonical form determines the
snapshot.

## Main definitions

* `MetadataSnapshot.SameContent`: snapshots with the same registries and the same canonical form.
* `Json.SameEntries`: values that differ in the order of their markets and constraints.

## Main results

* `parseMetadataSnapshot_eq_ok_iff`: the accepted documents and their snapshots.
* `parseMetadataSnapshot_canonical`: the canonical form is accepted.
* `metadata_canonicalisation`: the canonical form and the content determine each other.
-/

namespace EventMarket.Gateway

open Constraint Core Foundations Market

/-! ### The same content -/

/-- Two registries find the same markets. -/
structure MarketRegistry.SameMarkets (registry other : MarketRegistry) : Prop where
  metadataVersion : registry.metadataVersion = other.metadataVersion
  findMarket : ∀ ticker, registry.findMarket ticker = other.findMarket ticker
  findTicker : ∀ marketId, registry.findTicker marketId = other.findTicker marketId
  size : registry.tickers.length = other.tickers.length

/-- The same markets, the same constraints with the same order of the dependencies, and the same
canonical form. -/
structure MetadataSnapshot.SameContent (snapshot other : MetadataSnapshot) : Prop where
  markets : snapshot.markets.SameMarkets other.markets
  constraints : snapshot.constraints = other.constraints
  canonicalJson : snapshot.canonicalJson = other.canonicalJson

/-- The same value but for the order of the markets and of the constraints. A parse already
forgets the whitespace and the order of the fields. -/
def Json.SameEntries (root other : Json) : Prop :=
  ∃ markets otherMarkets definitions otherDefinitions,
    root.field "markets" = .array markets ∧ root.field "constraints" = .array definitions ∧
    otherMarkets.Perm markets ∧ otherDefinitions.Perm definitions ∧
    other = (root.setField "markets" (.array otherMarkets)).setField "constraints"
      (.array otherDefinitions)

/-! ### Lists with distinct keys -/

section Lists

variable {α β : Type} [DecidableEq α]

theorem lookup_eq_some_iff_mem {a : α} {b : β} {entries : List (α × β)}
    (hdistinct : (entries.map Prod.fst).Nodup) :
    entries.lookup a = some b ↔ (a, b) ∈ entries := by
  induction entries with
  | nil => simp
  | cons entry entries ih =>
    obtain ⟨key, value⟩ := entry
    rw [List.map_cons, List.nodup_cons] at hdistinct
    rw [List.lookup_cons]
    by_cases heq : a = key
    · subst heq
      have hnot : (a, b) ∉ entries := fun hmem =>
        hdistinct.1 (List.mem_map.mpr ⟨(a, b), hmem, rfl⟩)
      simp only [beq_self_eq_true, Option.some.injEq, List.mem_cons, Prod.mk.injEq, true_and,
        hnot, or_false]
      exact eq_comm
    · rw [beq_eq_false_iff_ne.mpr heq]
      simp only [ih hdistinct.2, List.mem_cons, Prod.mk.injEq, heq, false_and, false_or]

theorem lookup_eq_of_perm {entries other : List (α × β)} (hperm : entries.Perm other)
    (hdistinct : (entries.map Prod.fst).Nodup) (a : α) : entries.lookup a = other.lookup a := by
  ext b
  rw [lookup_eq_some_iff_mem hdistinct,
    lookup_eq_some_iff_mem ((hperm.map Prod.fst).nodup_iff.mp hdistinct)]
  exact hperm.mem_iff

/-- Sorting by a distinct number forgets the order. -/
theorem mergeSort_eq_of_perm {f : β → ℕ} {items other : List β} (hperm : items.Perm other)
    (hdistinct : (items.map f).Nodup) :
    (items.mergeSort fun left right => decide (f left ≤ f right)) =
      other.mergeSort fun left right => decide (f left ≤ f right) := by
  have hsorted (items : List β) :
      (items.mergeSort fun left right => decide (f left ≤ f right)).Pairwise
        fun left right => f left ≤ f right := by
    have h : (items.mergeSort fun left right => decide (f left ≤ f right)).Pairwise
        fun left right => decide (f left ≤ f right) = true := by
      apply List.pairwise_mergeSort
      · intro a b c hab hbc
        exact decide_eq_true ((of_decide_eq_true hab).trans (of_decide_eq_true hbc))
      · intro a b
        rw [Bool.or_eq_true, decide_eq_true_eq, decide_eq_true_eq]
        exact le_total (f a) (f b)
    exact h.imp fun hle => of_decide_eq_true hle
  refine (((List.mergeSort_perm items _).trans hperm).trans
    (List.mergeSort_perm other _).symm).eq_of_pairwise (fun a b ha hb hab hba => ?_)
    (hsorted items) (hsorted other)
  exact List.inj_on_of_nodup_map hdistinct (List.mem_mergeSort.mp ha)
    (hperm.mem_iff.mpr (List.mem_mergeSort.mp hb)) (le_antisymm hab hba)

end Lists

/-! ### Contents in another order -/

theorem marketJson_injective : Function.Injective marketJson := by
  rintro ⟨id, ticker⟩ ⟨otherId, otherTicker⟩ h
  simpa [marketJson] using h

theorem relationshipJson_injective : Function.Injective relationshipJson := by
  rintro (⟨first, second⟩ | ⟨first, second⟩) (⟨otherFirst, otherSecond⟩ | ⟨otherFirst, otherSecond⟩)
    h <;> simp_all [relationshipJson]

theorem definitionJson_injective : Function.Injective definitionJson := by
  rintro ⟨id, semanticVersion, key, provenance, relationship⟩
    ⟨otherId, otherVersion, otherKey, otherProvenance, otherRelationship⟩ h
  simp only [definitionJson, Json.object.injEq, List.cons.injEq, Prod.mk.injEq, true_and,
    Json.unsigned.injEq, Json.string.injEq, and_true] at h
  obtain ⟨rfl, rfl, rfl, hrelationship, rfl⟩ := h
  rw [relationshipJson_injective hrelationship]

namespace MetadataDocument

variable {document other : MetadataDocument} {library : JsonLibrary}

theorem json_injective : Function.Injective json := by
  rintro ⟨version, markets, definitions⟩ ⟨otherVersion, otherMarkets, otherDefinitions⟩ h
  simp only [json, Json.object.injEq, List.cons.injEq, Prod.mk.injEq, true_and,
    Json.unsigned.injEq, Json.array.injEq, and_true] at h
  obtain ⟨hdefinitions, hmarkets, rfl⟩ := h
  obtain rfl := definitionJson_injective.list_map hdefinitions
  obtain rfl := marketJson_injective.list_map hmarkets
  rfl

/-- The same content but for the order of the entries. -/
structure Permuted (document other : MetadataDocument) : Prop where
  metadataVersion : document.metadataVersion = other.metadataVersion
  markets : document.markets.Perm other.markets
  definitions : document.definitions.Perm other.definitions

theorem sorted_permuted (document : MetadataDocument) : document.sorted.Permuted document :=
  ⟨rfl, document.sorted_markets_perm, document.sorted_definitions_perm⟩

theorem Admissible.tickers_distinct (library : JsonLibrary) (h : document.Admissible) :
    ((document.snapshot library).markets.tickers.map Prod.fst).Nodup :=
  ((List.reverse_perm document.markets).map Prod.fst).nodup_iff.mpr h.ids_nodup

theorem Admissible.marketIds_distinct (library : JsonLibrary) (h : document.Admissible) :
    ((document.snapshot library).markets.marketIds.map Prod.fst).Nodup := by
  refine ((List.reverse_perm (document.markets.map Prod.swap)).map Prod.fst).nodup_iff.mpr ?_
  rw [List.map_map]
  exact h.tickers_nodup

/-- Every market of a content is found both ways. -/
theorem Admissible.find_market (h : document.Admissible) {market : MarketId × String}
    (hmarket : market ∈ document.markets) :
    (document.snapshot library).markets.findTicker market.1 = some market.2 ∧
      (document.snapshot library).markets.findMarket market.2 = some market.1 := by
  constructor
  · exact (lookup_eq_some_iff_mem (h.tickers_distinct library)).mpr (List.mem_reverse.mpr hmarket)
  · exact (lookup_eq_some_iff_mem (h.marketIds_distinct library)).mpr
      (List.mem_reverse.mpr (List.mem_map.mpr ⟨market, hmarket, rfl⟩))

theorem Admissible.isSome_findTicker (h : document.Admissible) {marketId : MarketId}
    (hknown : marketId ∈ document.markets.map Prod.fst) :
    ((document.snapshot library).markets.findTicker marketId).isSome = true := by
  obtain ⟨market, hmarket, rfl⟩ := List.mem_map.mp hknown
  rw [(h.find_market hmarket).1]
  rfl

/-- Every constraint of a content is found. -/
theorem Admissible.find_definition (h : document.Admissible) {definition : ConstraintDefinition}
    (hdefinition : definition ∈ document.definitions) :
    ∃ compiled, (document.snapshot library).constraints.find definition.id = some compiled ∧
      compiled.metadata = definition := by
  have hperm := document.sorted_definitions_perm
  exact ConstraintRegistry.find_ofDefinitions
    (fun other hother => (h.definitions_valid other (hperm.mem_iff.mp hother)).compiles)
    ((hperm.map _).nodup_iff.mpr h.constraint_ids_nodup)
    ((hperm.map _).nodup_iff.mpr h.keys_nodup) (hperm.mem_iff.mpr hdefinition)

/-- What can be loaded does not depend on the order. -/
theorem Admissible.of_permuted (h : document.Admissible) (hpermuted : other.Permuted document) :
    other.Admissible := by
  obtain ⟨hversion, hmarkets, hdefinitions⟩ := hpermuted
  refine ⟨hversion ▸ h.version_pos, hversion ▸ h.version_le, fun hnil => ?_,
    hmarkets.length_eq ▸ h.markets_le, hdefinitions.length_eq ▸ h.definitions_le,
    fun market hmem => h.markets_valid market (hmarkets.mem_iff.mp hmem),
    (hmarkets.map _).nodup_iff.mpr h.ids_nodup, (hmarkets.map _).nodup_iff.mpr h.tickers_nodup,
    fun definition hmem => ?_, (hdefinitions.map _).nodup_iff.mpr h.constraint_ids_nodup,
    (hdefinitions.map _).nodup_iff.mpr h.keys_nodup⟩
  · rw [hnil] at hmarkets
    exact h.markets_ne_nil hmarkets.nil_eq.symm
  · have hvalid := h.definitions_valid definition (hdefinitions.mem_iff.mp hmem)
    exact { hvalid with
      known_first := (hmarkets.map Prod.fst).mem_iff.mpr hvalid.known_first
      known_second := (hmarkets.map Prod.fst).mem_iff.mpr hvalid.known_second }

/-- Contents in another order are sorted to the same content. -/
theorem Admissible.sorted_eq (h : document.Admissible) (hpermuted : document.Permuted other) :
    document.sorted = other.sorted := by
  simp only [sorted, sortDefinitions, MetadataDocument.mk.injEq]
  exact ⟨hpermuted.metadataVersion, mergeSort_eq_of_perm hpermuted.markets h.ids_nodup,
    mergeSort_eq_of_perm hpermuted.definitions h.constraint_ids_nodup⟩

theorem Admissible.sorted_sorted (h : document.Admissible) :
    document.sorted.sorted = document.sorted :=
  (h.of_permuted document.sorted_permuted).sorted_eq document.sorted_permuted

/-- Contents in another order have the same snapshot. -/
theorem Admissible.snapshot_sameContent (h : document.Admissible)
    (hpermuted : document.Permuted other) :
    (document.snapshot library).SameContent (other.snapshot library) := by
  have hsorted := h.sorted_eq hpermuted
  refine ⟨⟨hpermuted.metadataVersion, fun ticker => ?_, fun marketId => ?_, ?_⟩, ?_, ?_⟩
  · exact lookup_eq_of_perm ((List.reverse_perm _).trans
      ((hpermuted.markets.map Prod.swap).trans (List.reverse_perm _).symm))
      (h.marketIds_distinct library) ticker
  · exact lookup_eq_of_perm ((List.reverse_perm _).trans
      (hpermuted.markets.trans (List.reverse_perm _).symm)) (h.tickers_distinct library) marketId
  · simpa [snapshot, registryOf] using hpermuted.markets.length_eq
  · exact congrArg (fun sorted => ConstraintRegistry.ofDefinitions sorted.definitions) hsorted
  · exact congrArg (fun sorted => library.dump sorted.json) hsorted

end MetadataDocument

/-! ### The text of a content -/

theorem relationshipJson_plain {relationship : Relationship}
    (hfirst : ValidId relationship.markets.1) (hsecond : ValidId relationship.markets.2) :
    (relationshipJson relationship).Plain 1 := by
  have hle {id : ℕ} (h : ValidId id) : id ≤ uint64Max := h.2.trans (by decide)
  cases relationship with
  | implication antecedent consequent =>
    refine .object (by decide : ["antecedent", "consequent", "type"].Pairwise (· < ·))
      fun field hfield => ?_
    simp only [List.mem_cons, List.not_mem_nil, or_false] at hfield
    rcases hfield with rfl | rfl | rfl
    · exact .unsigned (hle hfirst)
    · exact .unsigned (hle hsecond)
    · exact .string _
  | complement left right =>
    refine .object (by decide : ["left", "right", "type"].Pairwise (· < ·)) fun field hfield => ?_
    simp only [List.mem_cons, List.not_mem_nil, or_false] at hfield
    rcases hfield with rfl | rfl | rfl
    · exact .unsigned (hle hfirst)
    · exact .unsigned (hle hsecond)
    · exact .string _

theorem definitionJson_plain {known : List MarketId} {definition : ConstraintDefinition}
    (h : ValidConstraint known definition) : (definitionJson definition).Plain 2 := by
  have hle {id : ℕ} (h : ValidId id) : id ≤ uint64Max := h.2.trans (by decide)
  refine .object (by decide : ["id", "key", "provenance", "relationship",
    "semantic_version"].Pairwise (· < ·)) fun field hfield => ?_
  simp only [List.mem_cons, List.not_mem_nil, or_false] at hfield
  rcases hfield with rfl | rfl | rfl | rfl | rfl
  · exact .unsigned (hle h.id)
  · exact .string _
  · exact .string _
  · exact relationshipJson_plain h.first h.second
  · exact .unsigned (hle h.semanticVersion)

theorem marketJson_plain {market : MarketId × String} (h : ValidMarket market) :
    (marketJson market).Plain 2 := by
  refine .object (by decide : ["id", "ticker"].Pairwise (· < ·)) fun field hfield => ?_
  simp only [List.mem_cons, List.not_mem_nil, or_false] at hfield
  rcases hfield with rfl | rfl
  · exact .unsigned (h.1.2.trans (by decide))
  · exact .string _

namespace MetadataDocument

variable {document : MetadataDocument}

/-- An admissible content is a plain value. -/
theorem Admissible.plain (h : document.Admissible) : document.json.Plain 4 := by
  refine .object (by decide : ["constraints", "markets", "metadata_version", "schema_version",
    "venue"].Pairwise (· < ·)) fun field hfield => ?_
  simp only [List.mem_cons, List.not_mem_nil, or_false] at hfield
  rcases hfield with rfl | rfl | rfl | rfl | rfl
  · refine .array fun item hitem => ?_
    obtain ⟨definition, hmem, rfl⟩ := List.mem_map.mp hitem
    exact definitionJson_plain (h.definitions_valid definition hmem)
  · refine .array fun item hitem => ?_
    obtain ⟨market, hmem, rfl⟩ := List.mem_map.mp hitem
    exact marketJson_plain (h.markets_valid market hmem)
  · exact .unsigned h.version_le
  · exact .unsigned (by decide)
  · exact .string _

theorem reordered_sorted (document : MetadataDocument) :
    document.json.Reordered document.sorted.json := by
  have hdefinitions (after : List (String × Json)) :
      (Json.object (("constraints", .array (document.definitions.map definitionJson)) ::
        after)).Reordered (.object (("constraints",
          .array (document.sorted.definitions.map definitionJson)) :: after)) :=
    .field (.items (document.sorted_definitions_perm.symm.map definitionJson)) [] after
  have hmarkets (first : String × Json) (after : List (String × Json)) :
      (Json.object (first :: ("markets", .array (document.markets.map marketJson)) ::
        after)).Reordered (.object (first :: ("markets",
          .array (document.sorted.markets.map marketJson)) :: after)) :=
    .field (.items (document.sorted_markets_perm.symm.map marketJson)) [first] after
  exact .trans (hdefinitions _) (hmarkets _ _)

end MetadataDocument

/-- A plain value can be stored. -/
theorem Json.Plain.stored {depth : ℕ} {value : Json} (h : value.Plain depth) : value.Stored := by
  induction h with
  | null => exact .null
  | boolean value => exact .boolean value
  | unsigned hle => exact .unsigned hle
  | negative _ hle => exact .negative hle
  | string value => exact .string value
  | array _ ih => exact .array ih
  | object hsorted _ ih => exact .object hsorted ih

/-! ### The canonical form -/

section Canonical

variable {library : JsonLibrary}

/-- **The accepted documents and their snapshots.** -/
theorem parseMetadataSnapshot_eq_ok (h : library.Lawful) {input : List UInt8}
    {snapshot : MetadataSnapshot} (hparse : parseMetadataSnapshot library input = .ok snapshot) :
    ∃ document : MetadataDocument, (library.parse input).value = some document.json ∧
      document.Admissible ∧ snapshot = document.snapshot library ∧
      input.length ≤ maximumMetadataBytes := by
  unfold parseMetadataSnapshot at hparse
  split_ifs at hparse with hlong
  · cases hparse
  obtain ⟨root, hroot, hread⟩ := bind_eq_ok hparse
  have hvalue := parseChecked_eq_ok hroot
  obtain ⟨document, rfl, hadmissible, hsnapshot⟩ :=
    (readSnapshot_eq_ok_iff (h.stored input root hvalue)).mp hread
  exact ⟨document, hvalue, hadmissible, hsnapshot, not_lt.mp hlong⟩

/-- The text of an admissible content is accepted. -/
theorem parseMetadataSnapshot_dump (h : library.Lawful) {document : MetadataDocument}
    (hadmissible : document.Admissible)
    (hlength : (library.dump document.json).length ≤ maximumMetadataBytes) :
    parseMetadataSnapshot library (library.dump document.json) =
      .ok (document.snapshot library) := by
  unfold parseMetadataSnapshot
  rw [if_neg (not_lt.mpr hlength), h.parseChecked_dump hadmissible.plain (by decide), bind_ok_eq]
  exact (readSnapshot_eq_ok_iff hadmissible.plain.stored).mpr ⟨document, rfl, hadmissible, rfl⟩

/-- **The canonical form is accepted.** -/
theorem parseMetadataSnapshot_canonical (h : library.Lawful) {input : List UInt8}
    {document : MetadataDocument} (hvalue : (library.parse input).value = some document.json)
    (hadmissible : document.Admissible) (hlength : input.length ≤ maximumMetadataBytes) :
    parseMetadataSnapshot library (library.dump document.sorted.json) =
      .ok (document.sorted.snapshot library) :=
  parseMetadataSnapshot_dump h (hadmissible.of_permuted document.sorted_permuted)
    ((h.compact input document.json document.sorted.json hvalue 4 hadmissible.plain
      document.reordered_sorted).trans hlength)

/-- The canonical form of a snapshot is accepted with the same content. -/
theorem parseMetadataSnapshot_reload (h : library.Lawful) {input : List UInt8}
    {snapshot : MetadataSnapshot} (hparse : parseMetadataSnapshot library input = .ok snapshot) :
    ∃ reloaded, parseMetadataSnapshot library snapshot.canonicalJson = .ok reloaded ∧
      reloaded.SameContent snapshot := by
  obtain ⟨document, hvalue, hadmissible, rfl, hlength⟩ := parseMetadataSnapshot_eq_ok h hparse
  exact ⟨document.sorted.snapshot library,
    parseMetadataSnapshot_canonical h hvalue hadmissible hlength,
    (hadmissible.of_permuted document.sorted_permuted).snapshot_sameContent
      document.sorted_permuted⟩

/-- Accepted documents with the same entries have contents that differ in their order. -/
theorem permuted_of_sameEntries {document other : MetadataDocument}
    (h : document.json.SameEntries other.json) : document.Permuted other := by
  obtain ⟨markets, otherMarkets, definitions, otherDefinitions, hmarkets, hdefinitions,
    hmarketsPerm, hdefinitionsPerm, hother⟩ := h
  obtain rfl := Json.array.inj hmarkets
  obtain rfl := Json.array.inj hdefinitions
  have hset : (document.json.setField "markets" (.array otherMarkets)).setField "constraints"
      (.array otherDefinitions) =
        documentJson document.metadataVersion otherMarkets otherDefinitions := rfl
  rw [hset, MetadataDocument.json, documentJson] at hother
  simp only [Json.object.injEq, List.cons.injEq, Prod.mk.injEq, true_and, Json.unsigned.injEq,
    Json.array.injEq, and_true] at hother
  obtain ⟨rfl, rfl, hversion⟩ := hother
  exact ⟨hversion.symm, (List.map_perm_map_iff marketJson_injective).mp hmarketsPerm.symm,
    (List.map_perm_map_iff definitionJson_injective).mp hdefinitionsPerm.symm⟩

/-- **Canonicalisation of metadata.** When the library parses what it prints:

* the canonical form of an accepted document is accepted with the same content, and it is its own
  canonical form;
* accepted documents that differ only in how they are written and in the order of the markets and
  of the constraints have the same content;
* accepted documents with the same canonical form have the same content;
* all ids, tickers and keys of an accepted document are unique, and every constraint is between
  markets of the snapshot. -/
theorem metadata_canonicalisation (h : library.Lawful) :
    (∀ input snapshot, parseMetadataSnapshot library input = .ok snapshot →
      ∃ reloaded, parseMetadataSnapshot library snapshot.canonicalJson = .ok reloaded ∧
        reloaded.SameContent snapshot) ∧
    (∀ input snapshot other otherSnapshot,
      parseMetadataSnapshot library input = .ok snapshot →
      parseMetadataSnapshot library other = .ok otherSnapshot →
      ∀ root otherRoot, (library.parse input).value = some root →
        (library.parse other).value = some otherRoot → root.SameEntries otherRoot →
        snapshot.SameContent otherSnapshot) ∧
    (∀ input snapshot other otherSnapshot,
      parseMetadataSnapshot library input = .ok snapshot →
      parseMetadataSnapshot library other = .ok otherSnapshot →
      snapshot.canonicalJson = otherSnapshot.canonicalJson →
      snapshot.SameContent otherSnapshot) ∧
    ∀ input snapshot, parseMetadataSnapshot library input = .ok snapshot →
      ∃ document : MetadataDocument, (library.parse input).value = some document.json ∧
        (document.markets.map Prod.fst).Nodup ∧ (document.markets.map Prod.snd).Nodup ∧
        (document.definitions.map ConstraintDefinition.id).Nodup ∧
        (document.definitions.map ConstraintDefinition.key).Nodup ∧
        (∀ market ∈ document.markets,
          snapshot.markets.findTicker market.1 = some market.2 ∧
          snapshot.markets.findMarket market.2 = some market.1) ∧
        ∀ definition ∈ document.definitions,
          (∃ compiled, snapshot.constraints.find definition.id = some compiled ∧
            compiled.metadata = definition) ∧
          (snapshot.markets.findTicker definition.relationship.markets.1).isSome ∧
          (snapshot.markets.findTicker definition.relationship.markets.2).isSome := by
  refine ⟨fun input snapshot hparse => parseMetadataSnapshot_reload h hparse,
    fun input snapshot other otherSnapshot hparse hother root otherRoot hroot hotherRoot
      hsame => ?_,
    fun input snapshot other otherSnapshot hparse hother hcanonical => ?_,
    fun input snapshot hparse => ?_⟩
  · obtain ⟨document, hvalue, hadmissible, rfl, -⟩ := parseMetadataSnapshot_eq_ok h hparse
    obtain ⟨otherDocument, hotherValue, -, rfl, -⟩ := parseMetadataSnapshot_eq_ok h hother
    obtain rfl := Option.some.inj (hvalue.symm.trans hroot)
    obtain rfl := Option.some.inj (hotherValue.symm.trans hotherRoot)
    exact hadmissible.snapshot_sameContent (permuted_of_sameEntries hsame)
  · obtain ⟨document, -, hadmissible, rfl, -⟩ := parseMetadataSnapshot_eq_ok h hparse
    obtain ⟨otherDocument, -, hotherAdmissible, rfl, -⟩ := parseMetadataSnapshot_eq_ok h hother
    have hsorted := hadmissible.of_permuted document.sorted_permuted
    have hotherSorted := hotherAdmissible.of_permuted otherDocument.sorted_permuted
    have hparsed := h.parse_dump 4 _ hsorted.plain
    rw [show library.dump document.sorted.json = library.dump otherDocument.sorted.json from
      hcanonical, h.parse_dump 4 _ hotherSorted.plain] at hparsed
    have hequal : otherDocument.sorted = document.sorted :=
      MetadataDocument.json_injective (Option.some.inj (congrArg Parsed.value hparsed))
    have hdocument := document.sorted_permuted
    have hotherDocument := otherDocument.sorted_permuted
    rw [hequal] at hotherDocument
    exact hadmissible.snapshot_sameContent
      ⟨hdocument.metadataVersion.symm.trans hotherDocument.metadataVersion,
        hdocument.markets.symm.trans hotherDocument.markets,
        hdocument.definitions.symm.trans hotherDocument.definitions⟩
  · obtain ⟨document, hvalue, hadmissible, rfl, -⟩ := parseMetadataSnapshot_eq_ok h hparse
    refine ⟨document, hvalue, hadmissible.ids_nodup, hadmissible.tickers_nodup,
      hadmissible.constraint_ids_nodup, hadmissible.keys_nodup, fun market hmarket =>
        hadmissible.find_market hmarket, fun definition hdefinition => ?_⟩
    have hvalid := hadmissible.definitions_valid definition hdefinition
    exact ⟨hadmissible.find_definition hdefinition,
      hadmissible.isSome_findTicker hvalid.known_first,
      hadmissible.isSome_findTicker hvalid.known_second⟩

end Canonical

/-- Two markets and two constraints that are not in the order of their ids. -/
def sampleMetadata : MetadataDocument where
  metadataVersion := 1
  markets := [(2, "B"), (1, "A")]
  definitions := [⟨7, 1, "B implies A", "review", .implication 2 1⟩,
    ⟨3, 1, "A or B", "review", .complement 1 2⟩]

theorem sampleMetadata_admissible : sampleMetadata.Admissible where
  version_pos := by decide
  version_le := by decide
  markets_ne_nil := by decide
  markets_le := by decide
  definitions_le := by decide
  markets_valid := by simp only [ValidMarket, ValidId]; decide
  ids_nodup := by decide
  tickers_nodup := by decide
  definitions_valid := by
    refine List.forall_mem_cons.mpr ⟨?_, List.forall_mem_cons.mpr ⟨?_, by simp⟩⟩ <;>
      exact ⟨⟨by decide, by decide⟩, ⟨by decide, by decide⟩, by decide, by decide,
        ⟨by decide, by decide⟩, ⟨by decide, by decide⟩, by decide, by decide, by decide⟩
  constraint_ids_nodup := by decide
  keys_nodup := by decide

theorem metadata_canonicalisation_sample :
    ∃ reloaded, parseMetadataSnapshot compactLibrary
        (compactLibrary.dump sampleMetadata.sorted.json) = .ok reloaded ∧
      reloaded.SameContent (sampleMetadata.snapshot compactLibrary) :=
  (metadata_canonicalisation compactLibrary_lawful).1 (compactLibrary.dump sampleMetadata.json) _
    (parseMetadataSnapshot_dump compactLibrary_lawful sampleMetadata_admissible (by decide +kernel))

end EventMarket.Gateway
