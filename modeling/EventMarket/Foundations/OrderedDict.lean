import Mathlib.Data.List.Nodup

/-!
# Ordered dictionaries

A dictionary keeps its entries in the order in which their keys came, and no key twice.

## Main definitions

* `OrderedDict`: the entries, with distinct keys.
* `OrderedDict.get?`, `OrderedDict.set`, `OrderedDict.erase`: its operations.

## Main results

* `OrderedDict.get?_eq_some_iff`: a key has the value that its entry says.
* `OrderedDict.entries_set`, `OrderedDict.entries_erase`: the entries after an operation.
-/

namespace EventMarket.Foundations

variable {κ α : Type*}

/-- A dictionary with its entries in the order of insertion. -/
structure OrderedDict (κ α : Type*) where
  entries : List (κ × α)
  nodup : (entries.map Prod.fst).Nodup

namespace OrderedDict

variable {dict : OrderedDict κ α} {key : κ} {value : α}

/-- Two entries with one key are the same. -/
theorem eq_of_mem {first second : κ × α} (hfirst : first ∈ dict.entries)
    (hsecond : second ∈ dict.entries) (hkey : first.1 = second.1) : first = second :=
  List.inj_on_of_nodup_map dict.nodup hfirst hsecond hkey

variable [DecidableEq κ]

/-- The value of a key. -/
def get? (dict : OrderedDict κ α) (key : κ) : Option α := dict.entries.lookup key

/-- Remove a key. -/
def erase (dict : OrderedDict κ α) (key : κ) : OrderedDict κ α where
  entries := dict.entries.filter fun entry => entry.1 ≠ key
  nodup := dict.nodup.sublist (List.filter_sublist.map Prod.fst)

/-- Give a key a value. A key that is there keeps its place. -/
def set (dict : OrderedDict κ α) (key : κ) (value : α) : OrderedDict κ α where
  entries :=
    if key ∈ dict.entries.map Prod.fst then
      dict.entries.map fun entry => if entry.1 = key then (key, value) else entry
    else dict.entries ++ [(key, value)]
  nodup := by
    split
    · have hkeys : (dict.entries.map fun entry => if entry.1 = key then (key, value) else entry).map
          Prod.fst = dict.entries.map Prod.fst := by
        rw [List.map_map]
        refine List.map_congr_left fun entry _ => ?_
        by_cases hsame : entry.1 = key
        · simp [hsame]
        · simp [hsame]
      rw [hkeys]
      exact dict.nodup
    · next hnew =>
      rw [List.map_append]
      refine List.nodup_append.mpr ⟨dict.nodup, List.nodup_singleton key, ?_⟩
      rintro other hother last hlast rfl
      have hkey : other = key := List.mem_singleton.mp hlast
      exact hnew (hkey ▸ hother)

/-- **A key has the value that its entry says.** -/
theorem get?_eq_some_iff : dict.get? key = some value ↔ (key, value) ∈ dict.entries := by
  rw [get?, List.lookup_eq_some_iff]
  constructor
  · rintro ⟨before, after, heq, -⟩
    rw [heq]
    exact List.mem_append_right _ List.mem_cons_self
  · intro hmem
    obtain ⟨before, after, heq⟩ := List.append_of_mem hmem
    refine ⟨before, after, heq, fun entry hentry => ?_⟩
    have hnodup := dict.nodup
    rw [heq, List.map_append, List.map_cons, List.nodup_append] at hnodup
    have hne := hnodup.2.2 _ (List.mem_map_of_mem hentry) key List.mem_cons_self
    exact bne_iff_ne.mpr hne.symm

/-- A new key comes last. -/
theorem entries_set (hnew : ∀ entry ∈ dict.entries, entry.1 ≠ key) (value : α) :
    (dict.set key value).entries = dict.entries ++ [(key, value)] := by
  refine if_neg fun hmem => ?_
  obtain ⟨entry, hentry, hkey⟩ := List.mem_map.mp hmem
  exact hnew entry hentry hkey

theorem entries_erase (dict : OrderedDict κ α) (key : κ) :
    (dict.erase key).entries = dict.entries.filter fun entry => entry.1 ≠ key := rfl

end OrderedDict

end EventMarket.Foundations
