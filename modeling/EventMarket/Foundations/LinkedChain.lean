import Mathlib.Data.List.Nodup

/-!
# Chains of links

Nodes of one store are linked to their successors, and a head starts a chain. Several chains may
share the store; a chain only depends on the links of its own nodes.

## Main definitions

* `Linked`: the nodes of the chain that a head starts.
* `followLinks`: the chain, followed link by link.

## Main results

* `Linked.congr`, `Linked.concat`: links elsewhere, and one more node at the end.
* `Linked.followLinks_eq`: following the links finds the chain.
-/

namespace EventMarket.Foundations

variable {α : Type*} {next next' : α → Option α} {head : Option α} {chain : List α}

/-- **The chain from a head**: each node is linked to the one after, the last to none. -/
def Linked (next : α → Option α) : Option α → List α → Prop
  | head, [] => head = none
  | head, node :: rest => head = some node ∧ Linked next (next node) rest

theorem Linked.head_eq (h : Linked next head chain) : head = chain.head? := by
  cases chain with
  | nil => exact h
  | cons node rest => exact h.1

/-- A chain only depends on the links of its nodes. -/
theorem Linked.congr (h : Linked next head chain) (hnext : ∀ node ∈ chain, next' node = next node) :
    Linked next' head chain := by
  induction chain generalizing head with
  | nil => exact h
  | cons node rest ih =>
    obtain ⟨hhead, hrest⟩ := h
    refine ⟨hhead, ih ?_ fun other hother => hnext other (List.mem_cons_of_mem _ hother)⟩
    rwa [hnext node List.mem_cons_self]

/-- **One more node at the end**: the last node is linked to it. -/
theorem Linked.concat {node : α} (h : Linked next head chain) (hnodup : chain.Nodup)
    (hlast : ∀ last ∈ chain.getLast?, next' last = some node)
    (hsame : ∀ other ∈ chain, other ∉ chain.getLast? → next' other = next other)
    (hnode : next' node = none) : Linked next' (head <|> some node) (chain ++ [node]) := by
  induction chain generalizing head with
  | nil =>
    obtain rfl : head = none := h
    exact ⟨rfl, hnode⟩
  | cons first rest ih =>
    obtain ⟨rfl, hrest⟩ := h
    refine ⟨rfl, ?_⟩
    cases rest with
    | nil =>
      rw [hlast first (by simp)]
      exact ⟨rfl, hnode⟩
    | cons second rest =>
      have hfirst : next' first = next first := by
        refine hsame first List.mem_cons_self fun hmem => (List.nodup_cons.mp hnodup).1 ?_
        rw [List.getLast?_cons_cons] at hmem
        exact List.mem_of_getLast? hmem
      rw [hfirst]
      have hhead : (next first <|> some node) = next first := by rw [hrest.1]; rfl
      rw [← hhead]
      refine ih hrest hnodup.of_cons (fun last hmem => hlast last ?_) fun other hother hmem =>
        hsame other (List.mem_cons_of_mem _ hother) ?_
      · rwa [List.getLast?_cons_cons]
      · rwa [List.getLast?_cons_cons]

/-- The chain, as far as the fuel goes. -/
def followLinks (next : α → Option α) : ℕ → Option α → List α
  | 0, _ => []
  | _ + 1, none => []
  | fuel + 1, some node => node :: followLinks next fuel (next node)

/-- **Following the links finds the chain.** -/
theorem Linked.followLinks_eq {fuel : ℕ} (h : Linked next head chain)
    (hfuel : chain.length ≤ fuel) : followLinks next fuel head = chain := by
  induction chain generalizing head fuel with
  | nil =>
    obtain rfl : head = none := h
    cases fuel <;> rfl
  | cons node rest ih =>
    obtain ⟨rfl, hrest⟩ := h
    cases fuel with
    | zero => simp at hfuel
    | succ fuel => rw [followLinks, ih hrest (by simpa using hfuel)]

end EventMarket.Foundations
