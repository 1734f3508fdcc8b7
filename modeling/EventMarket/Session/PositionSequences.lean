import EventMarket.Session.PositionLots

/-!
# Sequences of position operations

Acquisitions append lots, closes take them from the front and a settlement empties the positions
of its market. This file takes the invariant of `EventMarket.Session.PositionLots` through every
sequence of these operations.

## Main definitions

* `StudyPositions.Settled`: what a settlement does.
* `StudyPositions.PositionOp`, `StudyPositions.apply`: the operations.
* `StudyPositions.Reached`: the positions that sequences of operations reach.

## Main results

* `StudyPositions.acquire_spec`, `StudyPositions.settle_spec`: one operation.
* `StudyPositions.reached_sound`, `StudyPositions.reached_consistent`: all sequences.
-/

namespace EventMarket.Session

open Constraint Core Foundations Market

namespace StudyPositions

/-! ### Acquisition -/

/-- What an acquisition adds, and what it leaves alone. -/
structure Acquired (index quantity debit : ℕ) (before after : StudyPositions) : Prop where
  position : ∀ other, other ≠ index → after.position other = before.position other
  chain_other : ∀ other, other ≠ index → after.chain other = before.chain other
  lot : ∀ lot, lot < before.lots.length → lot ∉ before.chain index →
    after.lot lot = before.lot lot
  chain : after.chain index = before.chain index ++ [before.lots.length]
  quantity : (after.position index).quantity = (before.position index).quantity + quantity
  positions_length : after.positions.length = before.positions.length
  acquired : after.acquiredDebit index = before.acquiredDebit index + debit
  acquired_other : ∀ other, other ≠ index → after.acquiredDebit other = before.acquiredDebit other
  released : ∀ other, after.releasedBasis other = before.releasedBasis other

section Acquisition

variable {now time : ℕ} {self : StudyPositions} {chains : ℕ → List ℕ} {index : ℕ}

theorem linkTail_eq (self : StudyPositions) (tail : Option ℕ) (next : ℕ) :
    (self.linkTail tail next).positions = self.positions ∧
      (self.linkTail tail next).rows = self.rows ∧
      (self.linkTail tail next).lots.length = self.lots.length := by
  cases tail with
  | none => exact ⟨rfl, rfl, rfl⟩
  | some tail => exact ⟨rfl, rfl, List.length_set ..⟩

/-- Linking the last lot changes its link alone. -/
theorem lot_linkTail {tail : Option ℕ} (htail : ∀ last ∈ tail, last < self.lots.length)
    (next other : ℕ) :
    (self.linkTail tail next).lot other =
      if tail = some other then { self.lot other with next := some next } else self.lot other := by
  cases tail with
  | none => exact (if_neg (by simp)).symm
  | some tail =>
    rw [linkTail, lot_setLot (htail tail rfl)]
    by_cases heq : other = tail
    · rw [if_pos heq, if_pos (by rw [heq]), heq]
    · rw [if_neg heq, if_neg (by simpa using Ne.symm heq)]

/-- The position after an acquisition. -/
def acquiredPosition (self : StudyPositions) (index : ℕ) (leg : PayoffLegTemplate)
    (quantity : ℕ) : Position where
  leg := leg
  quantity := (self.position index).quantity + quantity
  head := (self.position index).head <|> some self.lots.length
  tail := some self.lots.length

/-- The positions after an acquisition. -/
def afterAcquire (self : StudyPositions) (index : ℕ) (leg : PayoffLegTemplate)
    (quantity debit time : ℕ) : StudyPositions :=
  let linked := self.linkTail (self.position index).tail self.lots.length
  { linked.setPosition index (self.acquiredPosition index leg quantity) with
    lots := linked.lots ++ [⟨quantity, debit, time, none⟩]
    rows := linked.rows ++ [.acquired index self.lots.length quantity debit] }

/-- The lots after an acquisition. -/
theorem lot_afterAcquire (h : Chained now self chains) (index : ℕ) (leg : PayoffLegTemplate)
    (quantity debit time other : ℕ) :
    (self.afterAcquire index leg quantity debit time).lot other =
      if other = self.lots.length then ⟨quantity, debit, time, none⟩
      else if (self.position index).tail = some other then
        { self.lot other with next := some self.lots.length }
      else self.lot other := by
  have htail : ∀ last ∈ (self.position index).tail, last < self.lots.length := fun last hlast =>
    h.bounded index last (List.mem_of_getLast? (by rw [← h.tail index]; exact hlast))
  have hlength := (self.linkTail_eq (self.position index).tail self.lots.length).2.2
  have hlinked := lot_linkTail htail self.lots.length other
  set linked := self.linkTail (self.position index).tail self.lots.length
  have hgetD : (self.afterAcquire index leg quantity debit time).lot other =
      (linked.lots ++ [(⟨quantity, debit, time, none⟩ : Lot)]).getD other {} := rfl
  rw [hgetD, List.getD_eq_getElem?_getD]
  by_cases heq : other = self.lots.length
  · rw [if_pos heq, heq, ← hlength, List.getElem?_concat_length]
    rfl
  rw [if_neg heq, ← hlinked]
  rcases Nat.lt_or_gt_of_ne heq with hlt | hgt
  · rw [List.getElem?_append_left (hlt.trans_eq hlength.symm), ← List.getD_eq_getElem?_getD]
    rfl
  · rw [List.getElem?_eq_none (by simp [hlength]; omega)]
    unfold StudyPositions.lot
    rw [List.getD_eq_getElem?_getD, List.getElem?_eq_none (by omega)]

theorem position_afterAcquire (hindex : index < self.positions.length) (leg : PayoffLegTemplate)
    (quantity debit time other : ℕ) :
    (self.afterAcquire index leg quantity debit time).position other =
      if other = index then self.acquiredPosition index leg quantity else self.position other := by
  have hlinked := self.linkTail_eq (self.position index).tail self.lots.length
  have hset := @position_setPosition _ index other (hindex.trans_eq
    (congrArg List.length hlinked.1).symm) (self.acquiredPosition index leg quantity)
  have hsame : (self.linkTail (self.position index).tail self.lots.length).position other =
      self.position other := congrArg (fun positions => positions.getD other {}) hlinked.1
  rw [hsame] at hset
  exact hset

theorem rows_afterAcquire (self : StudyPositions) (index : ℕ) (leg : PayoffLegTemplate)
    (quantity debit time : ℕ) : (self.afterAcquire index leg quantity debit time).rows =
      self.rows ++ [.acquired index self.lots.length quantity debit] :=
  congrArg (· ++ _) (self.linkTail_eq (self.position index).tail self.lots.length).2.1

theorem acquiredDebit_afterAcquire (self : StudyPositions) (index : ℕ) (leg : PayoffLegTemplate)
    (quantity debit time other : ℕ) :
    (self.afterAcquire index leg quantity debit time).acquiredDebit other =
      self.acquiredDebit other + if index = other then debit else 0 := by
  simp [acquiredDebit, rows_afterAcquire, LotRow.acquiredBy]

theorem releasedBasis_afterAcquire (self : StudyPositions) (index : ℕ) (leg : PayoffLegTemplate)
    (quantity debit time other : ℕ) :
    (self.afterAcquire index leg quantity debit time).releasedBasis other =
      self.releasedBasis other := by
  simp [releasedBasis, rows_afterAcquire, LotRow.releasedBy]

/-- The lots that are there keep all but their links, and outside the chain of the position also
these. -/
theorem lot_afterAcquire_of_lt (h : Chained now self chains) (index : ℕ)
    (leg : PayoffLegTemplate) (quantity debit time : ℕ) {lot : ℕ} (hlt : lot < self.lots.length) :
    (((self.afterAcquire index leg quantity debit time).lot lot).quantity =
        (self.lot lot).quantity ∧
      ((self.afterAcquire index leg quantity debit time).lot lot).debit = (self.lot lot).debit ∧
      ((self.afterAcquire index leg quantity debit time).lot lot).acquired =
        (self.lot lot).acquired) ∧
      (lot ∉ chains index →
        (self.afterAcquire index leg quantity debit time).lot lot = self.lot lot) := by
  rw [lot_afterAcquire h, if_neg hlt.ne]
  refine ⟨?_, fun hlot => if_neg fun heq => hlot ?_⟩
  · split
    · exact ⟨rfl, rfl, rfl⟩
    · exact ⟨rfl, rfl, rfl⟩
  · exact List.mem_of_getLast? ((h.tail index).symm.trans heq)

/-- **An acquisition appends a lot** to the chain of its position. -/
theorem Chained.acquire (h : Chained now self chains) (hindex : index < self.positions.length)
    (htime : now ≤ time) (leg : PayoffLegTemplate) {quantity : ℕ} (debit : ℕ)
    (hpos : 0 < quantity) :
    Chained time (self.afterAcquire index leg quantity debit time)
      (Function.update chains index (chains index ++ [self.lots.length])) := by
  have hlot := lot_afterAcquire h index leg quantity debit time
  have hposition := position_afterAcquire hindex leg quantity debit time
  have hrows := self.rows_afterAcquire index leg quantity debit time
  have hacquired := self.acquiredDebit_afterAcquire index leg quantity debit time
  have hreleased := self.releasedBasis_afterAcquire index leg quantity debit time
  have hold := @lot_afterAcquire_of_lt now self chains h index leg quantity debit time
  set next := self.afterAcquire index leg quantity debit time
  have hfresh {other lot : ℕ} (hmem : lot ∈ chains other) : lot ≠ self.lots.length :=
    (h.bounded other lot hmem).ne
  have hquantity {other lot : ℕ} (hmem : lot ∈ chains other) :=
    (hold (h.bounded other lot hmem)).1
  have hother {other lot : ℕ} (hmem : lot ∈ chains other) (hne : other ≠ index) :
      next.lot lot = self.lot lot :=
    (hold (h.bounded other lot hmem)).2 fun hmem' => h.disjoint other index hne hmem hmem'
  have hlength : next.lots.length = self.lots.length + 1 := by
    have hlinked := (self.linkTail_eq (self.position index).tail self.lots.length).2.2
    rw [← hlinked]
    exact List.length_append
  constructor
  · intro other
    rcases eq_or_ne other index with rfl | hne
    · rw [Function.update_self, hposition, if_pos rfl]
      refine (h.linked other).concat ((h.ascending other).imp fun hlt => ne_of_lt hlt) ?_ ?_ ?_
      · intro last hlast
        unfold link
        rw [hlot, if_neg (hfresh (List.mem_of_getLast? hlast)),
          if_pos ((h.tail other).trans hlast)]
      · intro lot hmem hlast
        unfold link
        rw [hlot, if_neg (hfresh hmem), if_neg]
        exact fun heq => hlast ((h.tail other).symm.trans heq)
      · unfold link
        rw [hlot, if_pos rfl]
    · rw [Function.update_of_ne hne, hposition, if_neg hne]
      exact (h.linked other).congr fun lot hmem => congrArg Lot.next (hother hmem hne)
  · intro other
    rcases eq_or_ne other index with rfl | hne
    · rw [Function.update_self, hposition, if_pos rfl, List.getLast?_concat]
      rfl
    · rw [Function.update_of_ne hne, hposition, if_neg hne]
      exact h.tail other
  · intro other
    rcases eq_or_ne other index with rfl | hne
    · rw [Function.update_self]
      refine List.pairwise_append.mpr ⟨h.ascending other, List.pairwise_singleton _ _,
        fun lot hmem last hlast => ?_⟩
      rw [List.mem_singleton.mp hlast]
      exact h.bounded other lot hmem
    · rw [Function.update_of_ne hne]
      exact h.ascending other
  · intro other lot hmem
    rw [hlength]
    rcases eq_or_ne other index with rfl | hne
    · rw [Function.update_self] at hmem
      rcases List.mem_append.mp hmem with hmem | hmem
      · exact Nat.lt_succ_of_lt (h.bounded other lot hmem)
      · rw [List.mem_singleton.mp hmem]
        exact Nat.lt_succ_self _
    · rw [Function.update_of_ne hne] at hmem
      exact Nat.lt_succ_of_lt (h.bounded other lot hmem)
  · intro first second hne lot hfirst hsecond
    have hmem {other : ℕ} (hlotMem : lot ∈ Function.update chains index
        (chains index ++ [self.lots.length]) other) :
        lot ∈ chains other ∨ other = index ∧ lot = self.lots.length := by
      rcases eq_or_ne other index with rfl | hother
      · rw [Function.update_self] at hlotMem
        exact (List.mem_append.mp hlotMem).imp_right fun hlast =>
          ⟨rfl, List.mem_singleton.mp hlast⟩
      · rw [Function.update_of_ne hother] at hlotMem
        exact Or.inl hlotMem
    rcases hmem hfirst with hin | ⟨hfirstIndex, hlast⟩
    · rcases hmem hsecond with hin' | ⟨-, hlast⟩
      · exact h.disjoint first second hne hin hin'
      · exact hfresh hin hlast
    · rcases hmem hsecond with hin' | ⟨hsecondIndex, -⟩
      · exact hfresh hin' hlast
      · exact hne (hfirstIndex.trans hsecondIndex.symm)
  · intro other lot hmem
    have hlive {holder : ℕ} (hmem : lot ∈ chains holder) :
        0 < (next.lot lot).quantity ∧ (next.lot lot).acquired ≤ time := by
      obtain ⟨hq, -, ha⟩ := hquantity hmem
      rw [hq, ha]
      exact (h.live holder lot hmem).imp_right (·.trans htime)
    rcases eq_or_ne other index with rfl | hne
    · rw [Function.update_self] at hmem
      rcases List.mem_append.mp hmem with hmem | hmem
      · exact hlive hmem
      · rw [List.mem_singleton.mp hmem, hlot, if_pos rfl]
        exact ⟨hpos, le_rfl⟩
    · rw [Function.update_of_ne hne] at hmem
      exact hlive hmem
  · intro other
    have hcost {holder : ℕ} : next.cost (chains holder) = self.cost (chains holder) :=
      congrArg List.sum (List.map_congr_left fun lot hmem => (hquantity hmem).2.1)
    have hconserved := h.conserved other
    rcases eq_or_ne other index with rfl | hne
    · have hlast : (next.lot self.lots.length).debit = debit := by rw [hlot, if_pos rfl]
      have hsum : next.cost (chains other ++ [self.lots.length]) =
          next.cost (chains other) + (next.lot self.lots.length).debit := by
        simp only [cost, List.map_append, List.sum_append, List.map_singleton, List.sum_singleton]
      rw [Function.update_self, hacquired, if_pos rfl, hreleased, hsum, hcost, hlast, hconserved,
        Nat.add_assoc]
    · rw [Function.update_of_ne hne, hacquired, if_neg hne.symm, hreleased, hcost]
      exact hconserved
  · intro row hrow
    rw [hrows] at hrow
    rcases List.mem_append.mp hrow with hrow | hrow
    · exact h.exact row hrow
    · rw [List.mem_singleton.mp hrow]
      trivial

/-- **An acquisition** is refused before anything changes, or appends a lot. -/
theorem acquire_spec (h : Sound now self) (htime : now ≤ time) (attempt legIndex : ℕ)
    (leg : PayoffLegTemplate) (quantity debit : ℤ) :
    self.acquire attempt legIndex leg quantity debit time = .error (.outOfRange, self) ∨
    self.acquire attempt legIndex leg quantity debit time =
      self.reject "position acquisition bound" ∨
    ∃ next, self.acquire attempt legIndex leg quantity debit time = .ok next ∧ Sound time next ∧
      Acquired (attempt * 2 + legIndex) quantity.toNat debit.toNat self next := by
  unfold acquire find
  by_cases hindex : attempt * 2 + legIndex < self.positions.length
  swap
  · rw [if_neg hindex]
    exact Or.inl rfl
  rw [if_pos hindex]
  generalize attempt * 2 + legIndex = index at hindex ⊢
  dsimp only [bind, Except.bind]
  split
  · exact Or.inr (Or.inl rfl)
  next hbound =>
  have hpos : 0 < quantity.toNat := by omega
  obtain ⟨hchained, hheld⟩ := h
  have hnext := hchained.acquire hindex htime leg debit.toNat hpos
  have hposition := position_afterAcquire hindex leg quantity.toNat debit.toNat time
  have hlot := lot_afterAcquire hchained index leg quantity.toNat debit.toNat time
  have hold := @lot_afterAcquire_of_lt now self self.chain hchained index leg quantity.toNat
    debit.toNat time
  have hacquired := self.acquiredDebit_afterAcquire index leg quantity.toNat debit.toNat time
  have hreleased := self.releasedBasis_afterAcquire index leg quantity.toNat debit.toNat time
  have hlinked := self.linkTail_eq (self.position index).tail self.lots.length
  have hkept (other : ℕ) : (self.afterAcquire index leg quantity.toNat debit.toNat time).held
      (self.chain other) = self.held (self.chain other) :=
    congrArg List.sum (List.map_congr_left fun lot hmem =>
      (hold (hchained.bounded other lot hmem)).1.1)
  refine Or.inr (Or.inr ⟨self.afterAcquire index leg quantity.toNat debit.toNat time, rfl,
    hnext.sound fun other => ?_, ?_⟩)
  · rcases eq_or_ne other index with rfl | hne
    · rw [Function.update_self, hposition, if_pos rfl, held, List.map_append, List.sum_append,
        ← held, hkept, List.map_singleton, List.sum_singleton, hlot, if_pos rfl, ← hheld]
      rfl
    · rw [Function.update_of_ne hne, hposition, if_neg hne, hkept]
      exact hheld other
  · exact
      { position := fun other hne => by rw [hposition, if_neg hne]
        chain_other := fun other hne => by rw [hnext.chain_eq, Function.update_of_ne hne]
        lot := fun lot hlt hmem => (hold hlt).2 hmem
        chain := by rw [hnext.chain_eq, Function.update_self]
        quantity := by rw [hposition, if_pos rfl]; rfl
        positions_length := (List.length_set ..).trans (congrArg List.length hlinked.1)
        acquired := by rw [hacquired, if_pos rfl]
        acquired_other := fun other hne => by rw [hacquired, if_neg hne.symm, Nat.add_zero]
        released := hreleased }

end Acquisition

/-! ### Settlement -/

/-- The quantity that a settlement closes at some positions. -/
def settledQuantity (self : StudyPositions) (settlement : Settlement) (indices : List ℕ) : ℕ :=
  ((indices.filter fun index => (self.position index).settles settlement).map fun index =>
    (self.position index).quantity).sum

/-- One dollar for each contract of a winning outcome. -/
def settledPayout (self : StudyPositions) (settlement : Settlement) (indices : List ℕ) : ℕ :=
  ((indices.filter fun index => (self.position index).settles settlement &&
    (self.position index).wins settlement).map fun index =>
      (self.position index).quantity * 10000).sum

/-- The same holding: the position, its lots and what they released. -/
structure Kept (index : ℕ) (before after : StudyPositions) : Prop where
  position : after.position index = before.position index
  chain : after.chain index = before.chain index
  lot : ∀ lot ∈ before.chain index, after.lot lot = before.lot lot
  released : after.releasedBasis index = before.releasedBasis index

/-- A position without lots, all their cost released. -/
structure Emptied (index : ℕ) (before after : StudyPositions) : Prop where
  quantity : (after.position index).quantity = 0
  chain : after.chain index = []
  released : after.releasedBasis index =
    before.releasedBasis index + before.cost (before.chain index)

/-- **What a settlement does to some positions**: those of its market are emptied and paid, the
others are kept. -/
structure Settled (settlement : Settlement) (indices : List ℕ) (before after : StudyPositions)
    (result result' : SettlementResult) : Prop where
  emptied : ∀ index ∈ indices, (before.position index).settles settlement = true →
    Emptied index before after
  kept : ∀ index, ¬(index ∈ indices ∧ (before.position index).settles settlement = true) →
    Kept index before after
  positions_length : after.positions.length = before.positions.length
  acquired : ∀ index, after.acquiredDebit index = before.acquiredDebit index
  quantity : result'.quantity = result.quantity + before.settledQuantity settlement indices
  payout : result'.payout = result.payout + before.settledPayout settlement indices

section Settlement

variable {now : ℕ} {settlement : Settlement} {self next last : StudyPositions}
  {result result' result'' : SettlementResult} {index : ℕ} {indices : List ℕ}

/-- A position that holds nothing has no lots. -/
theorem Sound.chain_eq_nil (h : Sound now self) (hzero : (self.position index).quantity = 0) :
    self.chain index = [] := by
  obtain ⟨hchained, hheld⟩ := h
  have hsum := (hheld index).symm.trans hzero
  refine List.eq_nil_iff_forall_not_mem.mpr fun lot hmem => ?_
  have hle : (self.lot lot).quantity ≤ self.held (self.chain index) :=
    List.single_le_sum (fun _ _ => Nat.zero_le _) _ (List.mem_map_of_mem hmem)
  have hpos := (hchained.live index lot hmem).1
  omega

theorem Sound.mono {later : ℕ} (h : Sound now self) (hle : now ≤ later) : Sound later self :=
  ⟨h.1.mono hle, h.2⟩

theorem Kept.refl (self : StudyPositions) (index : ℕ) : Kept index self self :=
  ⟨rfl, rfl, fun _ _ => rfl, rfl⟩

theorem Kept.trans (h : Kept index self next) (h' : Kept index next last) :
    Kept index self last where
  position := h'.position.trans h.position
  chain := h'.chain.trans h.chain
  lot := fun lot hmem => (h'.lot lot (h.chain ▸ hmem)).trans (h.lot lot hmem)
  released := h'.released.trans h.released

theorem Kept.cost (h : Kept index self next) :
    next.cost (next.chain index) = self.cost (self.chain index) := by
  rw [h.chain]
  exact cost_congr h.lot

/-- Closing one position keeps the others. -/
theorem Closed.kept {quantity released other : ℕ} (h : Closed index quantity released self next)
    (hsound : Sound now self) (hne : other ≠ index) : Kept other self next where
  position := h.position other hne
  chain := h.chain other hne
  lot := fun lot hmem => h.lot lot fun hmem' => hsound.1.disjoint other index hne hmem hmem'
  released := h.released other hne

/-- Closing a position whole empties it. -/
theorem Closed.emptied {released : ℕ}
    (h : Closed index (self.position index).quantity released self next) (hself : Sound now self)
    {later : ℕ} (hnext : Sound later next) : Emptied index self next := by
  have hzero : (next.position index).quantity = 0 := by
    have := h.quantity
    omega
  have hchain := hnext.chain_eq_nil hzero
  refine ⟨hzero, hchain, ?_⟩
  have hbefore := hself.1.conserved index
  have hafter := hnext.1.conserved index
  rw [hchain, h.acquired, hbefore] at hafter
  exact hafter.symm

theorem Settled.nil (self : StudyPositions) (result : SettlementResult) :
    Settled settlement [] self self result result where
  emptied := fun _ hmem => absurd hmem List.not_mem_nil
  kept := fun index _ => Kept.refl self index
  positions_length := rfl
  acquired := fun _ => rfl
  quantity := rfl
  payout := rfl

/-- One more position of a settlement. -/
theorem Settled.cons (h : Settled settlement [index] self next result result')
    (h' : Settled settlement indices next last result' result'') (hfresh : index ∉ indices) :
    Settled settlement (index :: indices) self last result result'' := by
  have hkept {other : ℕ} (hmem : other ∈ indices) : Kept other self next :=
    h.kept other fun hboth => hfresh (List.mem_singleton.mp hboth.1 ▸ hmem)
  have hindex : Kept index next last := h'.kept index fun hboth => hfresh hboth.1
  have hfilter (keep : Position → Bool) (value : Position → ℕ) :
      ((indices.filter fun other => keep (next.position other)).map fun other =>
          value (next.position other)).sum =
        ((indices.filter fun other => keep (self.position other)).map fun other =>
          value (self.position other)).sum := by
    have heq : (indices.filter fun other => keep (next.position other)) =
        indices.filter fun other => keep (self.position other) :=
      List.filter_congr fun other hmem => by rw [(hkept hmem).position]
    rw [heq]
    refine congrArg List.sum (List.map_congr_left fun other hmem => ?_)
    rw [(hkept (List.mem_of_mem_filter hmem)).position]
  have hsplit (keep : ℕ → Bool) (value : ℕ → ℕ) :
      (((index :: indices).filter keep).map value).sum =
        (([index].filter keep).map value).sum + ((indices.filter keep).map value).sum := by
    rw [← List.singleton_append, List.filter_append, List.map_append, List.sum_append]
  constructor
  · intro other hmem hsettles
    rcases List.mem_cons.mp hmem with rfl | hmem
    · have hempty := h.emptied other List.mem_cons_self hsettles
      exact ⟨by rw [hindex.position, hempty.quantity], hindex.chain.trans hempty.chain,
        hindex.released.trans hempty.released⟩
    · have hempty := h'.emptied other hmem (by rw [(hkept hmem).position, hsettles])
      exact ⟨hempty.quantity, hempty.chain,
        by rw [hempty.released, (hkept hmem).released, (hkept hmem).cost]⟩
  · intro other hnot
    have hfirst := h.kept other fun hboth => hnot
      ⟨List.mem_singleton.mp hboth.1 ▸ List.mem_cons_self, hboth.2⟩
    exact hfirst.trans (h'.kept other fun hboth => hnot
      ⟨List.mem_cons_of_mem _ hboth.1, by rw [← hfirst.position, hboth.2]⟩)
  · exact h'.positions_length.trans h.positions_length
  · exact fun other => (h'.acquired other).trans (h.acquired other)
  · rw [h'.quantity, h.quantity, Nat.add_assoc]
    congr 1
    exact (congrArg _ (hfilter (·.settles settlement) (·.quantity))).trans (hsplit _ _).symm
  · rw [h'.payout, h.payout, Nat.add_assoc]
    congr 1
    exact (congrArg _ (hfilter (fun position => position.settles settlement &&
      position.wins settlement) (·.quantity * 10000))).trans (hsplit _ _).symm

/-- The refusals of a settlement. -/
def Overpaid (error : PositionError) : Prop :=
  error = .study (.replay "settled quantity overflow" 0) ∨
    error = .study (.replay "settlement payout bound" 0)

/-- Settling one position. -/
theorem settlePosition_spec (h : Sound now self) (hindex : index < self.positions.length)
    (htime : now ≤ settlement.time) (result : SettlementResult) :
    (∃ left, self.settlePosition settlement result index =
      .error (.study (.replay "capital-time overflow" 0), left)) ∨
    (∃ error, Overpaid error ∧ self.settlePosition settlement result index =
      .error (error, self)) ∨
    ∃ result' next, self.settlePosition settlement result index = .ok (result', next) ∧
      Sound settlement.time next ∧ Settled settlement [index] self next result result' := by
  unfold settlePosition
  by_cases hsettles : (self.position index).settles settlement = true
  swap
  · rw [if_pos (by simpa using hsettles)]
    refine Or.inr (Or.inr ⟨result, self, rfl, h.mono htime, ?_⟩)
    have hnone : [index].filter (fun index => (self.position index).settles settlement) = [] := by
      simp [hsettles]
    have hnone' : [index].filter (fun index => (self.position index).settles settlement &&
        (self.position index).wins settlement) = [] := by simp [hsettles]
    exact
      { emptied := fun other hmem hother =>
          absurd (List.mem_singleton.mp hmem ▸ hother) hsettles
        kept := fun other _ => Kept.refl self other
        positions_length := rfl
        acquired := fun _ => rfl
        quantity := by rw [settledQuantity, hnone]; rfl
        payout := by rw [settledPayout, hnone']; rfl }
  rw [if_neg (by simpa using hsettles)]
  dsimp only
  split
  · exact Or.inr (Or.inl ⟨_, Or.inl rfl, rfl⟩)
  split
  · exact Or.inr (Or.inl ⟨_, Or.inr rfl, rfl⟩)
  rcases closePosition_spec h hindex le_rfl htime with
    ⟨left, hfull⟩ | ⟨released, closed, hclosed, hsound, hspec⟩
  · exact Or.inl ⟨left, by rw [hfull]; rfl⟩
  rw [hclosed]
  refine Or.inr (Or.inr ⟨_, closed, rfl, hsound, ?_⟩)
  exact
    { emptied := fun other hmem _ => by
        rw [List.mem_singleton.mp hmem]
        exact hspec.emptied h hsound
      kept := fun other hnot => hspec.kept h fun heq =>
        hnot ⟨List.mem_singleton.mpr heq, heq ▸ hsettles⟩
      positions_length := hspec.positions_length
      acquired := hspec.acquired
      quantity := by simp [settledQuantity, hsettles]
      payout := by
        cases hwins : (self.position index).wins settlement <;>
          simp [settledPayout, hsettles, hwins] }

/-- **Settling some positions**, one after the other. -/
theorem settlePositions_spec (hnodup : indices.Nodup) : ∀ {now : ℕ} {self : StudyPositions}
    (result : SettlementResult), Sound now self → now ≤ settlement.time →
      (∀ index ∈ indices, index < self.positions.length) →
    (∃ left, settlePositions settlement indices self result =
      .error (.study (.replay "capital-time overflow" 0), left)) ∨
    (∃ error left, Overpaid error ∧ Sound settlement.time left ∧
      settlePositions settlement indices self result = .error (error, left)) ∨
    ∃ result' next, settlePositions settlement indices self result = .ok (result', next) ∧
      Sound settlement.time next ∧ Settled settlement indices self next result result' := by
  induction indices with
  | nil =>
    exact fun result h htime _ =>
      Or.inr (Or.inr ⟨result, _, rfl, h.mono htime, Settled.nil _ result⟩)
  | cons index indices ih =>
    intro now self result h htime hbound
    obtain ⟨hfresh, hrest⟩ := List.nodup_cons.mp hnodup
    rw [settlePositions]
    rcases settlePosition_spec h (hbound index List.mem_cons_self) htime result with
      ⟨left, hfull⟩ | ⟨error, herror, hrefused⟩ | ⟨result', next, hok, hsound, hsettled⟩
    · exact Or.inl ⟨left, by rw [hfull]; rfl⟩
    · exact Or.inr (Or.inl ⟨error, self, herror, h.mono htime, by rw [hrefused]; rfl⟩)
    rw [hok]
    rcases ih hrest result' hsound le_rfl fun other hmem =>
        (hbound other (List.mem_cons_of_mem _ hmem)).trans_eq hsettled.positions_length.symm with
      hfull | hrefused | ⟨result'', last, hlast, hsound', hsettled'⟩
    · exact Or.inl hfull
    · exact Or.inr (Or.inl hrefused)
    · exact Or.inr (Or.inr ⟨result'', last, hlast, hsound', hsettled.cons hsettled' hfresh⟩)

/-- **A settlement** closes the positions of its market and pays the winning ones. -/
theorem settle_spec (h : Sound now self) (htime : now ≤ settlement.time) :
    (∃ left, self.settle settlement =
      .error (.study (.replay "capital-time overflow" 0), left)) ∨
    (∃ error left, Overpaid error ∧ Sound settlement.time left ∧
      self.settle settlement = .error (error, left)) ∨
    ∃ result next, self.settle settlement = .ok (result, next) ∧ Sound settlement.time next ∧
      Settled settlement (List.range self.positions.length) self next {} result :=
  settlePositions_spec List.nodup_range {} h htime fun _ hmem => List.mem_range.mp hmem

end Settlement

/-! ### Sequences of operations -/

inductive PositionOp where
  | acquire (attempt legIndex : ℕ) (leg : PayoffLegTemplate) (quantity debit : ℤ) (time : ℕ)
  | close (attempt leg : ℕ) (quantity : ℤ) (time : ℕ)
  | settle (settlement : Settlement)
  deriving DecidableEq, Repr

def PositionOp.time : PositionOp → ℕ
  | .acquire _ _ _ _ _ time => time
  | .close _ _ _ time => time
  | .settle settlement => settlement.time

/-- The positions after an operation. -/
def apply (self : StudyPositions) : PositionOp → Except Failure StudyPositions
  | .acquire attempt legIndex leg quantity debit time =>
    self.acquire attempt legIndex leg quantity debit time
  | .close attempt leg quantity time => (self.close attempt leg quantity time).map Prod.snd
  | .settle settlement => (self.settle settlement).map Prod.snd

/-- The error that may break off a close in the middle; the study ends there. -/
def CapitalTimeFull (error : PositionError) : Prop :=
  error = .study (.replay "capital-time overflow" 0)

/-- **The positions that sequences of operations reach**, with the time of the last one. Times do
not decrease; a refused operation goes on with the positions that it left, until the capital time
is full. -/
inductive Reached (attempts : ℕ) : ℕ → StudyPositions → Prop
  | start : Reached attempts 0 (reserve attempts)
  | done {now : ℕ} {before after : StudyPositions} {op : PositionOp} :
      Reached attempts now before → now ≤ op.time → before.apply op = .ok after →
      Reached attempts op.time after
  | refused {now : ℕ} {before after : StudyPositions} {op : PositionOp} {error : PositionError} :
      Reached attempts now before → now ≤ op.time → before.apply op = .error (error, after) →
      ¬CapitalTimeFull error → Reached attempts op.time after

/-- The errors that leave sound positions. -/
def Refusal (error : PositionError) : Prop :=
  error = .outOfRange ∨ error = .study (.replay "position acquisition bound" 0) ∨
    error = .study (.replay "cannot close unowned position" 0) ∨ Overpaid error

section Sequences

variable {now attempts : ℕ} {self : StudyPositions}

/-- Nothing is held at the start. -/
theorem reserve_sound (attempts : ℕ) : Sound 0 (reserve attempts) := by
  have hposition (index : ℕ) : (reserve attempts).position index = {} := by
    unfold reserve StudyPositions.position
    rw [List.getD_eq_getElem?_getD, List.getElem?_replicate]
    split <;> rfl
  have hchained : Chained 0 (reserve attempts) fun _ => [] :=
    { linked := fun index => by rw [hposition]; rfl
      tail := fun index => by rw [hposition]; rfl
      ascending := fun _ => List.Pairwise.nil
      bounded := fun _ _ hmem => absurd hmem List.not_mem_nil
      disjoint := fun _ _ _ => List.disjoint_nil_left _
      live := fun _ _ hmem => absurd hmem List.not_mem_nil
      conserved := fun _ => rfl
      exact := fun _ hmem => absurd hmem List.not_mem_nil }
  exact hchained.sound fun index => by rw [hposition]; rfl

/-- **Closing through an attempt**: unknown, more than is held, or as `closePosition_spec` says. -/
theorem close_spec (h : Sound now self) (attempt leg : ℕ) (quantity : ℤ) {time : ℕ}
    (htime : now ≤ time) :
    self.close attempt leg quantity time = .error (.outOfRange, self) ∨
    self.close attempt leg quantity time = self.reject "cannot close unowned position" ∨
    (∃ left, self.close attempt leg quantity time =
      .error (.study (.replay "capital-time overflow" 0), left)) ∨
    ∃ released closed, self.close attempt leg quantity time = .ok (released, closed) ∧
      Sound time closed ∧ Closed (attempt * 2 + leg) quantity.toNat released self closed := by
  unfold close find
  by_cases hindex : attempt * 2 + leg < self.positions.length
  swap
  · rw [if_neg hindex]
    exact Or.inl rfl
  rw [if_pos hindex]
  by_cases hquantity : quantity < 0 ∨ ((self.position (attempt * 2 + leg)).quantity : ℤ) < quantity
  · exact Or.inr (Or.inl (closePosition_eq_reject hquantity))
  · have hle : quantity.toNat ≤ (self.position (attempt * 2 + leg)).quantity := by omega
    have hspec := closePosition_spec h hindex hle htime
    rw [Int.toNat_of_nonneg (by omega)] at hspec
    exact Or.inr (Or.inr hspec)

/-- **One operation** on sound positions is refused with sound positions, or leads to sound
positions, unless the capital time is full. -/
theorem apply_spec (h : Sound now self) (op : PositionOp) (htime : now ≤ op.time) :
    (∃ left, self.apply op = .error (.study (.replay "capital-time overflow" 0), left)) ∨
    (∃ error left, Refusal error ∧ Sound op.time left ∧ self.apply op = .error (error, left)) ∨
    ∃ next, self.apply op = .ok next ∧ Sound op.time next := by
  have hself := h.mono htime
  cases op with
  | acquire attempt legIndex leg quantity debit time =>
    rcases acquire_spec h htime attempt legIndex leg quantity debit with
      hout | hrefused | ⟨next, hok, hnext, -⟩
    · exact Or.inr (Or.inl ⟨_, self, Or.inl rfl, hself, hout⟩)
    · exact Or.inr (Or.inl ⟨_, self, Or.inr (Or.inl rfl), hself, hrefused⟩)
    · exact Or.inr (Or.inr ⟨next, hok, hnext⟩)
  | close attempt leg quantity time =>
    change now ≤ time at htime
    rcases close_spec h attempt leg quantity htime with
      hout | hrefused | ⟨left, hfull⟩ | ⟨released, next, hok, hnext, -⟩
    · exact Or.inr (Or.inl ⟨_, self, Or.inl rfl, hself, by rw [apply, hout]; rfl⟩)
    · exact Or.inr (Or.inl ⟨_, self, Or.inr (Or.inr (Or.inl rfl)), hself,
        by rw [apply, hrefused]; rfl⟩)
    · exact Or.inl ⟨left, by rw [apply, hfull]; rfl⟩
    · exact Or.inr (Or.inr ⟨next, by rw [apply, hok]; rfl, hnext⟩)
  | settle settlement =>
    rcases settle_spec h htime with
      ⟨left, hfull⟩ | ⟨error, left, herror, hleft, hrefused⟩ | ⟨result, next, hok, hnext, -⟩
    · exact Or.inl ⟨left, by rw [apply, hfull]; rfl⟩
    · exact Or.inr (Or.inl ⟨error, left, Or.inr (Or.inr (Or.inr herror)), hleft,
        by rw [apply, hrefused]; rfl⟩)
    · exact Or.inr (Or.inr ⟨next, by rw [apply, hok]; rfl, hnext⟩)

/-- **Every sequence of operations keeps the positions sound.** -/
theorem reached_sound (h : Reached attempts now self) : Sound now self := by
  induction h with
  | start => exact reserve_sound attempts
  | done _ htime hok ih =>
    rcases apply_spec ih _ htime with ⟨left, hfull⟩ | ⟨_, _, _, _, hrefused⟩ | ⟨next, hnext, hsound⟩
    · exact absurd (hok.symm.trans hfull) (by simp)
    · exact absurd (hok.symm.trans hrefused) (by simp)
    · obtain rfl := Except.ok.inj (hok.symm.trans hnext)
      exact hsound
  | refused _ htime herror hnot ih =>
    rcases apply_spec ih _ htime with
      ⟨left, hfull⟩ | ⟨_, left, _, hsound, hrefused⟩ | ⟨next, hnext, -⟩
    · have heq := Except.error.inj (herror.symm.trans hfull)
      exact absurd (congrArg Prod.fst heq) hnot
    · obtain ⟨-, rfl⟩ := Prod.mk.inj (Except.error.inj (herror.symm.trans hrefused))
      exact hsound
    · exact absurd (herror.symm.trans hnext) (by simp)

/-- **The positions stay consistent.** After every sequence of operations at times that do not
decrease:

* the chains of different positions are disjoint, start at the head, end at the tail and are in
  the order of acquisition;
* a position holds the quantity of its lots, and what it paid is what it released and the cost left
  in its lots, where a part of a lot releases its share rounded down;
* a close leaves the other positions and their lots alone, and one of more than is held is refused
  without a change;
* a settlement empties exactly the positions of its market and pays one dollar for each contract
  of the winning outcome;
* the internal errors do not occur. -/
theorem reached_consistent (h : Reached attempts now self) :
    (∀ index, Linked self.link (self.position index).head (self.chain index) ∧
      (self.position index).tail = (self.chain index).getLast? ∧
      (self.chain index).Pairwise (· < ·) ∧
      (self.position index).quantity = self.held (self.chain index) ∧
      self.acquiredDebit index = self.releasedBasis index + self.cost (self.chain index)) ∧
    (∀ index other, index ≠ other → (self.chain index).Disjoint (self.chain other)) ∧
    (∀ row ∈ self.rows, row.Exact) ∧
    (∀ attempt leg quantity time released next, now ≤ time →
      self.close attempt leg quantity time = .ok (released, next) →
        (next.position (attempt * 2 + leg)).quantity + quantity.toNat =
            (self.position (attempt * 2 + leg)).quantity ∧
          next.releasedBasis (attempt * 2 + leg) =
            self.releasedBasis (attempt * 2 + leg) + released ∧
          ∀ other, other ≠ attempt * 2 + leg → Kept other self next) ∧
    (∀ attempt leg time, ∀ quantity : ℤ, attempt * 2 + leg < self.positions.length →
      (self.position (attempt * 2 + leg)).quantity < quantity →
        self.close attempt leg quantity time =
          .error (.study (.replay "cannot close unowned position" 0), self)) ∧
    (∀ settlement result next, now ≤ settlement.time →
      self.settle settlement = .ok (result, next) →
        Settled settlement (List.range self.positions.length) self next {} result) ∧
    ∀ op error left, now ≤ op.time → self.apply op = .error (error, left) →
      error ≠ .study (.replay "position lot accounting" 0) ∧
        error ≠ .study (.replay "closed lot cost remainder" 0) := by
  have hsound := reached_sound h
  refine ⟨fun index => ⟨hsound.1.linked index, hsound.1.tail index, hsound.1.ascending index,
    hsound.2 index, hsound.1.conserved index⟩, hsound.1.disjoint, hsound.1.exact, ?_, ?_, ?_, ?_⟩
  · intro attempt leg quantity time released next htime hok
    rcases close_spec hsound attempt leg quantity htime with
      hout | hrefused | ⟨left, hfull⟩ | ⟨released', next', hok', -, hclosed⟩
    · exact absurd (hok.symm.trans hout) (by simp)
    · exact absurd (hok.symm.trans hrefused) (by simp [reject])
    · exact absurd (hok.symm.trans hfull) (by simp)
    · obtain ⟨rfl, rfl⟩ := Prod.mk.inj (Except.ok.inj (hok.symm.trans hok'))
      exact ⟨hclosed.quantity, hclosed.basis, fun other hne => hclosed.kept hsound hne⟩
  · intro attempt leg time quantity hindex hquantity
    unfold close find
    rw [if_pos hindex]
    exact closePosition_eq_reject (Or.inr hquantity)
  · intro settlement result next htime hok
    rcases settle_spec hsound htime with
      ⟨left, hfull⟩ | ⟨error, left, -, -, hrefused⟩ | ⟨result', next', hok', -, hsettled⟩
    · exact absurd (hok.symm.trans hfull) (by simp)
    · exact absurd (hok.symm.trans hrefused) (by simp)
    · obtain ⟨rfl, rfl⟩ := Prod.mk.inj (Except.ok.inj (hok.symm.trans hok'))
      exact hsettled
  · intro op error left htime herror
    rcases apply_spec hsound op htime with
      ⟨left', hfull⟩ | ⟨error', left', hrefusal, -, hrefused⟩ | ⟨next, hok, -⟩
    · rw [(Prod.mk.inj (Except.error.inj (herror.symm.trans hfull))).1]
      exact ⟨by decide, by decide⟩
    · rw [(Prod.mk.inj (Except.error.inj (herror.symm.trans hrefused))).1]
      rcases hrefusal with rfl | rfl | rfl | rfl | rfl <;> exact ⟨by decide, by decide⟩
    · exact absurd (herror.symm.trans hok) (by simp)

/-- Two lots at different costs, half of the second sold; an attempt to sell more is refused. -/
theorem reached_consistent_sample : ∃ self, Reached 1 31 self ∧
    (self.position 0).quantity = 150 ∧ self.releasedBasis 0 = 20001 ∧
    self.acquiredDebit 0 = self.releasedBasis 0 + self.cost (self.chain 0) := by
  have h0 : Reached 1 0 (reserve 1) := .start
  have h1 := @Reached.done 1 _ _ _ (.acquire 0 0 ⟨1, .yes⟩ 100 10001 10) h0 (by decide) rfl
  have h2 := @Reached.done 1 _ _ _ (.acquire 0 0 ⟨1, .yes⟩ 200 40001 20) h1 (by decide) rfl
  have h3 := @Reached.done 1 _ _ _ (.close 0 0 150 30) h2 (by decide) rfl
  have h4 := @Reached.refused 1 _ _ _ (.close 0 0 151 31) _ h3 (by decide) rfl
    (by unfold CapitalTimeFull; decide)
  exact ⟨_, h4, by decide, by decide, ((reached_consistent h4).1 0).2.2.2.2⟩

end Sequences

end StudyPositions

end EventMarket.Session
