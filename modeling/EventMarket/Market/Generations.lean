import EventMarket.Market.Replica

/-!
# Connections, generations and recovery

What the connection says about the books, over every sequence of operations. A valid book has
received its last snapshot in the generation that is still open, and a stale one becomes valid
only by a recovery and a snapshot after it.

## Main definitions

* `MarketState.Fades`: a book is as before or stale.
* `MarketState.ConnectionInv`: the invariant of the connection.
* `AppliesSnapshot`: an operation that applies a snapshot to the book of a market.

## Main results

* `MarketState.findBook_step`: everything an operation can do to a book.
* `connection_generation_invariant`: the connection and generation invariant of every run.
-/

namespace EventMarket.Market

open Book Core Foundations

/-- The operation applies a snapshot to the book of the market. -/
def AppliesSnapshot (state : MarketState) (marketId : MarketId) (input : ReplicaInput) : Prop :=
  ∃ snapshot, input = .deliver (.snapshot snapshot) ∧ snapshot.marketId = marketId ∧
    (state.applySnapshot snapshot).2 = .book .applied

/-- The operation starts the recovery of the book of the market. -/
def StartsRecovery (state : MarketState) (marketId : MarketId) (input : ReplicaInput) : Prop :=
  input = .beginRecovery marketId ∧ (state.beginRecovery marketId).2 = true

/-- The book of the market is in a state. -/
def InState (state : MarketState) (marketId : MarketId) (bookState : BookState) : Prop :=
  ∃ book, state.findBook marketId = some book ∧ book.state = bookState

namespace MarketState

variable {state : MarketState} {marketId : MarketId} {book : OrderBook}

/-! ### What an operation does to a book -/

/-- A book is as before or stale. -/
def Fades (book next : OrderBook) : Prop := next = book ∨ next.state = .stale

theorem fades_invalidateAll (hbook : state.findBook marketId = some book) :
    ∃ next, state.invalidateAll.findBook marketId = some next ∧ Fades book next :=
  ⟨book.markStale, by rw [findBook_invalidateAll, hbook]; rfl, Or.inr rfl⟩

theorem fades_closeConnection (hbook : state.findBook marketId = some book) (generation : ℕ) :
    ∃ next, (state.closeConnection generation).1.findBook marketId = some next ∧
      Fades book next := by
  rcases state.closeConnection_cases generation with ⟨h, -⟩ | ⟨h, -⟩
  · rw [h]
    exact ⟨book, hbook, Or.inl rfl⟩
  · rw [h]
    exact fades_invalidateAll (show ({ state with connected := false } : MarketState).findBook
      marketId = some book from hbook)

theorem fades_openConnection (hbook : state.findBook marketId = some book) (generation : ℕ) :
    ∃ next, (state.openConnection generation).1.findBook marketId = some next ∧
      Fades book next := by
  unfold openConnection
  split_ifs
  · exact ⟨book, hbook, Or.inl rfl⟩
  · exact fades_invalidateAll hbook
  · exact ⟨book, hbook, Or.inl rfl⟩

theorem fades_finishShared (hbook : state.findBook marketId = some book) (stream sequence : ℕ)
    (result : BookUpdateResult) :
    ∃ next, (state.finishShared stream sequence result).1.findBook marketId = some next ∧
      Fades book next := by
  unfold finishShared
  split_ifs
  · exact ⟨book, hbook, Or.inl rfl⟩
  · exact fades_closeConnection hbook _

theorem fades_finish (hbook : state.findBook marketId = some book) (stream sequence : ℕ)
    (result : BookUpdateResult) :
    ∃ next, (state.finish stream sequence result).1.findBook marketId = some next ∧
      Fades book next := by
  unfold finish
  split_ifs
  · exact fades_finishShared hbook _ _ _
  · exact ⟨book, hbook, Or.inl rfl⟩

/-- A book stays as it was when another one is replaced, and fades with its replacement. -/
theorem fades_insert {other : MarketId} {replaced : OrderBook}
    (hbook : state.findBook marketId = some book)
    (hreplaced : other = marketId → Fades book replaced) :
    ∃ next, findBook { state with books := state.books.insert other replaced } marketId =
      some next ∧ Fades book next := by
  rw [findBook_insert]
  split_ifs with heq
  · exact ⟨replaced, rfl, hreplaced heq.symm⟩
  · exact ⟨book, hbook, Or.inl rfl⟩

theorem Fades.trans {next last : OrderBook} (h : Fades book next) (h' : Fades next last) :
    Fades book last := by
  rcases h' with rfl | hstale
  · exact h
  · exact Or.inr hstale

theorem finish_result (state : MarketState) (stream sequence : ℕ) (result : BookUpdateResult) :
    (state.finish stream sequence result).2 = .book result := by
  unfold finish finishShared
  split_ifs <;> rfl

theorem finishShared_result (state : MarketState) (stream sequence : ℕ)
    (result : BookUpdateResult) :
    (state.finishShared stream sequence result).2 = .book result := by
  unfold finishShared
  split_ifs <;> rfl

/-- A book fades with every snapshot that it refuses. -/
theorem fades_snapshot {streamId sequence : ℕ} {bids asks : List Level}
    (h : (book.applySnapshot streamId sequence bids asks).2 ≠ .applied) :
    Fades book (book.applySnapshot streamId sequence bids asks).1 := by
  rcases book.applySnapshot_cases streamId sequence bids asks with
    ⟨_, _, -, -, -, -, happlied⟩ | ⟨_, -, hsame⟩ | ⟨_, -, hstale⟩
  · exact absurd (congrArg Prod.snd happlied) h
  · exact Or.inl (congrArg Prod.fst hsame)
  · exact Or.inr (congrArg (fun outcome => outcome.1.state) hstale)

/-- A delta leaves a book as it was, marks it stale, or keeps it valid. -/
theorem fades_delta (book : OrderBook) (streamId predecessor sequence : ℕ) (side : Side)
    (price : Price) (change : QuantityDelta) :
    Fades book (book.applyDeltaAfter streamId predecessor sequence side price change).1 ∨
      book.state = .valid ∧
        (book.applyDeltaAfter streamId predecessor sequence side price change).1.state =
          .valid := by
  rcases book.applyDeltaAfter_cases streamId predecessor sequence side price change with
    ⟨_, levels, hvalid, -, -, -, -, -, happlied⟩ | hsame | ⟨_, -, hstale⟩
  · rw [happlied]
    exact Or.inr ⟨hvalid, by cases side <;> exact hvalid⟩
  · exact Or.inl (Or.inl (congrArg Prod.fst hsame))
  · exact Or.inl (Or.inr (congrArg (fun outcome => outcome.1.state) hstale))

/-- A snapshot that is not applied makes books fade, and an applied one makes its book valid. -/
theorem findBook_applySnapshot (hbook : state.findBook marketId = some book)
    (snapshot : BookSnapshot) :
    ∃ next, (state.applySnapshot snapshot).1.findBook marketId = some next ∧
      (Fades book next ∨ snapshot.marketId = marketId ∧ book.state ≠ .stale ∧
        next.state = .valid ∧ (state.applySnapshot snapshot).2 = .book .applied) := by
  rcases state.applySnapshot_cases snapshot with ⟨bids, asks, -, -, -, -, hstale, happlied⟩ |
    hrefused
  · rw [happlied]
    by_cases heq : marketId = snapshot.marketId
    · refine ⟨_, (findBook_insert state _ _ _).trans (if_pos heq), Or.inr ⟨heq.symm, ?_, rfl, rfl⟩⟩
      exact hstale book (heq ▸ hbook)
    · exact ⟨book, (findBook_insert state _ _ _).trans ((if_neg heq).trans hbook),
        Or.inl (Or.inl rfl)⟩
  · suffices h : ∃ next, (state.applySnapshot snapshot).1.findBook marketId = some next ∧
        Fades book next by
      obtain ⟨next, hnext, hfades⟩ := h
      exact ⟨next, hnext, Or.inl hfades⟩
    have hnot := hrefused.not_applied
    unfold applySnapshot at hnot ⊢
    split_ifs at hnot ⊢
    · exact ⟨book, hbook, Or.inl rfl⟩
    · exact fades_finishShared hbook _ _ _
    · dsimp only at hnot ⊢
      rw [finish_result, Ne, MarketApplyResult.book.injEq] at hnot
      have hreplaced (heq : snapshot.marketId = marketId) :
          Fades book ((state.books[snapshot.marketId]?.getD {}).applySnapshot snapshot.streamId
            snapshot.sequence snapshot.bids snapshot.asks).1 := by
        have hknown : state.books[snapshot.marketId]?.getD {} = book := by
          rw [heq, ← findBook.eq_def state, hbook, Option.getD_some]
        exact (fades_snapshot hnot).imp_left fun hsame => hsame.trans hknown
      obtain ⟨middle, hmiddle, hfades⟩ := fades_insert hbook hreplaced
      obtain ⟨next, hnext, hlast⟩ := fades_finish hmiddle snapshot.streamId snapshot.sequence _
      exact ⟨next, hnext, hfades.trans hlast⟩

/-- The change of a delta makes its book fade or keeps it valid. -/
theorem findBook_change (hbook : state.findBook marketId = some book) (delta : BookDelta)
    (predecessor : ℕ) {other : OrderBook} (hother : state.books[delta.marketId]? = some other) :
    ∃ next, findBook { state with
        books := state.books.insert delta.marketId (other.applyDeltaAfter delta.streamId
          predecessor delta.sequence delta.side delta.price delta.quantityDelta).1 } marketId =
        some next ∧
      (Fades book next ∨ book.state = .valid ∧ next.state = .valid) := by
  by_cases heq : marketId = delta.marketId
  · obtain rfl : other = book := by
      rw [findBook, heq, hother] at hbook
      exact Option.some.inj hbook
    exact ⟨_, (findBook_insert state _ _ _).trans (if_pos heq), fades_delta other _ _ _ _ _ _⟩
  · exact ⟨book, (findBook_insert state _ _ _).trans ((if_neg heq).trans hbook),
      Or.inl (Or.inl rfl)⟩

/-- A delta makes books fade or keeps a valid book valid. -/
theorem findBook_applyDelta (hbook : state.findBook marketId = some book) (delta : BookDelta) :
    ∃ next, (state.applyDelta delta).1.findBook marketId = some next ∧
      (Fades book next ∨ book.state = .valid ∧ next.state = .valid) := by
  unfold applyDelta
  by_cases haccepts : (!state.accepts delta.connectionGeneration) = true
  · rw [if_pos haccepts]
    exact ⟨book, hbook, Or.inl (Or.inl rfl)⟩
  rw [if_neg haccepts]
  have hfinish := fun result => fades_finish hbook delta.streamId delta.sequence result
  have hshared := fun result => fades_finishShared hbook delta.streamId delta.sequence result
  cases hother : state.books[delta.marketId]? with
  | none =>
    obtain ⟨next, hnext, hfades⟩ := hfinish .requiresSnapshot
    exact ⟨next, hnext, Or.inl hfades⟩
  | some other =>
    dsimp only
    by_cases hscope : state.scope = .sharedStream
    · rw [if_pos hscope]
      cases state.streamSequences[delta.streamId]? with
      | none =>
        obtain ⟨next, hnext, hfades⟩ := hshared .sequenceGap
        exact ⟨next, hnext, Or.inl hfades⟩
      | some previous =>
        dsimp only
        split_ifs
        · obtain ⟨next, hnext, hfades⟩ := hshared .sequenceGap
          exact ⟨next, hnext, Or.inl hfades⟩
        · obtain ⟨middle, hmiddle, hmoves⟩ := findBook_change hbook delta previous hother
          obtain ⟨next, hnext, hfades⟩ :=
            fades_finishShared hmiddle delta.streamId delta.sequence _
          refine ⟨next, hnext, ?_⟩
          rcases hmoves with hmoves | ⟨hvalid, hkept⟩
          · exact Or.inl (hmoves.trans hfades)
          · rcases hfades with rfl | hstale
            · exact Or.inr ⟨hvalid, hkept⟩
            · exact Or.inl (Or.inr hstale)
    · rw [if_neg hscope]
      exact findBook_change hbook delta _ hother

/-- Only a stale book begins a recovery. -/
theorem findBook_beginRecovery (hbook : state.findBook marketId = some book) (other : MarketId) :
    ∃ next, (state.beginRecovery other).1.findBook marketId = some next ∧
      (next = book ∨ other = marketId ∧ book.state = .stale ∧ next.state = .recovering ∧
        (state.beginRecovery other).2 = true) := by
  unfold beginRecovery
  split_ifs
  · exact ⟨book, hbook, Or.inl rfl⟩
  · cases hknown : state.books[other]? with
    | none => exact ⟨book, hbook, Or.inl rfl⟩
    | some found =>
      dsimp only
      by_cases heq : marketId = other
      · obtain rfl : found = book := by
          rw [findBook, heq, hknown] at hbook
          exact Option.some.inj hbook
        refine ⟨_, (findBook_insert state _ _ _).trans (if_pos heq), ?_⟩
        unfold OrderBook.beginRecovery
        split_ifs with hstate
        · exact Or.inl rfl
        · exact Or.inr ⟨heq.symm, not_not.1 hstate, rfl, rfl⟩
      · exact ⟨book, (findBook_insert state _ _ _).trans ((if_neg heq).trans hbook), Or.inl rfl⟩

/-- **Everything an operation can do to a book.** It fades, its recovery begins, a snapshot is
applied to it, or it stays valid. -/
theorem findBook_step (hbook : state.findBook marketId = some book) (input : ReplicaInput) :
    ∃ next, (stepReplica state input).findBook marketId = some next ∧
      (Fades book next ∨
        (book.state = .stale ∧ next.state = .recovering ∧ StartsRecovery state marketId input) ∨
        (book.state ≠ .stale ∧ next.state = .valid ∧ AppliesSnapshot state marketId input) ∨
        book.state = .valid ∧ next.state = .valid) := by
  cases input with
  | openConnection generation =>
    obtain ⟨next, hnext, hfades⟩ := fades_openConnection hbook generation
    exact ⟨next, hnext, Or.inl hfades⟩
  | closeConnection generation =>
    obtain ⟨next, hnext, hfades⟩ := fades_closeConnection hbook generation
    exact ⟨next, hnext, Or.inl hfades⟩
  | beginRecovery other =>
    obtain ⟨next, hnext, hsame | ⟨rfl, hstale, hrecovering, hbegun⟩⟩ :=
      findBook_beginRecovery hbook other
    · exact ⟨next, hnext, Or.inl (Or.inl hsame)⟩
    · exact ⟨next, hnext, Or.inr (Or.inl ⟨hstale, hrecovering, rfl, hbegun⟩)⟩
  | deliver event =>
    cases event with
    | snapshot snapshot =>
      obtain ⟨next, hnext, hfades | ⟨hmarket, hstale, hvalid, happlied⟩⟩ :=
        findBook_applySnapshot hbook snapshot
      · exact ⟨next, hnext, Or.inl hfades⟩
      · exact ⟨next, hnext, Or.inr (Or.inr (Or.inl
          ⟨hstale, hvalid, snapshot, rfl, hmarket, happlied⟩))⟩
    | delta delta =>
      obtain ⟨next, hnext, hfades | hvalid⟩ := findBook_applyDelta hbook delta
      · exact ⟨next, hnext, Or.inl hfades⟩
      · exact ⟨next, hnext, Or.inr (Or.inr (Or.inr hvalid))⟩

/-! ### The connection -/

/-- The invariant of the connection: books are valid only while it is open, and it is open only in
some generation. -/
structure ConnectionInv (state : MarketState) : Prop where
  connected : ∀ marketId, InState state marketId .valid → state.connected = true
  known : state.connected = true → state.connectionGeneration.isSome

theorem Degrades.inState {next : MarketState} (h : state.Degrades next)
    (hvalid : InState next marketId .valid) :
    InState state marketId .valid ∧ next.connected = state.connected ∧
      next.connectionGeneration = state.connectionGeneration := by
  obtain ⟨book, hbook, hstate⟩ := hvalid
  refine ⟨⟨book, h.valid _ _ hbook hstate, hstate⟩, ?_, h.generation_eq⟩
  rcases h.closed with hsame | ⟨-, hnone⟩
  · exact hsame
  · exact absurd hstate (hnone _ _ hbook)

/-- A snapshot is applied in the generation that is open. -/
theorem generation_of_applied {snapshot : BookSnapshot}
    (h : (state.applySnapshot snapshot).2 = .book .applied) :
    (state.applySnapshot snapshot).1.connected = true ∧
      (state.applySnapshot snapshot).1.connectionGeneration =
        some snapshot.connectionGeneration := by
  rcases state.applySnapshot_cases snapshot with ⟨_, _, -, -, haccepts, -, -, happlied⟩ | hrefused
  · rw [happlied]
    exact accepts_eq_true haccepts
  · exact absurd h hrefused.not_applied

/-- **A book that is valid after an operation** has just got a snapshot, or it was valid before on
the same connection. -/
theorem ConnectionInv.valid_step (h : state.ConnectionInv) {input : ReplicaInput}
    (hvalid : InState (stepReplica state input) marketId .valid) :
    AppliesSnapshot state marketId input ∨ InState state marketId .valid ∧
      (stepReplica state input).connected = state.connected ∧
      (stepReplica state input).connectionGeneration = state.connectionGeneration := by
  cases input with
  | openConnection generation =>
    rcases state.openConnection_cases generation with hsame | ⟨next, hnext, -, -, -, -, -, -, hkept⟩
    · rw [stepReplica, hsame] at hvalid ⊢
      exact Or.inr ⟨hvalid, rfl, rfl⟩
    · rw [stepReplica, hnext] at hvalid
      obtain ⟨book, hbook, hstate⟩ := hvalid
      obtain ⟨hnone, hbefore⟩ := hkept marketId book hbook hstate
      have hknown := h.known (h.connected marketId ⟨book, hbefore, hstate⟩)
      rw [hnone] at hknown
      exact absurd hknown (by simp)
  | closeConnection generation =>
    exact Or.inr ((state.degrades_closeConnection generation).inState hvalid)
  | beginRecovery other => exact Or.inr ((state.degrades_beginRecovery other).inState hvalid)
  | deliver event =>
    cases event with
    | snapshot snapshot =>
      rcases state.applySnapshot_cases snapshot with ⟨_, _, -, -, -, -, -, happlied⟩ | hrefused
      · by_cases heq : marketId = snapshot.marketId
        · exact Or.inl ⟨snapshot, rfl, heq.symm, by rw [happlied]⟩
        · simp only [stepReplica, apply, happlied] at hvalid ⊢
          obtain ⟨book, hbook, hstate⟩ := hvalid
          exact Or.inr ⟨⟨book, ((findBook_insert state _ _ _).trans (if_neg heq)).symm.trans hbook,
            hstate⟩, trivial, trivial⟩
      · exact Or.inr (hrefused.degrades.inState hvalid)
    | delta delta =>
      rcases state.applyDelta_cases delta with
        ⟨old, _, _, levels, hold, hwas, -, -, -, -, -, -, -, -, happlied⟩ | hrefused
      · simp only [stepReplica, apply, happlied] at hvalid ⊢
        obtain ⟨book, hbook, hstate⟩ := hvalid
        refine Or.inr ⟨?_, trivial, trivial⟩
        by_cases heq : marketId = delta.marketId
        · exact ⟨old, heq ▸ hold, hwas⟩
        · exact ⟨book, ((findBook_insert state _ _ _).trans (if_neg heq)).symm.trans hbook, hstate⟩
      · exact Or.inr (hrefused.degrades.inState hvalid)

theorem Degrades.known {next : MarketState} (h : state.ConnectionInv)
    (hdegrades : state.Degrades next)
    (hconnected : next.connected = true) : next.connectionGeneration.isSome := by
  rw [hdegrades.generation_eq]
  rcases hdegrades.closed with hsame | ⟨hclosed, -⟩
  · exact h.known (hsame.symm.trans hconnected)
  · exact absurd (hclosed.symm.trans hconnected) Bool.false_ne_true

/-- **Every operation preserves the invariant.** -/
theorem ConnectionInv.step (h : state.ConnectionInv) (input : ReplicaInput) :
    (stepReplica state input).ConnectionInv where
  connected marketId hvalid := by
    rcases h.valid_step hvalid with ⟨snapshot, rfl, -, happlied⟩ | ⟨hbefore, hsame, -⟩
    · exact (generation_of_applied happlied).1
    · exact hsame.trans (h.connected marketId hbefore)
  known := by
    cases input with
    | openConnection generation =>
      rcases state.openConnection_cases generation with hsame | ⟨next, hnext, -, hgeneration, -⟩
      · rw [stepReplica, hsame]
        exact h.known
      · rw [stepReplica, hnext]
        exact fun _ => hgeneration ▸ rfl
    | closeConnection generation => exact (state.degrades_closeConnection generation).known h
    | beginRecovery other => exact (state.degrades_beginRecovery other).known h
    | deliver event =>
      cases event with
      | snapshot snapshot =>
        rcases state.applySnapshot_cases snapshot with ⟨_, _, -, -, -, -, -, happlied⟩ | hrefused
        · simp only [stepReplica, apply, happlied]
          exact h.known
        · exact hrefused.degrades.known h
      | delta delta =>
        rcases state.applyDelta_cases delta with
          ⟨_, _, _, _, -, -, -, -, -, -, -, -, -, -, happlied⟩ | hrefused
        · simp only [stepReplica, apply, happlied]
          exact h.known
        · exact hrefused.degrades.known h

theorem connectionInv_init (scope : SequenceScope) : ConnectionInv { scope } where
  connected marketId := by
    rintro ⟨book, hbook, -⟩
    simp [findBook] at hbook
  known h := absurd h (by simp)

theorem connectionInv_run (scope : SequenceScope) (inputs : List ReplicaInput) :
    ConnectionInv (run stepReplica { scope } inputs) :=
  run_invariant (fun _ input _ h => h.step input) (connectionInv_init scope)

/-! ### The last snapshot of a valid book -/

/-- After the input that follows `past`, no operation applies a snapshot to the book of the
market, and the connection stays open in the same generation. -/
def QuietAfter (start : MarketState) (past : List ReplicaInput) (input : ReplicaInput)
    (later : List ReplicaInput) (marketId : MarketId) (generation : ℕ) : Prop :=
  (∀ more next, more ++ [next] <+: later →
    ¬AppliesSnapshot (run stepReplica start (past ++ input :: more)) marketId next) ∧
  ∀ more, more <+: later →
    (run stepReplica start (past ++ input :: more)).connected = true ∧
    (run stepReplica start (past ++ input :: more)).connectionGeneration = some generation

theorem last_snapshot {scope : SequenceScope} {inputs : List ReplicaInput}
    (hvalid : InState (run stepReplica { scope } inputs) marketId .valid) :
    ∃ past snapshot later, inputs = past ++ .deliver (.snapshot snapshot) :: later ∧
      snapshot.marketId = marketId ∧
      ((run stepReplica { scope } past).applySnapshot snapshot).2 = .book .applied ∧
      QuietAfter { scope } past (.deliver (.snapshot snapshot)) later marketId
        snapshot.connectionGeneration := by
  induction inputs using List.reverseRecOn with
  | nil =>
    obtain ⟨book, hbook, -⟩ := hvalid
    simp [findBook] at hbook
  | append_singleton inputs input ih =>
    by_cases happlies : AppliesSnapshot (run stepReplica { scope } inputs) marketId input
    · obtain ⟨snapshot, rfl, hmarket, happlied⟩ := happlies
      refine ⟨inputs, snapshot, [], rfl, hmarket, happlied, fun more next hmore => ?_,
        fun more hmore => ?_⟩
      · exact absurd (List.prefix_nil.mp hmore) (by simp)
      · rw [List.prefix_nil.mp hmore, run_append]
        exact generation_of_applied happlied
    · rw [run_append] at hvalid
      obtain ⟨hbefore, hconnected, hgeneration⟩ :=
        ((connectionInv_run scope inputs).valid_step hvalid).resolve_left happlies
      obtain ⟨past, snapshot, later, hinputs, hmarket, happlied, hquiet, hopen⟩ := ih hbefore
      subst hinputs
      refine ⟨past, snapshot, later ++ [input], by simp, hmarket, happlied,
        fun more next hmore => ?_, fun more hmore => ?_⟩
      · rcases List.prefix_concat_iff.mp hmore with heq | hmore
        · obtain ⟨rfl, heq⟩ := List.append_inj' heq rfl
          obtain rfl : next = input := by simpa using heq
          exact happlies
        · exact hquiet more next hmore
      · rcases List.prefix_concat_iff.mp hmore with rfl | hmore
        · have hend := hopen later (List.prefix_refl later)
          rw [← List.cons_append, ← List.append_assoc, run_append]
          exact ⟨hconnected.trans hend.1, hgeneration.trans hend.2⟩
        · exact hopen more hmore

/-! ### The recovery of a stale book -/

/-- The path from a stale book to a valid one: a recovery begins, the book is recovering until a
snapshot is applied, and it is valid from then on. -/
def RecoveryPath (start : MarketState) (marketId : MarketId) (inputs : List ReplicaInput) : Prop :=
  ∃ before recovery between snapshot after,
    inputs = before ++ recovery :: (between ++ snapshot :: after) ∧
    InState (run stepReplica start before) marketId .stale ∧
    StartsRecovery (run stepReplica start before) marketId recovery ∧
    (∀ more, more <+: between →
      InState (run stepReplica start (before ++ recovery :: more)) marketId .recovering) ∧
    AppliesSnapshot (run stepReplica start (before ++ recovery :: between)) marketId snapshot ∧
    ∀ more, more <+: after → InState
      (run stepReplica start (before ++ recovery :: (between ++ snapshot :: more))) marketId .valid

theorem run_snoc (start : MarketState) (inputs : List ReplicaInput) (input : ReplicaInput) :
    run stepReplica start (inputs ++ [input]) = stepReplica (run stepReplica start inputs) input :=
  run_append _ _ _ _

/-- The book of the market has been filled. -/
def Filled (marketId : MarketId) (state : MarketState) : Prop :=
  ∃ book, state.findBook marketId = some book ∧ book.state ≠ .empty

/-- A book that was filled does not become empty. -/
theorem Filled.run (hfilled : Filled marketId state) (inputs : List ReplicaInput) :
    Filled marketId (run stepReplica state inputs) := by
  refine run_invariant (fun state input _ ⟨book, hbook, hstate⟩ => ?_) hfilled
  obtain ⟨next, hnext, (rfl | hstale) | ⟨-, hrecovering, -⟩ | ⟨-, hvalid, -⟩ | ⟨-, hvalid⟩⟩ :=
    findBook_step hbook input
  · exact ⟨next, hnext, hstate⟩
  · exact ⟨next, hnext, by rw [hstale]; simp⟩
  · exact ⟨next, hnext, by rw [hrecovering]; simp⟩
  · exact ⟨next, hnext, by rw [hvalid]; simp⟩
  · exact ⟨next, hnext, by rw [hvalid]; simp⟩

theorem recovery_path {inputs : List ReplicaInput} (hstale : InState state marketId .stale)
    (hvalid : InState (run stepReplica state inputs) marketId .valid) :
    RecoveryPath state marketId inputs := by
  have hunique {current : MarketState} {a b : BookState} (ha : InState current marketId a)
      (hb : InState current marketId b) : a = b := by
    obtain ⟨book, hbook, rfl⟩ := ha
    obtain ⟨other, hother, rfl⟩ := hb
    rw [Option.some.inj (hbook.symm.trans hother)]
  -- The book becomes valid for good by a snapshot, and it was not stale then.
  obtain ⟨past, snapshot, after, rfl, hbefore, hafter⟩ :=
    run_last_change (P := fun state => InState state marketId .valid)
      (fun h => absurd (hunique hstale h) (by simp)) hvalid
  obtain ⟨next, hnext, hnextValid⟩ := hafter [] (List.nil_prefix)
  rw [run_snoc] at hnext
  have hfilled : Filled marketId state := by
    obtain ⟨book, hbook, hstate⟩ := hstale
    exact ⟨book, hbook, by rw [hstate]; simp⟩
  obtain ⟨book, hbook, hnotEmpty⟩ := hfilled.run past
  have hnotValid : book.state ≠ .valid := fun h => hbefore ⟨book, hbook, h⟩
  obtain ⟨hnotStale, happlies⟩ :
      book.state ≠ .stale ∧ AppliesSnapshot (run stepReplica state past) marketId snapshot := by
    obtain ⟨other, hother, hcases⟩ := findBook_step hbook snapshot
    obtain rfl : other = next := Option.some.inj (hother.symm.trans hnext)
    rcases hcases with (rfl | h) | ⟨-, h, -⟩ | ⟨hnotStale, -, happlies⟩ | ⟨h, -⟩
    · exact absurd hnextValid hnotValid
    · exact absurd (h.symm.trans hnextValid) (by simp)
    · exact absurd (h.symm.trans hnextValid) (by simp)
    · exact ⟨hnotStale, happlies⟩
    · exact absurd h hnotValid
  have hrecovering : InState (run stepReplica state past) marketId .recovering := by
    refine ⟨book, hbook, ?_⟩
    cases hstate : book.state with
    | empty => exact absurd hstate hnotEmpty
    | valid => exact absurd hstate hnotValid
    | stale => exact absurd hstate hnotStale
    | recovering => rfl
  -- It is recovering since a recovery began.
  obtain ⟨before, recovery, between, rfl, hnotYet, hbetween⟩ :=
    run_last_change (P := fun state => InState state marketId .recovering)
      (fun h => absurd (hunique hstale h) (by simp)) hrecovering
  obtain ⟨old, hold, -⟩ := hfilled.run before
  obtain ⟨begun, hbegun, hbegunState⟩ := hbetween [] List.nil_prefix
  rw [run_snoc] at hbegun
  obtain ⟨hwasStale, hstarts⟩ :
      old.state = .stale ∧ StartsRecovery (run stepReplica state before) marketId recovery := by
    obtain ⟨other, hother, hcases⟩ := findBook_step hold recovery
    obtain rfl : other = begun := Option.some.inj (hother.symm.trans hbegun)
    rcases hcases with (rfl | h) | ⟨hwasStale, -, hstarts⟩ | ⟨-, h, -⟩ | ⟨-, h⟩
    · exact absurd ⟨other, hold, hbegunState⟩ hnotYet
    · exact absurd (h.symm.trans hbegunState) (by simp)
    · exact ⟨hwasStale, hstarts⟩
    · exact absurd (h.symm.trans hbegunState) (by simp)
    · exact absurd (h.symm.trans hbegunState) (by simp)
  refine ⟨before, recovery, between, snapshot, after, by simp, ⟨old, hold, hwasStale⟩, hstarts,
    hbetween, happlies, fun more hmore => ?_⟩
  have := hafter more hmore
  simpa using this

/-! ### Refused updates -/

/-- The connection is closed and every book is stale. -/
def Closed (state : MarketState) : Prop :=
  state.connected = false ∧
    ∀ marketId book, state.findBook marketId = some book → book.state = .stale

theorem closed_invalidateAll (h : state.connected = false) : state.invalidateAll.Closed := by
  refine ⟨h, fun marketId book hbook => ?_⟩
  rw [findBook_invalidateAll, Option.map_eq_some_iff] at hbook
  obtain ⟨old, -, rfl⟩ := hbook
  rfl

theorem closed_finishShared {next : MarketState} {stream sequence generation : ℕ}
    {result : BookUpdateResult} (haccepts : state.accepts generation = true)
    (hconnected : next.connected = state.connected)
    (hgeneration : next.connectionGeneration = state.connectionGeneration)
    (hne : (next.finishShared stream sequence result).2 ≠ .book .applied) :
    (next.finishShared stream sequence result).1.Closed := by
  obtain ⟨hopen, hcurrent⟩ := accepts_eq_true haccepts
  rw [finishShared_result, Ne, MarketApplyResult.book.injEq] at hne
  rw [finishShared_of_ne hne (hconnected.trans hopen) (hgeneration.trans hcurrent)]
  exact closed_invalidateAll rfl

theorem closed_of_snapshot {snapshot : BookSnapshot} (hscope : state.scope = .sharedStream)
    (haccepts : state.accepts snapshot.connectionGeneration = true)
    (hrefused : (state.applySnapshot snapshot).2 ≠ .book .applied) :
    (state.applySnapshot snapshot).1.Closed := by
  unfold applySnapshot at hrefused ⊢
  rw [if_neg (by simpa using haccepts)] at hrefused ⊢
  simp only [finish, hscope, if_true, true_and] at hrefused ⊢
  split_ifs at hrefused ⊢
  · exact closed_finishShared haccepts rfl rfl hrefused
  · exact closed_finishShared haccepts rfl rfl hrefused

theorem closed_of_delta {delta : BookDelta} (hscope : state.scope = .sharedStream)
    (haccepts : state.accepts delta.connectionGeneration = true)
    (hrefused : (state.applyDelta delta).2 ≠ .book .applied) :
    (state.applyDelta delta).1.Closed := by
  unfold applyDelta at hrefused ⊢
  rw [if_neg (by simpa using haccepts)] at hrefused ⊢
  simp only [finish, hscope, if_true] at hrefused ⊢
  cases hbook : state.books[delta.marketId]? with
  | none =>
    simp only [hbook] at hrefused
    exact closed_finishShared haccepts rfl rfl hrefused
  | some book =>
    simp only [hbook] at hrefused ⊢
    cases hprevious : state.streamSequences[delta.streamId]? with
    | none =>
      simp only [hprevious] at hrefused
      exact closed_finishShared haccepts rfl rfl hrefused
    | some previous =>
      simp only [hprevious] at hrefused ⊢
      split_ifs at hrefused ⊢
      · exact closed_finishShared haccepts rfl rfl hrefused
      · exact closed_finishShared haccepts rfl rfl hrefused

/-- The generation that an update names. -/
def eventGeneration : NormalizedMarketEvent → ℕ
  | .snapshot snapshot => snapshot.connectionGeneration
  | .delta delta => delta.connectionGeneration

/-- An update of another generation, or without a connection, changes nothing. -/
theorem apply_of_not_accepts {event : NormalizedMarketEvent}
    (h : state.accepts (eventGeneration event) = false) :
    state.apply event = (state, .connectionMismatch) := by
  cases event with
  | snapshot snapshot => exact if_pos (by simpa [eventGeneration] using h)
  | delta delta => exact if_pos (by simpa [eventGeneration] using h)

/-- **A shared stream closes on every update that is not applied**, and every book is stale. -/
theorem closed_of_refused {event : NormalizedMarketEvent} {result : BookUpdateResult}
    (hscope : state.scope = .sharedStream) (hresult : (state.apply event).2 = .book result)
    (hne : result ≠ .applied) : (state.apply event).1.Closed := by
  have hrefused : (state.apply event).2 ≠ .book .applied := by
    rw [hresult]
    exact fun h => hne (MarketApplyResult.book.inj h)
  cases haccepts : state.accepts (eventGeneration event) with
  | false =>
    rw [apply_of_not_accepts haccepts] at hresult
    exact absurd hresult (by simp)
  | true =>
    cases event with
    | snapshot snapshot => exact closed_of_snapshot hscope haccepts hrefused
    | delta delta => exact closed_of_delta hscope haccepts hrefused

/-- An accepted update gets the answer of a book. -/
theorem apply_of_accepts {event : NormalizedMarketEvent}
    (h : state.accepts (eventGeneration event) = true) :
    ∃ result, (state.apply event).2 = .book result := by
  cases event with
  | snapshot snapshot =>
    unfold apply applySnapshot
    simp only [show state.accepts snapshot.connectionGeneration = true from h, Bool.not_true,
      Bool.false_eq_true, if_false]
    split_ifs
    · exact ⟨_, finishShared_result _ _ _ _⟩
    · exact ⟨_, finish_result _ _ _ _⟩
  | delta delta =>
    unfold apply applyDelta
    simp only [show state.accepts delta.connectionGeneration = true from h, Bool.not_true,
      Bool.false_eq_true, if_false]
    cases state.books[delta.marketId]? with
    | none => exact ⟨_, finish_result _ _ _ _⟩
    | some book =>
      dsimp only
      by_cases hscope : state.scope = .sharedStream
      · rw [if_pos hscope]
        cases state.streamSequences[delta.streamId]? with
        | none => exact ⟨_, finishShared_result _ _ _ _⟩
        | some previous =>
          dsimp only
          split_ifs
          · exact ⟨_, finishShared_result _ _ _ _⟩
          · exact ⟨_, finishShared_result _ _ _ _⟩
      · rw [if_neg hscope]
        exact ⟨_, rfl⟩

/-- The answer of a connection mismatch is given exactly to updates that are not accepted. -/
theorem apply_eq_mismatch_iff {event : NormalizedMarketEvent} :
    (state.apply event).2 = .connectionMismatch ↔
      state.accepts (eventGeneration event) = false := by
  cases haccepts : state.accepts (eventGeneration event) with
  | false => simp [apply_of_not_accepts haccepts]
  | true =>
    obtain ⟨result, hresult⟩ := apply_of_accepts haccepts
    simp [hresult]

theorem apply_of_mismatch {event : NormalizedMarketEvent}
    (h : (state.apply event).2 = .connectionMismatch) : (state.apply event).1 = state := by
  rw [apply_of_not_accepts (apply_eq_mismatch_iff.mp h)]

theorem openConnection_of_refused {generation : ℕ}
    (h : (state.openConnection generation).2 = false) :
    (state.openConnection generation).1 = state := by
  rcases state.openConnection_cases generation with hsame | ⟨next, hnext, -⟩
  · rw [hsame]
  · rw [hnext] at h
    exact absurd h (by simp)

theorem closeConnection_of_refused {generation : ℕ}
    (h : (state.closeConnection generation).2 = false) :
    (state.closeConnection generation).1 = state := by
  rcases state.closeConnection_cases generation with ⟨hsame, -⟩ | ⟨hclosed, -⟩
  · rw [hsame]
  · rw [hclosed] at h
    exact absurd h (by simp)

end MarketState

/-! ### The invariant -/

open MarketState in
/-- **The connection and generation invariant.** After every sequence of operations:
while disconnected no book is valid; a valid book has received its last snapshot in the generation
that has been open ever since; from a point where a book was stale it has become valid only by a
recovery and then a snapshot; on a shared stream every update that is not applied closes the
connection and leaves every book stale; and what is refused for its generation changes nothing. -/
theorem connection_generation_invariant (scope : SequenceScope) (inputs : List ReplicaInput) :
    let state := run stepReplica { scope } inputs
    (state.connected = false → ∀ marketId, ¬InState state marketId .valid) ∧
    (∀ marketId, InState state marketId .valid →
      ∃ past snapshot later, inputs = past ++ .deliver (.snapshot snapshot) :: later ∧
        snapshot.marketId = marketId ∧
        ((run stepReplica { scope } past).applySnapshot snapshot).2 = .book .applied ∧
        QuietAfter { scope } past (.deliver (.snapshot snapshot)) later marketId
          snapshot.connectionGeneration) ∧
    (∀ past later marketId, inputs = past ++ later →
      InState (run stepReplica { scope } past) marketId .stale → InState state marketId .valid →
      RecoveryPath (run stepReplica { scope } past) marketId later) ∧
    (scope = .sharedStream → ∀ event result, (state.apply event).2 = .book result →
      result ≠ .applied → (state.apply event).1.Closed) ∧
    (∀ event, (state.apply event).2 = .connectionMismatch → (state.apply event).1 = state) ∧
    (∀ generation, (state.openConnection generation).2 = false →
      (state.openConnection generation).1 = state) ∧
    ∀ generation, (state.closeConnection generation).2 = false →
      (state.closeConnection generation).1 = state := by
  have hscope : (run stepReplica { scope } inputs).scope = scope :=
    run_invariant (P := fun state => state.scope = scope)
      (fun state input _ h => (stepReplica_scope state input).trans h) rfl
  refine ⟨fun hclosed marketId hvalid => ?_, fun marketId hvalid => last_snapshot hvalid,
    fun past later marketId hinputs hstale hvalid => ?_,
    fun hshared event result => closed_of_refused (hscope.trans hshared),
    fun event => apply_of_mismatch, fun generation => openConnection_of_refused,
    fun generation => closeConnection_of_refused⟩
  · have hopen := (connectionInv_run scope inputs).connected marketId hvalid
    exact absurd (hclosed.symm.trans hopen) Bool.false_ne_true
  · refine recovery_path hstale ?_
    rwa [hinputs, run_append] at hvalid

end EventMarket.Market
