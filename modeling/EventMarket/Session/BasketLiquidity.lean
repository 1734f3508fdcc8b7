import EventMarket.Foundations.Depletion
import EventMarket.Session.BasketFloor
import EventMarket.Session.ShownLevels

/-!
# The liquidity of the basket execution

The rows of a scenario tell which levels of the books its fills took from, over all baskets. What
it counts as consumed is the sum of these fills, and it never exceeds what the books showed.

## Main definitions

* `Draft`, `takesOf`: the takes that the rows of a scenario tell of.
* `BooksOf`: the books that the calls of a run have shown.
* `Depletes`: the consumption of a scenario is that of its rows, within what was shown.

## Main results

* `run_booksOf`: orders are filled from books that were shown.
* `basket_liquidity_once`: no displayed quantity is filled twice.
-/

namespace EventMarket.Session

open Book Core Foundations Gateway Market

/-! ### The takes of the rows -/

/-- A take: a level of a book, and the quantity. -/
abbrev Take : Type := PhysicalLevel × ℕ

/-- What was taken at a level. -/
abbrev takenFrom (takes : List Take) (level : PhysicalLevel) : ℕ :=
  takenAt Prod.fst Prod.snd takes level

theorem takenFrom_cons (take : Take) (takes : List Take) (level : PhysicalLevel) :
    takenFrom (take :: takes) level =
      (if take.1 = level then take.2 else 0) + takenFrom takes level := takenAt_cons

theorem takenFrom_append (takes more : List Take) (level : PhysicalLevel) :
    takenFrom (takes ++ more) level = takenFrom takes level + takenFrom more level :=
  takenAt_append

/-- The takes of a fill for a leg of a basket. -/
def fillTakes (basket : ScreenBasket) (leg : Fin 3) (sell : Bool) (filled : Fill) : List Take :=
  filled.map fun row =>
    (physicalLevel (basket.markets leg) (decide (leg = 0)) sell row.price, row.quantity)

/-- The basket of the current attempt, and the takes so far. -/
structure Draft where
  basket : Option ScreenBasket := none
  takes : List Take := []

/-- Read one row. -/
def Draft.read (screen : BasketScreen) (draft : Draft) : ExecutionRow → Draft
  | .entry _ _ _ basketId _ _ =>
    { draft with basket := screen.baskets.find? fun basket => decide (basket.id = basketId) }
  | .fill _ _ _ leg sell filled =>
    { draft with takes := draft.takes ++
      draft.basket.elim [] fun basket => fillTakes basket leg sell filled }
  | _ => draft

/-- Read the rows of a scenario. -/
def draftOf (screen : BasketScreen) (index : ℕ) (trace : List ExecutionRow) : Draft :=
  (trace.filter fun row => decide (row.scenario = some index)).foldl (Draft.read screen) {}

/-- The takes that the rows of a scenario tell of. -/
def takesOf (screen : BasketScreen) (index : ℕ) (trace : List ExecutionRow) : List Take :=
  (draftOf screen index trace).takes

section Rows

variable {screen : BasketScreen} {index : ℕ} {trace rows : List ExecutionRow}

theorem draftOf_append (hrows : RowsOf index rows) :
    draftOf screen index (trace ++ rows) =
      rows.foldl (Draft.read screen) (draftOf screen index trace) := by
  have hall : rows.filter (fun row => decide (row.scenario = some index)) = rows :=
    List.filter_eq_self.mpr fun row hrow => by simpa using hrows row hrow
  rw [draftOf, List.filter_append, List.foldl_append, hall]
  rfl

theorem draftOf_append_others (hrows : ∀ row ∈ rows, row.scenario ≠ some index) :
    draftOf screen index (trace ++ rows) = draftOf screen index trace := by
  have hnone : rows.filter (fun row => decide (row.scenario = some index)) = [] :=
    List.filter_eq_nil_iff.mpr fun row hrow => by simpa using hrows row hrow
  rw [draftOf, List.filter_append, hnone, List.append_nil]
  rfl

end Rows

/-- A basket is found by its id. -/
theorem BasketScreen.Valid.find_basket {screen : BasketScreen} {basket : ScreenBasket}
    (h : screen.Valid) (hbasket : basket ∈ screen.baskets) :
    screen.baskets.find? (fun other => decide (other.id = basket.id)) = some basket := by
  have hnodup := h.ids_nodup
  generalize screen.baskets = baskets at hbasket hnodup
  induction baskets with
  | nil => cases hbasket
  | cons first baskets ih =>
    obtain ⟨hfirst, hrest⟩ := List.nodup_cons.mp hnodup
    rcases List.mem_cons.mp hbasket with rfl | hmem
    · rw [List.find?_cons_of_pos (by simp)]
    · have hne : first.id ≠ basket.id := fun heq => hfirst (heq ▸ List.mem_map_of_mem hmem)
      rw [List.find?_cons_of_neg (by simpa using hne)]
      exact ih hmem hrest

/-! ### The books that were shown -/

/-- A side of a book that some of the calls have shown, or nothing. -/
def BooksOf (calls : List ObserverCall) (books : MarketId → CachedBook) : Prop :=
  ∀ marketId side, (books marketId).sides side = [] ∨ ∃ call ∈ calls,
    (books marketId).sides side =
      shownLevels call.state marketId (if side = 0 then .bid else .ask)

section Books

variable {policy : BasketExecutionPolicy} {calls more : List ObserverCall}
  {books : MarketId → CachedBook} {self next : BasketExecution policy}

theorem BooksOf.congr (h : BooksOf calls self.books) (hsame : self.SameLevels next) :
    BooksOf calls next.books := by
  intro marketId side
  rw [hsame marketId]
  exact h marketId side

theorem BooksOf.append (h : BooksOf calls books) (more : List ObserverCall) :
    BooksOf (calls ++ more) books := fun marketId side =>
  (h marketId side).imp_right fun ⟨call, hcall, hsides⟩ =>
    ⟨call, List.mem_append_left _ hcall, hsides⟩

/-- Every price is shown once. -/
theorem BooksOf.distinct (h : BooksOf calls books) : DistinctPrices books := by
  intro marketId side
  rcases h marketId side with hnone | ⟨call, -, hsides⟩
  · rw [hnone]
    exact List.nodup_nil
  · rw [hsides]
    have hside : (if side = 0 then Side.bid else Side.ask) =
        if decide (side ≠ 0) then Side.ask else Side.bid := by
      by_cases hzero : side = 0 <;> simp [hzero]
    rw [hside]
    refine List.pairwise_map.mpr
      ((shownLevels_ascending call.state marketId (decide (side ≠ 0))).imp ?_)
    intro first second hlt heq
    rw [heq] at hlt
    exact absurd hlt (lt_irrefl _)

/-- What a book shows was shown in one of the calls. -/
theorem BooksOf.displayed_le (h : BooksOf calls books) {level : PhysicalLevel} {bound : ℕ}
    (hbound : ∀ call ∈ calls, shownAt call.state level ≤ bound) : displayed books level ≤ bound := by
  rcases h level.marketId (bookSide level.ask) with hnone | ⟨call, hcall, hsides⟩
  · unfold displayed
    rw [hnone]
    exact Nat.zero_le _
  · have hside : (if bookSide level.ask = 0 then Side.bid else Side.ask) =
        if level.ask then Side.ask else Side.bid := by
      cases level.ask <;> simp [bookSide]
    have hshown : displayed books level = shownAt call.state level := by
      unfold displayed shownAt
      rw [hsides, hside] <;> rfl
    exact hshown.trans_le (hbound call hcall)

theorem all_books (step : Lane → Except StudyException Lane) :
    Yields (fun _ => True) (fun next => next.books = self.books) (self.all step) := by
  refine Yields.bind (P := fun _ => True) ?_ fun _ _ _ => rfl
  cases eachScenario step 0 self.scenarios self.trace <;> trivial

theorem sameLevels_of_eq (h : next.books = self.books) : self.SameLevels next := fun marketId => by
  rw [h]

/-- The checks before the orders are advanced show no other levels. -/
theorem prepare_sameLevels {frame : ReplayFrame} {wall : ℤ} {state : MarketState} :
    Yields (fun _ => True) (fun next => self.SameLevels next)
      (self.prepare frame wall state) := by
  have hall (study : BasketExecution policy) (step : Lane → Except StudyException Lane) :
      Yields (fun _ => True) (fun next => study.SameLevels next) (study.all step) :=
    (all_books step).mono fun _ hnext => sameLevels_of_eq hnext
  have hwall : Yields (fun _ => True) (fun next => self.SameLevels next)
      (self.checkWall frame.timeNs wall) := by
    unfold BasketExecution.checkWall
    split
    · exact hall { self with broken := true } _
    · exact fun _ => rfl
  refine Yields.bind hwall fun timed _ htimed => ?_
  have hexpiry : Yields (fun _ => True) (fun next => timed.SameLevels next)
      (timed.checkExpiry frame.timeNs wall) := by
    unfold BasketExecution.checkExpiry
    split
    · exact hall { timed with expired := true } _
    · exact fun _ => rfl
  refine Yields.bind hexpiry fun unexpired _ hunexpired => ?_
  have hconnection : Yields (fun _ => True) (fun next => unexpired.SameLevels next)
      (unexpired.checkConnection frame.timeNs state) := by
    unfold BasketExecution.checkConnection
    split
    · exact Yields.bind (hall unexpired _) fun next _ hnext => hnext
    · exact fun _ => rfl
  refine Yields.bind hconnection fun connected _ hconnected => ?_
  have hbook : Yields (fun _ => True) (fun next => connected.SameLevels next)
      (connected.checkBook frame state) := by
    unfold BasketExecution.checkBook
    split
    · exact fun _ => rfl
    next marketId _ =>
    split
    · exact fun _ => rfl
    · refine (hall _ _).mono fun next hnext other => ?_
      rw [hnext other, BasketExecution.sameLevels_invalidate marketId other]
  refine hbook.mono fun next hnext marketId => ?_
  rw [hnext, hconnected, hunexpired, htimed]

/-- The book of a record is shown from then on. -/
theorem updateBook_booksOf (h : BooksOf calls self.books) (frame : ReplayFrame)
    (state : MarketState) :
    BooksOf (calls ++ [.after frame state]) (self.updateBook frame state).books := by
  have hbefore := h.append [.after frame state]
  unfold BasketExecution.updateBook
  split
  · split
    · exact hbefore
    next marketId _ =>
    split
    · exact hbefore
    next book hbook =>
    intro other side
    rcases eq_or_ne other marketId with rfl | hne
    · refine .inr ⟨_, List.mem_append_right _ (List.mem_singleton_self _), ?_⟩
      have hfound : state.findBook other = some book := by
        unfold BasketExecution.usableBook Observation.validBook at hbook
        obtain ⟨hvalid, -⟩ := Option.filter_eq_some_iff.mp hbook
        exact (Option.filter_eq_some_iff.mp hvalid).1
      dsimp only
      rw [Function.update_self]
      change _ = shownLevels state other _
      unfold shownLevels
      rw [hfound]
    · dsimp only
      rw [Function.update_of_ne hne]
      exact hbefore other side
  · exact hbefore

theorem step_booksOf (h : BooksOf calls self.books) (call : ObserverCall) :
    Yields (fun _ => True) (fun next => BooksOf (calls ++ [call]) next.books)
      (self.step call) := by
  have hbefore := h.append [call]
  cases call with
  | before time state =>
    change Yields _ _ (self.before time)
    unfold BasketExecution.before
    split
    · trivial
    have hgap : Yields (fun _ => True) (fun next => next.books = self.books)
        (self.checkGap time) := by
      unfold BasketExecution.checkGap
      split
      · exact @all_books policy { self with broken := true } _
      · rfl
    refine Yields.bind hgap fun checked _ hchecked => ?_
    refine Yields.bind (P := fun _ => True) ?_ fun control _ _ => ?_
    · cases checked.control.before time <;> trivial
    · exact hchecked ▸ hbefore
  | after frame state =>
    change Yields _ _ (self.after frame state)
    unfold BasketExecution.after
    dsimp only
    split
    · trivial
    split
    · trivial
    refine Yields.bind prepare_sameLevels fun prepared _ hprepared => ?_
    have hadvance : Yields (fun _ => True) (fun next => next.books = prepared.books)
        (prepared.advanceAll frame.timeNs (self.disconnected state)) := by
      unfold BasketExecution.advanceAll
      split
      · rfl
      · exact all_books _
    refine Yields.bind hadvance fun advanced _ hadvanced => ?_
    have hshown : BooksOf calls advanced.books := hadvanced ▸ h.congr hprepared
    have hobserve : Yields (fun _ => True)
        (fun next => next.books = (advanced.updateBook frame state).books)
        ((advanced.updateBook frame state).observe frame state) := by
      refine Yields.bind (P := fun _ => True) ?_ fun control _ _ => rfl
      cases ({ (advanced.updateBook frame state).control with signals := [] } :
        Observation policy.basket).after frame state <;> trivial
    refine Yields.bind hobserve fun observed _ hobserved => ?_
    have hdecide : Yields (fun _ => True) (fun next => next.books = observed.books)
        (observed.decideAll frame.timeNs state) := by
      unfold BasketExecution.decideAll
      split
      · rfl
      · exact all_books _
    refine Yields.bind hdecide fun decided _ hdecided => ?_
    change BooksOf _ decided.books
    rw [hdecided, hobserved]
    exact updateBook_booksOf hshown frame state

/-- **Orders are filled from books that were shown.** -/
theorem run_booksOf (policy : BasketExecutionPolicy) (calls : List ObserverCall) :
    Yields (fun _ => True) (fun study => BooksOf calls study.books)
      (runExcept BasketExecution.step (.initial policy) calls) :=
  Yields.runExcept (I := fun past (study : BasketExecution policy) => BooksOf past study.books)
    (fun _ _ => .inl rfl) fun past call _ _ _ _ h => step_booksOf h call

end Books

/-! ### The consumption and the rows -/

/-- **The consumption of a scenario** is that of its rows, and within what the calls have shown. -/
structure Depletes (calls : List ObserverCall) (scenario : Scenario) (draft : Draft) : Prop where
  basket : ∀ attempt ∈ scenario.attempt, draft.basket = some attempt.basket
  consumed : ∀ level, scenario.consumed level = takenFrom draft.takes level
  within : ∀ level bound, (∀ call ∈ calls, shownAt call.state level ≤ bound) →
    takenFrom draft.takes level ≤ bound

section Outcomes

variable {policy : BasketExecutionPolicy} {books : MarketId → CachedBook} {index : ℕ} {time : ℤ}
  {scenario next : Scenario} {attempt : Attempt} {rows : List ExecutionRow} {draft : Draft}
  {calls : List ObserverCall} {screen : BasketScreen} {sell : Bool} {filled : Fill}

theorem fillTakes_cons {basket : ScreenBasket} {leg : Fin 3} {row : FillLevel} :
    fillTakes basket leg sell (row :: filled) =
      (physicalLevel (basket.markets leg) (decide (leg = 0)) sell row.price, row.quantity) ::
        fillTakes basket leg sell filled := rfl

/-- What a fill consumes at a level is what it takes there. -/
theorem consume_eq (consumed : PhysicalLevel → ℕ) (basket : ScreenBasket) (leg : Fin 3)
    (sell : Bool) (filled : Fill) (level : PhysicalLevel) :
    consume consumed (basket.markets leg) (decide (leg = 0)) sell filled level =
      consumed level + takenFrom (fillTakes basket leg sell filled) level := by
  induction filled generalizing consumed with
  | nil => rfl
  | cons row filled ih =>
    rw [consume_cons, ih, fillTakes_cons, takenFrom_cons]
    by_cases hlevel : physicalLevel (basket.markets leg) (decide (leg = 0)) sell row.price = level
    · subst hlevel
      rw [Function.update_self, if_pos rfl, Nat.add_assoc]
    · rw [Function.update_of_ne (Ne.symm hlevel), if_neg hlevel, Nat.zero_add]

/-- **The takes of a fill** stay within what is displayed. -/
theorem fillTakes_within (hbooks : DistinctPrices books)
    (hconsumed : ∀ level, scenario.consumed level = takenFrom draft.takes level)
    (hfill : Lane.arrivingFill policy books scenario attempt sell = .ok filled) :
    Within Prod.fst Prod.snd (displayed books) draft.takes
      (fillTakes attempt.basket attempt.leg sell filled) := by
  intro before take after hsplit
  have hmem : take ∈ fillTakes attempt.basket attempt.leg sell filled := by
    rw [hsplit]
    exact List.mem_append_right _ List.mem_cons_self
  obtain ⟨row, hrow, rfl⟩ := List.mem_map.mp hmem
  have hle := fill_consumes_le hbooks hfill hrow
  rw [consume_eq, hconsumed, hsplit] at hle
  refine le_trans ?_ hle
  simp only [takenFrom, takenAt_append, takenAt_cons, takenAt_nil]
  omega

/-- A fill comes to the takes. -/
theorem Depletes.fill (h : Depletes calls scenario draft) (screen : BasketScreen) (index : ℕ)
    (hbooks : BooksOf calls books) (hattempt : scenario.attempt = some attempt)
    (hfill : Lane.arrivingFill policy books scenario attempt sell = .ok filled)
    (hconsumed : next.consumed = Lane.consumedBy scenario attempt sell filled)
    (hnext : ∃ attempt', next.attempt = some attempt' ∧ attempt'.basket = attempt.basket) :
    Depletes calls next (draft.read screen
      (.fill index scenario.attempts attempt.due attempt.leg sell filled)) := by
  have hbasket := h.basket attempt hattempt
  have htakes : (draft.read screen (.fill index scenario.attempts attempt.due attempt.leg sell
      filled)).takes = draft.takes ++ fillTakes attempt.basket attempt.leg sell filled := by
    unfold Draft.read
    rw [hbasket]
    rfl
  refine ⟨?_, fun level => ?_, fun level bound hbound => ?_⟩
  · obtain ⟨other, hother, hsame⟩ := hnext
    intro current hcurrent
    obtain rfl := Option.some.inj (hother.symm.trans hcurrent)
    exact hbasket.trans (congrArg some hsame.symm)
  · rw [hconsumed, Lane.consumedBy, consume_eq, htakes, takenFrom_append, h.consumed]
  · rw [htakes]
    exact (fillTakes_within hbooks.distinct h.consumed hfill).takenAt_le (h.within level bound hbound)
      (hbooks.displayed_le hbound)

/-- Rows that tell of neither an entry nor a fill. -/
def Silent (rows : List ExecutionRow) : Prop :=
  ∀ (screen : BasketScreen) (draft : Draft), rows.foldl (Draft.read screen) draft = draft

theorem Depletes.silent (h : Depletes calls scenario draft) (hrows : Silent rows)
    (hconsumed : next.consumed = scenario.consumed)
    (hattempt : ∀ attempt ∈ next.attempt, draft.basket = some attempt.basket) :
    Depletes calls next (rows.foldl (Draft.read screen) draft) := by
  rw [hrows]
  exact ⟨hattempt, fun level => hconsumed ▸ h.consumed level, h.within⟩

/-- Leaving neither enters nor fills, and leaves the same basket. -/
theorem Lane.ExitOutcome.silent {start : ℕ}
    (h : Lane.ExitOutcome index time scenario attempt start next rows) :
    Silent rows ∧ next.consumed = scenario.consumed ∧
      ∀ other ∈ next.attempt, other.basket = attempt.basket := by
  cases h with
  | sells leg hleg =>
    refine ⟨fun _ _ => rfl, rfl, ?_⟩
    rintro _ ⟨⟩
    rfl
  | residual hnone hheld =>
    refine ⟨fun _ _ => rfl, rfl, ?_⟩
    rintro _ ⟨⟩
    rfl
  | exits hnone hspent => exact ⟨fun _ _ => rfl, rfl, by rintro _ ⟨⟩⟩
  | empties hnone hspent => exact ⟨fun _ _ => rfl, rfl, by rintro _ ⟨⟩⟩

theorem Lane.Leaves.silent {reason : String}
    (h : Lane.Leaves index time scenario attempt reason next rows) :
    Silent rows ∧ next.consumed = scenario.consumed ∧
      ∀ other ∈ next.attempt, other.basket = attempt.basket := by
  obtain ⟨hexit⟩ := h
  obtain ⟨hrows, hconsumed, hbasket⟩ := hexit.silent
  exact ⟨fun screen draft => hrows screen draft, hconsumed, hbasket⟩

theorem Lane.BuyOutcome.silent (h : Lane.BuyOutcome policy index time scenario attempt next rows) :
    Silent rows ∧ next.consumed = scenario.consumed ∧
      ∀ other ∈ next.attempt, other.basket = attempt.basket := by
  cases h with
  | leaves reason aborts hleaves => exact hleaves.silent
  | submits limit reserve projected hreserve hle =>
    refine ⟨fun _ _ => rfl, rfl, ?_⟩
    rintro _ ⟨⟩
    rfl

/-- **An event** takes within what is displayed. -/
theorem Lane.EventOutcome.depletes
    (h : Lane.EventOutcome policy books index scenario attempt next rows)
    (hbooks : BooksOf calls books) (hattempt : scenario.attempt = some attempt)
    (hdepletes : Depletes calls scenario draft) :
    Depletes calls next (rows.foldl (Draft.read screen) draft) := by
  have hbasket := hdepletes.basket attempt hattempt
  have hquiet (hsilent : Silent rows ∧ next.consumed = scenario.consumed ∧
      ∀ other ∈ next.attempt, other.basket = attempt.basket) :
      Depletes calls next (rows.foldl (Draft.read screen) draft) :=
    hdepletes.silent hsilent.1 hsilent.2.1 fun other hother =>
      hbasket.trans (congrArg some (hsilent.2.2 other hother).symm)
  cases h with
  | buys filled hstage hfill => 
    exact hdepletes.fill screen index hbooks hattempt hfill rfl ⟨_, rfl, rfl⟩
  | sells filled hstage hfill => 
    exact hdepletes.fill screen index hbooks hattempt hfill rfl ⟨_, rfl, rfl⟩
  | leaves hstage hshort hleaves => exact hquiet hleaves.silent
  | goesOn leg hstage hfull hleg hbuys => exact hquiet hbuys.silent
  | completes breaches hstage hfull hlast =>
    exact hquiet ⟨fun _ _ => rfl, rfl, by rintro _ ⟨⟩⟩
  | exits hstage hexit => exact hquiet hexit.silent

/-- The takes of an event. -/
theorem Lane.EventOutcome.takes
    (h : Lane.EventOutcome policy books index scenario attempt next rows)
    (hbooks : BooksOf calls books) (hattempt : scenario.attempt = some attempt)
    (hdepletes : Depletes calls scenario draft) (screen : BasketScreen) :
    ∃ takes, (rows.foldl (Draft.read screen) draft).takes = draft.takes ++ takes ∧
      Within Prod.fst Prod.snd (displayed books) draft.takes takes := by
  have hbasket := hdepletes.basket attempt hattempt
  have hquiet (hsilent : Silent rows) : ∃ takes,
      (rows.foldl (Draft.read screen) draft).takes = draft.takes ++ takes ∧
        Within Prod.fst Prod.snd (displayed books) draft.takes takes :=
    ⟨[], by rw [hsilent, List.append_nil], within_nil⟩
  have hfill (sell : Bool) (filled : Fill)
      (hfilled : Lane.arrivingFill policy books scenario attempt sell = .ok filled) : ∃ takes,
      (draft.read screen (.fill index scenario.attempts attempt.due attempt.leg sell filled)).takes
          = draft.takes ++ takes ∧
        Within Prod.fst Prod.snd (displayed books) draft.takes takes := by
    refine ⟨_, ?_, fillTakes_within hbooks.distinct hdepletes.consumed hfilled⟩
    rw [Draft.read, hbasket]
    rfl
  cases h with
  | buys filled hstage hfilled => exact hfill false filled hfilled
  | sells filled hstage hfilled => exact hfill true filled hfilled
  | leaves hstage hshort hleaves => exact hquiet hleaves.silent.1
  | goesOn leg hstage hfull hleg hbuys => exact hquiet hbuys.silent.1
  | completes breaches hstage hfull hlast => exact hquiet fun _ _ => rfl
  | exits hstage hexit => exact hquiet hexit.silent.1

theorem Lane.DecideOutcome.depletes (hvalid : policy.basket.screen.Valid)
    (h : Lane.DecideOutcome policy index time scenario next rows)
    (hdepletes : Depletes calls scenario draft) :
    Depletes calls next (rows.foldl (Draft.read policy.basket.screen) draft) := by
  cases h with
  | stays busy rejected => exact ⟨hdepletes.basket, hdepletes.consumed, hdepletes.within⟩
  | enters rejected quantity quoteMargin basket hbasket hidle hactive hbuys =>
    obtain ⟨hrows, hconsumed, hsame⟩ := hbuys.silent
    have hentered : Depletes calls { scenario with attempt := none }
        { draft with basket := some basket } :=
      ⟨by rintro _ ⟨⟩, hdepletes.consumed, hdepletes.within⟩
    rw [List.foldl_cons, Draft.read, hvalid.find_basket hbasket]
    exact hentered.silent hrows hconsumed fun other hother =>
      congrArg some (hsame other hother).symm

theorem Lane.CensorOutcome.depletes {reason : String}
    (h : Lane.CensorOutcome index time reason scenario next rows)
    (hdepletes : Depletes calls scenario draft) :
    Depletes calls next (rows.foldl (Draft.read screen) draft) := by
  cases h with
  | stays => exact hdepletes
  | censors attempt hattempt hactive =>
    exact ⟨hdepletes.basket, hdepletes.consumed, hdepletes.within⟩

end Outcomes

/-! ### Whole runs -/

section Runs

variable {policy : BasketExecutionPolicy} {calls past : List ObserverCall}
  {books : MarketId → CachedBook} {lane : Lane}

/-- The books in which an event is handled were shown in the past. -/
theorem Handles.booksOf (h : Handles policy calls past books lane) : BooksOf past books := by
  obtain @⟨frame, state, later, wall, study, prepared, start, -, hrun, -, -, hprepared, -, rfl, -⟩ :=
    h
  have hbooks := (run_booksOf policy past).of_ok hrun
  have hcounted : BooksOf past
    (BasketExecution.books { study with records := study.records + 1 }) := hbooks
  exact hcounted.congr (prepare_sameLevels.of_ok hprepared)

theorem depletesInvariant (hvalid : policy.basket.screen.Valid) (calls : List ObserverCall) :
    RunInvariant policy calls fun past index scenario trace =>
      Depletes past scenario (draftOf policy.basket.screen index trace) where
  start index delay := ⟨by rintro _ ⟨⟩, fun _ => rfl, fun _ _ _ => Nat.zero_le _⟩
  stable past index scenario trace rows hrows h := by
    dsimp only
    rwa [draftOf_append_others hrows]
  grow past call index scenario trace _ h :=
    ⟨h.basket, h.consumed, fun level bound hbound =>
      h.within level bound fun other hother => hbound other (List.mem_append_left _ hother)⟩
  event past books lane attempt next rows hhandles _ hattempt hevent h := by
    rw [draftOf_append hevent.rowsOf]
    exact hevent.depletes hhandles.booksOf hattempt h
  decision past index time scenario next trace rows _ hdecide h := by
    rw [draftOf_append hdecide.rowsOf]
    exact hdecide.depletes hvalid h
  censor past index time reason scenario next trace rows _ hcensor h := by
    rw [draftOf_append hcensor.rowsOf]
    exact hcensor.depletes h

/-- **No displayed liquidity is filled twice by the baskets.** For a loaded policy and in every
run: an event takes from the books of earlier records, and each of its takes leaves the total of the
scenario at its level, over all baskets and both outcomes, within what these books display. What a
scenario counts as consumed is this total, and never exceeds the most that was shown. -/
theorem basket_liquidity_once {library : JsonLibrary} {sha256 : List UInt8 → String}
    {metadata : MetadataSnapshot} {basketBytes policyBytes : List UInt8}
    {policy : BasketExecutionPolicy}
    (hload : loadBasketExecution library sha256 metadata basketBytes policyBytes = .ok policy)
    (calls : List ObserverCall) :
    (∀ past books lane next, Handles policy calls past books lane →
      lane.event policy books = .ok next → BooksOf past books ∧ ∃ takes,
        takesOf policy.basket.screen lane.index next.trace =
          takesOf policy.basket.screen lane.index lane.trace ++ takes ∧
        Within Prod.fst Prod.snd (displayed books)
          (takesOf policy.basket.screen lane.index lane.trace) takes) ∧
    ∀ study, runExcept BasketExecution.step (.initial policy) calls = .ok study →
      ∀ index scenario, study.scenarios[index]? = some scenario → ∀ level,
        scenario.consumed level =
            takenFrom (takesOf policy.basket.screen index study.trace) level ∧
          ∀ bound, (∀ call ∈ calls, shownAt call.state level ≤ bound) →
            scenario.consumed level ≤ bound := by
  have hI := depletesInvariant (loadBasketExecution_valid hload) calls
  refine ⟨fun past books lane next hhandles hevent => ⟨hhandles.booksOf, ?_⟩,
    fun study hstudy index scenario hscenario level => ?_⟩
  · obtain ⟨hsound, hdepletes⟩ := hI.handled hhandles
    cases hattempt : lane.scenario.attempt with
    | none =>
      unfold Lane.event at hevent
      rw [hattempt] at hevent
      obtain rfl := Except.ok.inj hevent
      exact ⟨[], (List.append_nil _).symm, within_nil⟩
    | some attempt =>
      obtain ⟨scenario, rows, rfl, houtcome⟩ := (event_solvent hsound hattempt).of_ok hevent
      have hdraft := @draftOf_append policy.basket.screen lane.index lane.trace rows
        houtcome.rowsOf
      obtain ⟨takes, htakes, hwithin⟩ := houtcome.takes hhandles.booksOf hattempt hdepletes
        policy.basket.screen
      exact ⟨takes, (congrArg Draft.takes hdraft).trans htakes, hwithin⟩
  · have hdepletes := (hI.run.of_ok hstudy index scenario hscenario).2
    exact ⟨hdepletes.consumed level, fun bound hbound =>
      (hdepletes.consumed level).trans_le (hdepletes.within level bound hbound)⟩

end Runs

/-- The ask of the first leg is taken whole. -/
theorem basket_liquidity_once_sample :
    ∃ policy study scenario,
      runExcept BasketExecution.step (.initial policy) sampleExecutionCalls = .ok study ∧
        study.scenarios[0]? = some scenario ∧
        takenFrom (takesOf policy.basket.screen 0 study.trace) ⟨1, true, 5000⟩ = 100 ∧
        scenario.consumed ⟨1, true, 5000⟩ = 100 := by
  have hrun : (loadBasketExecution compactLibrary sampleBasketSha256 sampleBasketMetadata
      sampleBasketBytes sampleExecutionBytes).toOption.bind (fun policy =>
        (runExcept BasketExecution.step (.initial policy) sampleExecutionCalls).toOption.map
          fun study => (study.scenarios.length,
            takenFrom (takesOf policy.basket.screen 0 study.trace) ⟨1, true, 5000⟩)) =
        some (1, 100) := by decide +kernel
  cases hload : loadBasketExecution compactLibrary sampleBasketSha256 sampleBasketMetadata
      sampleBasketBytes sampleExecutionBytes with
  | error error => simp [hload, Except.toOption] at hrun
  | ok policy =>
  rw [hload] at hrun
  change (runExcept BasketExecution.step (.initial policy) sampleExecutionCalls).toOption.map _ = _
    at hrun
  cases hstudy : runExcept BasketExecution.step (.initial policy) sampleExecutionCalls with
  | error error => simp [hstudy, Except.toOption] at hrun
  | ok study =>
  rw [hstudy] at hrun
  obtain ⟨hlength, htaken⟩ := Prod.mk.inj (Option.some.inj hrun)
  obtain ⟨scenario, hscenario⟩ := List.length_eq_one_iff.mp hlength
  have hindex : study.scenarios[0]? = some scenario := by rw [hscenario]; rfl
  refine ⟨policy, study, scenario, hstudy, hindex, htaken, ?_⟩
  exact ((basket_liquidity_once hload sampleExecutionCalls).2 study hstudy 0 scenario hindex
    ⟨1, true, 5000⟩).1.trans htaken

end EventMarket.Session
