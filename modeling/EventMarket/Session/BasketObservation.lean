import EventMarket.Core.BasketSizing
import EventMarket.Session.BasketScreen
import EventMarket.Session.ReplayObserver
import Mathlib.Data.Fintype.Basic

/-!
# Observing the baskets

The observation sizes every basket whose markets are updated and keeps, for each basket, a status
with the time spent in it and the episodes during which its quote is positive. The policy is valid
until a wall clock time, which is mapped to a deadline of the monotonic clock.

## Main definitions

* `BasketStatus`, `ObservedBasket`, `Observation`: the state.
* `Observation.evaluate`: sizing one basket.
* `Observation.before`, `Observation.after`, `Observation.finish`: the calls of the observer.
-/

namespace EventMarket.Session

open Core Foundations Book Market

/-! ### The state -/

inductive BasketStatus where
  | unavailable
  | crossed
  | expired
  | noDepth
  | unfunded
  | nonpositive
  | positive
  deriving DecidableEq, Repr

instance : Fintype BasketStatus where
  elems := {.unavailable, .crossed, .expired, .noDepth, .unfunded, .nonpositive, .positive}
  complete status := by cases status <;> decide

def BasketStatus.text : BasketStatus → String
  | unavailable => "stream_or_book_unavailable"
  | crossed => "crossed_book"
  | expired => "policy_expired"
  | noDepth => "no_depth"
  | unfunded => "insufficient_cash"
  | nonpositive => "no_positive_margin"
  | positive => "positive_conditional_quote"

/-- The asks (`0`) and the bids (`1`) of a market as buy levels, up to the cap. -/
structure CachedMarket where
  depth : Fin 2 → List BuyLevel := fun _ => []
  available : Fin 2 → ℕ := fun _ => 0
  lastUpdate : ℤ := 0
  valid : Bool := false
  crossed : Bool := false

/-- A quote with the ages of the books it was made from. -/
structure Witness where
  quote : SizedBasket
  time : ℤ
  maximumBookAge : ℤ
  bookUpdateSkew : ℤ
  available : Fin 3 → ℕ

structure ObservedBasket where
  status : BasketStatus := .unavailable
  counts : BasketStatus → ℕ := fun _ => 0
  durations : BasketStatus → ℕ := fun _ => 0
  statusSince : ℤ := 0
  openedAt : ℤ := 0
  episodeMinMargin : ℤ := 0
  evaluations : ℕ := 0
  quantities : ℕ := 0
  episodes : ℕ := 0
  closedEpisodes : ℕ := 0
  leftCensored : ℕ := 0
  rightCensored : ℕ := 0
  episodeEvaluations : ℕ := 0
  eligibleBefore : Bool := false
  active : Bool := false
  openingLeftCensored : Bool := false
  bestOne : Option Witness := none
  episodePeak : Option Witness := none

/-- What the handler is told when an episode opens. -/
structure BasketEpisode where
  basketId : ℕ
  episode : ℕ
  timeNs : ℤ
  quote : SizedBasket
  leftCensored : Bool

/-- The rows written about episodes. -/
inductive EpisodeEvent (policy : BasketPolicy) where
  | opened (index : Fin policy.screen.baskets.length) (episode : ℕ) (time : ℤ)
      (leftCensored : Bool) (quote : Witness)
  | closed (index : Fin policy.screen.baskets.length) (episode : ℕ) (time openedAt : ℤ)
      (reason : String) (rightCensored leftCensored : Bool) (evaluations : ℕ)
      (minimumNetMargin : ℤ) (peakQuote : Option Witness)

/-- The state of the observation. The signals are those handed to the handler since it last took
them. -/
structure Observation (policy : BasketPolicy) where
  markets : MarketId → CachedMarket := fun _ => {}
  baskets : Fin policy.screen.baskets.length → ObservedBasket := fun _ => {}
  records : ℕ := 0
  bookUpdates : ℕ := 0
  trades : ℕ := 0
  evaluations : ℕ := 0
  quantities : ℕ := 0
  events : List (EpisodeEvent policy) := []
  signals : List BasketEpisode := []
  active : ℕ := 0
  maximumActive : ℕ := 0
  positiveUnion : ℕ := 0
  unionSince : ℤ := 0
  firstTime : Option ℤ := none
  lastTime : Option ℤ := none
  deadline : Option ℤ := none
  generation : Option ℕ := none
  expired : Bool := false
  finished : Bool := false

namespace Observation

variable {policy : BasketPolicy}

def setMarket (self : Observation policy) (marketId : MarketId) (cache : CachedMarket) :
    Observation policy :=
  { self with markets := Function.update self.markets marketId cache }

def setBasket (self : Observation policy) (index : Fin policy.screen.baskets.length)
    (basket : ObservedBasket) : Observation policy :=
  { self with baskets := Function.update self.baskets index basket }

/-! ### The accounts of time -/

def accountTime (self : Observation policy) (index : Fin policy.screen.baskets.length)
    (time : ℤ) : Except StudyException (Observation policy) :=
  let basket := self.baskets index
  if self.firstTime.isNone then .ok self
  else if time < basket.statusSince then invalid "basket interval clock regression"
  else
    .ok (self.setBasket index { basket with
      durations := Function.update basket.durations basket.status
        (basket.durations basket.status + (time - basket.statusSince).toNat)
      statusSince := time })

def setStatus (self : Observation policy) (index : Fin policy.screen.baskets.length)
    (value : BasketStatus) (time : ℤ) : Except StudyException (Observation policy) := do
  let self ← self.accountTime index time
  let basket := self.baskets index
  .ok (self.setBasket index { basket with
    status := value
    counts := Function.update basket.counts value (basket.counts value + 1) })

def accountUnion (self : Observation policy) (time : ℤ) :
    Except StudyException (Observation policy) :=
  if self.firstTime.isNone then .ok self
  else if time < self.unionSince then invalid "basket union clock regression"
  else
    .ok { self with
      positiveUnion := if self.active ≠ 0 then self.positiveUnion + (time - self.unionSince).toNat
        else self.positiveUnion
      unionSince := time }

/-! ### Episodes -/

/-- Write a row, within the budget. -/
def event (self : Observation policy) (row : EpisodeEvent policy) :
    Except StudyException (Observation policy) :=
  if self.events.length = policy.maximumEvents then
    invalid "basket episode event budget exceeded"
  else .ok { self with events := self.events ++ [row] }

def close (self : Observation policy) (index : Fin policy.screen.baskets.length) (time : ℤ)
    (reason : String) (censored : Bool) : Except StudyException (Observation policy) :=
  let basket := self.baskets index
  if !basket.active then .ok self
  else do
    let self ← self.event (.closed index basket.episodes time basket.openedAt reason censored
      basket.openingLeftCensored basket.episodeEvaluations basket.episodeMinMargin
      basket.episodePeak)
    let self ← self.accountUnion time
    .ok ({ self with active := self.active - 1 }.setBasket index { basket with
      active := false
      closedEpisodes := basket.closedEpisodes + 1
      rightCensored := if censored then basket.rightCensored + 1 else basket.rightCensored })

/-- Open an episode unless one is open, and tell the handler. -/
def openEpisode (self : Observation policy) (index : Fin policy.screen.baskets.length) (time : ℤ)
    (value : Witness) : Except StudyException (Observation policy) :=
  let basket := self.baskets index
  if basket.active then .ok self
  else do
    let self ← self.accountUnion time
    let episode := basket.episodes + 1
    let leftCensored := !basket.eligibleBefore
    let self := { self with active := self.active + 1 }.setBasket index { basket with
      active := true
      episodes := episode
      openedAt := time
      openingLeftCensored := leftCensored
      leftCensored := if leftCensored then basket.leftCensored + 1 else basket.leftCensored
      episodeEvaluations := 0
      episodePeak := some value
      episodeMinMargin := value.quote.netMarginMicro }
    let self ← self.event (.opened index episode time leftCensored value)
    let signal : BasketEpisode :=
      { basketId := (policy.screen.basket index).id, episode, timeNs := time, quote := value.quote,
        leftCensored }
    .ok { self with signals := self.signals ++ [signal] }

def unavailable (self : Observation policy) (index : Fin policy.screen.baskets.length) (time : ℤ)
    (reason : BasketStatus) : Except StudyException (Observation policy) := do
  let self ← self.close index time reason.text true
  let self ← self.setStatus index reason time
  .ok (self.setBasket index { self.baskets index with eligibleBefore := false })

/-- The baskets of a list become unavailable, one after the other. -/
def allUnavailable (self : Observation policy) (indexes : List (Fin policy.screen.baskets.length))
    (time : ℤ) (reason : BasketStatus) : Except StudyException (Observation policy) :=
  indexes.foldlM (fun self index => self.unavailable index time reason) self

def expire (self : Observation policy) (time : ℤ) : Except StudyException (Observation policy) :=
  { self with expired := true, deadline := none }.allUnavailable (List.finRange _) time .expired

/-! ### Sizing -/

/-- The side of a leg: a YES is bought from the asks, a NO from the bids. -/
def sideOf (leg : Fin 3) : Fin 2 := if leg = 0 then 0 else 1

/-- The levels of a side as buy levels until the cap is reached, after what was taken before. -/
def takeDepth (cap : ℕ) (side : Fin 2) : List Level → List BuyLevel × ℕ → List BuyLevel × ℕ
  | [], taken => taken
  | level :: levels, (depth, available) =>
    let take : Quantity := ⟨min level.quantity.raw (cap - available),
      (Nat.min_le_left _ _).trans level.quantity.le_max⟩
    let taken := if 0 < take.raw then
        (depth ++ [⟨if side = 0 then level.price else level.price.complement, take⟩],
          available + take.raw)
      else (depth, available)
    if taken.2 < cap then takeDepth cap side levels taken else taken

/-- Whether the best bid of a book is above its best ask. -/
def crossedBook (book : OrderBook) : Bool :=
  match book.bestBid, book.bestAsk with
  | some bid, some ask => decide (ask.raw < bid.raw)
  | _, _ => false

/-- The book of a market, if it is valid. -/
def validBook (state : MarketState) (marketId : MarketId) : Option OrderBook :=
  (state.findBook marketId).filter fun book => decide (book.state = .valid)

def updateCache (self : Observation policy) (marketId : MarketId) (time : ℤ)
    (state : MarketState) : Observation policy :=
  let cache := self.markets marketId
  let book := validBook state marketId
  let crossed := book.any crossedBook
  let taken (side : Fin 2) : List BuyLevel × ℕ :=
    if !policy.screen.needed marketId side then (cache.depth side, cache.available side)
    else if crossed then ([], 0)
    else
      match book with
      | none => ([], 0)
      | some book =>
        takeDepth policy.screen.limits.cap.raw side
          (book.visibleLevels (if side = 0 then .ask else .bid)) ([], 0)
  self.setMarket marketId
    { depth := fun side => (taken side).1, available := fun side => (taken side).2,
      lastUpdate := time, valid := book.isSome, crossed }

def witness (self : Observation policy) (quote : SizedBasket)
    (index : Fin policy.screen.baskets.length) (time : ℤ) : Witness :=
  let cache (leg : Fin 3) := self.markets ((policy.screen.basket index).markets leg)
  let updates := (List.finRange 3).map fun leg => (cache leg).lastUpdate
  let oldest := updates.foldl min time
  let newest := updates.foldl max 0
  { quote, time, maximumBookAge := time - oldest, bookUpdateSkew := newest - oldest,
    available := fun leg => (cache leg).available (sideOf leg) }

/-- The status of the first market of a basket that cannot be used. -/
def obstacle (self : Observation policy) (index : Fin policy.screen.baskets.length) :
    Option BasketStatus :=
  (List.finRange 3).findSome? fun leg =>
    let cache := self.markets ((policy.screen.basket index).markets leg)
    if !cache.valid then some .unavailable else if cache.crossed then some .crossed else none

/-- The ladders of a basket with their fees. -/
def depthOf (self : Observation policy) (index : Fin policy.screen.baskets.length) (leg : Fin 3) :
    BuyDepth :=
  let marketId := (policy.screen.basket index).markets leg
  { levels := (self.markets marketId).depth (sideOf leg), fees := policy.screen.fee marketId }

/-- The status of a basket by the result of its sizing. -/
def classify (result : BasketSizingResult) : BasketStatus :=
  if result.quote.isSome then .positive
  else if result.status = .noDepth then .noDepth
  else if result.status = .insufficientCash then .unfunded
  else .nonpositive

/-- Keep the best quote for one contract. -/
def noteDiagnostic (self : Observation policy) (index : Fin policy.screen.baskets.length)
    (diagnostic : Option SizedBasket) (time : ℤ) : Observation policy :=
  let basket := self.baskets index
  match diagnostic with
  | none => self
  | some quote =>
    if basket.bestOne.all fun best => decide (best.quote.netMarginMicro < quote.netMarginMicro) then
      self.setBasket index { basket with bestOne := some (self.witness quote index time) }
    else self

/-- Count an evaluation of the open episode. -/
def noteEpisode (self : Observation policy) (index : Fin policy.screen.baskets.length)
    (value : Witness) : Observation policy :=
  let basket := self.baskets index
  self.setBasket index { basket with
    episodeEvaluations := basket.episodeEvaluations + 1
    episodeMinMargin := min basket.episodeMinMargin value.quote.netMarginMicro
    episodePeak :=
      if basket.episodePeak.any fun peak =>
          decide (peak.quote.netMarginMicro < value.quote.netMarginMicro) then some value
      else basket.episodePeak }

/-- Open, continue or close the episode of a basket by its quote. -/
def applyQuote (self : Observation policy) (index : Fin policy.screen.baskets.length) (time : ℤ)
    (result : BasketSizingResult) : Except StudyException (Observation policy) :=
  match result.quote with
  | none => self.close index time (classify result).text false
  | some quote => do
    let value := self.witness quote index time
    let self ← self.openEpisode index time value
    .ok (self.noteEpisode index value)

/-- Count the quantities that were evaluated. -/
def noteQuantities (self : Observation policy) (index : Fin policy.screen.baskets.length)
    (quantities : ℕ) : Observation policy :=
  let basket := self.baskets index
  { self with quantities := self.quantities + quantities }.setBasket index
    { basket with quantities := basket.quantities + quantities }

/-- The result of a sizing takes effect, unless the sizing did not come to an end. -/
def applySizing (self : Observation policy) (index : Fin policy.screen.baskets.length) (time : ℤ)
    (result : BasketSizingResult) : Except StudyException (Observation policy) :=
  let self := self.noteQuantities index result.evaluatedQuantities
  if result.status = .searchBudgetExceeded ∨ result.status = .invalidInput ∨
      result.status = .arithmeticError then invalid "basket sizing incomplete or invalid"
  else do
    let self := self.noteDiagnostic index result.oneContractDiagnostic time
    let self ← self.applyQuote index time result
    let self ← self.setStatus index (classify result) time
    .ok (self.setBasket index { self.baskets index with eligibleBefore := true })

/-- Count an evaluation. -/
def noteEvaluation (self : Observation policy) (index : Fin policy.screen.baskets.length) :
    Observation policy :=
  let basket := self.baskets index
  { self with evaluations := self.evaluations + 1 }.setBasket index
    { basket with evaluations := basket.evaluations + 1 }

/-- Size a basket within the budget of the update; what is left of the budget. -/
def evaluate (state : Observation policy × ℕ) (index : Fin policy.screen.baskets.length)
    (time : ℤ) : Except StudyException (Observation policy × ℕ) :=
  let (self, budget) := state
  let self := self.noteEvaluation index
  match self.obstacle index with
  | some reason => (self.unavailable index time reason).map fun self => (self, budget)
  | none =>
    if budget = 0 then invalid "basket update evaluation budget exceeded"
    else
      let bounded := { policy.screen.limits with
        maxEvaluations := min budget policy.screen.limits.maxEvaluations }
      let result := sizeBuyBasket (self.depthOf index) bounded
      (self.applySizing index time result).map fun self =>
        (self, budget - result.evaluatedQuantities)

/-! ### The calls of the observer -/

def before (self : Observation policy) (time : ℤ) : Except StudyException (Observation policy) :=
  if time < 0 ∨ self.lastTime.any (fun last => decide (time < last)) then
    invalid "basket observation clock regression"
  else
    match self.deadline with
    | some deadline =>
      if deadline ≤ time ∧ self.expired = false then self.expire deadline else .ok self
    | none => .ok self

/-- Note the time of a frame; the accounts start with the first one. -/
def enter (self : Observation policy) (frame : ReplayFrame) : Observation policy :=
  let self := if self.firstTime.isSome then self
    else { self with
      firstTime := some frame.timeNs
      unionSince := frame.timeNs
      baskets := fun index => { self.baskets index with statusSince := frame.timeNs } }
  { self with
    lastTime := some frame.timeNs
    records := self.records + 1
    trades := if frame.trade.isSome then self.trades + 1 else self.trades }

/-- Map the end of the policy to the clock of the frames. A wall clock that is corrected backwards
never extends the deadline. -/
def bindDeadline (self : Observation policy) (time wall : ℤ) :
    Except StudyException (Observation policy) :=
  if self.expired then .ok self
  else if policy.validUntil ≤ wall then self.expire time
  else
    let remaining := policy.validUntil - wall
    if (int64Max : ℤ) - remaining < time then invalid "basket deadline overflow"
    else
      let mapped := time + remaining
      .ok { self with deadline := some (match self.deadline with
        | none => mapped
        | some deadline => min deadline mapped) }

/-- A new connection, or none, makes every market and basket unavailable. -/
def bindGeneration (self : Observation policy) (time : ℤ) (state : MarketState) :
    Except StudyException (Observation policy) :=
  if !state.connected ∨ state.connectionGeneration ≠ self.generation then
    { self with
      generation := state.connectionGeneration
      markets := fun marketId => { self.markets marketId with valid := false } }.allUnavailable
      (List.finRange _) time .unavailable
  else .ok self

/-- An update of a market that could not be applied. -/
def rejectUpdate (self : Observation policy) (time : ℤ) (marketId : MarketId)
    (state : MarketState) : Except StudyException (Observation policy) :=
  if (validBook state marketId).isNone then
    (self.setMarket marketId { self.markets marketId with valid := false }).allUnavailable
      (policy.screen.dependencies marketId) time .unavailable
  else .ok self

/-- An update of a market evaluates the baskets that depend on it. They all see the same update,
so the largest number of active baskets is taken only after the last one. -/
def applyUpdate (self : Observation policy) (time : ℤ) (marketId : MarketId)
    (state : MarketState) : Except StudyException (Observation policy) := do
  let self := self.updateCache marketId time state
  let self := { self with bookUpdates := self.bookUpdates + 1 }
  let (self, _) ← (policy.screen.dependencies marketId).foldlM
    (fun state index => evaluate state index time) (self, policy.screen.totalBudget)
  .ok { self with maximumActive := max self.maximumActive self.active }

/-- The book of a frame. -/
def bookUpdate (self : Observation policy) (frame : ReplayFrame) (state : MarketState) :
    Except StudyException (Observation policy) :=
  if !state.connected then .ok self
  else
    match frame.marketId with
    | none => .ok self
    | some marketId =>
      if marketId ∉ policy.screen.marketIds then invalid "basket update outside frozen cohort"
      else if !frame.applied then self.rejectUpdate frame.timeNs marketId state
      else self.applyUpdate frame.timeNs marketId state

def after (self : Observation policy) (frame : ReplayFrame) (state : MarketState) :
    Except StudyException (Observation policy) := do
  let self ← self.before frame.timeNs
  match frame.observedWallNs with
  | none => invalid "basket policy wall-clock binding"
  | some wall =>
    if self.finished ∨ wall < policy.validFrom then invalid "basket policy wall-clock binding"
    else do
      let self ← (self.enter frame).bindDeadline frame.timeNs wall
      if self.expired then .ok self
      else do
        let self ← self.bindGeneration frame.timeNs state
        self.bookUpdate frame state

/-- The last charge of a basket. -/
def finishBasket (time : ℤ) (self : Observation policy)
    (index : Fin policy.screen.baskets.length) : Except StudyException (Observation policy) := do
  let self ← self.close index time "observation_end" true
  self.accountTime index time

def finish (self : Observation policy) (time : ℤ) : Except StudyException (Observation policy) :=
  if self.finished then .ok self
  else do
    let self ← self.before time
    let self ← (List.finRange _).foldlM (finishBasket time) self
    let self ← self.accountUnion time
    .ok { self with lastTime := some time, finished := true }

/-- One call of the observer. -/
def step (self : Observation policy) : ObserverCall → Except StudyException (Observation policy)
  | .before time _ => self.before time
  | .after frame state => self.after frame state

end Observation

end EventMarket.Session
