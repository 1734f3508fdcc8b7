import EventMarket.Scripts.PublicPool

/-!
# The byte bound of the public pool

The check of the budget and the read after it are not one step, so a worker may overshoot. But it
overshoots once: what it was allowed is outstanding until it is accounted or dropped, nothing is
allowed any more when the budget is exhausted, and no more workers than the semaphore admits can
have an allowance. The decoded bytes and the outstanding allowances together stay bounded.

## Main definitions

* `PoolPosition.granted`, `PoolPosition.outstanding`: what a thread was allowed and has not
  accounted.
* `PoolStep`: everything that a step of a thread can do.
* `PublicPool.Inv`: the invariant of a pool.

## Main results

* `PublicPool.act_step`: a thread does nothing else.
* `PublicPool.Inv.step`: the invariant of a pool is kept.
* `PublicPool.Spent.step`: what an exhausted pool allows.
* `pool_byte_bound`: the bound over every run.
-/

namespace EventMarket.Scripts

open Foundations

/-! ### What a thread holds -/

/-- The allowance of a read that is not accounted yet. -/
def PoolPosition.granted : PoolPosition → Option ℕ
  | .reading _ _ allowance => some allowance
  | .accounting _ _ allowance _ => some allowance
  | _ => none

/-- The bytes that a thread may still account. -/
def PoolPosition.outstanding : PoolPosition → ℕ
  | .reading _ _ allowance => allowance
  | .accounting _ _ _ chunk => chunk.length
  | _ => 0

/-- A thread is inside of the semaphore. -/
def PoolPosition.active : PoolPosition → ℕ
  | .idle => 0
  | .waiting _ => 0
  | _ => 1

/-- What was accounted of a response so far. -/
def PoolPosition.collected : PoolPosition → Option (List UInt8)
  | .checking _ body => some body
  | .reading _ body _ => some body
  | .finishing _ body => some body
  | .leaving (.ok response) => some response.body
  | _ => none

/-- The thread of an event. -/
def PoolEvent.thread : PoolEvent → ℕ
  | .passed index => index
  | .accounted index _ _ => index
  | .finished index _ => index

/-! ### What a step does -/

/-- The moves of a thread that touch no shared variable. They grant nothing, and keep or drop what
was collected, or begin with nothing. -/
inductive PoolMove : PoolPosition → PoolPosition → Prop
  | call (host : String) : PoolMove .idle (.waiting host)
  | fails {old : PoolPosition} (error : String) (hactive : old.active = 1) :
      PoolMove old (.leaving (.error error))
  | retries {old : PoolPosition} (host : String) (retry : ℕ) (hactive : old.active = 1) :
      PoolMove old (.pacing host retry)
  | responds {host : String} {retry : ℕ} (request : PoolRequest) :
      PoolMove (.requesting host retry) (.checking request [])
  | completes {old : PoolPosition} {body : List UInt8} (request : PoolRequest)
      (hactive : old.active = 1) (hbody : old.collected = some body) :
      PoolMove old (.finishing request body)
  | returns {request : PoolRequest} {body : List UInt8} (status : ℕ) (retryAfter : Option ℚ) :
      PoolMove (.finishing request body) (.leaving (.ok ⟨body, status, retryAfter⟩))

/-- Everything that a step of a thread can do to the pool. -/
inductive PoolStep (limits : PoolLimits) (pool : PublicPool) (index : ℕ) (old : PoolPosition) :
    PublicPool → Prop
  | unchanged : PoolStep limits pool index old pool
  | moved {next : PoolWorker} (hmove : PoolMove old next.position) :
      PoolStep limits pool index old (pool.place index next)
  | acquired {next : PoolWorker} {host : String} (hold : old = .waiting host)
      (hpermits : 0 < pool.permits) (hnext : next.position = .pacing host 0) :
      PoolStep limits pool index old
        ({ pool with permits := pool.permits - 1 }.place index next)
  | passed {next : PoolWorker} {host : String} {retry : ℕ} (hold : old = .pacing host retry)
      (hleft : pool.byteBudgetExhausted = false) (hnext : next.position = .requesting host retry) :
      PoolStep limits pool index old ((pool.log (.passed index)).place index next)
  | granted {next : PoolWorker} {request : PoolRequest} {body : List UInt8}
      (hold : old = .checking request body) (hleft : pool.byteBudgetExhausted = false)
      (hnext : next.position = .reading request body (pool.allowance limits body)) :
      PoolStep limits pool index old (pool.place index next)
  | took {next : PoolWorker} {request : PoolRequest} {body chunk : List UInt8} {allowance : ℕ}
      (hold : old = .reading request body allowance) (hle : chunk.length ≤ allowance)
      (hnext : next.position = .accounting request (body ++ chunk) allowance chunk) :
      PoolStep limits pool index old (pool.place index next)
  | accounted {next : PoolWorker} {request : PoolRequest} {body chunk : List UInt8} {allowance : ℕ}
      (hold : old = .accounting request body allowance chunk)
      (hnext : pool.decodedBytes + chunk.length ≤ limits.maxDecodedBytes ∧
          next.position = .checking request body ∨
        ∃ error, next.position = .leaving (.error error)) :
      PoolStep limits pool index old
        (({ pool with
            decodedBytes := pool.decodedBytes + chunk.length
            byteBudgetExhausted := pool.byteBudgetExhausted ||
              decide (limits.maxDecodedBytes ≤ pool.decodedBytes + chunk.length) } : PublicPool).log
          (.accounted index chunk (pool.decodedBytes + chunk.length)) |>.place index next)
  | released {next : PoolWorker} {result : PoolResult} (hold : old = .leaving result)
      (hnext : next.position = .idle) :
      PoolStep limits pool index old
        (({ pool with permits := pool.permits + 1 } : PublicPool).log (.finished index result)
          |>.place index next)

namespace PublicPool

variable {limits : PoolLimits} {pool next : PublicPool} {index : ℕ} {worker : PoolWorker}

/-- What is available is neither closed nor exhausted. -/
theorem unavailable_eq_none (h : pool.unavailable = none) : pool.byteBudgetExhausted = false := by
  unfold unavailable at h
  split at h
  · exact nomatch h
  split at h
  · exact nomatch h
  · next hleft => exact Bool.eq_false_of_not_eq_true hleft

theorem step_raise {old : PoolPosition} (hactive : old.active = 1) (host error : String) :
    PoolStep limits pool index old (pool.raise index worker host error) :=
  .moved (.fails error hactive)

theorem step_transportFailed {old : PoolPosition} (hactive : old.active = 1) (host : String)
    (retry : ℕ) (reused expired : Bool) :
    PoolStep limits pool index old
      (pool.transportFailed index worker host retry reused expired) := by
  unfold transportFailed
  split
  · exact step_raise hactive host _
  split
  · exact step_raise hactive host _
  · exact .moved (.retries host (retry + 1) hactive)

theorem step_pace {host : String} {retry : ℕ} (ready : Bool) :
    PoolStep limits pool index (.pacing host retry) (pool.pace index worker host retry ready) := by
  unfold pace
  split
  · next error _ => exact .moved (.fails error rfl)
  · next hleft =>
    split
    · exact .passed rfl (unavailable_eq_none hleft) rfl
    · exact .unchanged

theorem step_respond {host : String} {retry : ℕ} (headers : ResponseHeaders) :
    PoolStep limits pool index (.requesting host retry)
      (pool.respond index worker host retry headers) := by
  unfold respond
  dsimp only
  split
  · exact step_raise rfl host _
  split
  · exact step_raise rfl host _
  · exact .moved (.responds _)

theorem step_check (request : PoolRequest) (body : List UInt8) :
    PoolStep limits pool index (.checking request body)
      (pool.check limits index worker request body) := by
  unfold check
  split
  · exact .moved (.completes request rfl rfl)
  split
  · exact step_raise rfl request.host _
  · next hleft => exact .granted rfl (unavailable_eq_none hleft) rfl

theorem step_read (request : PoolRequest) (body : List UInt8) (allowance : ℕ)
    (chunk : List UInt8) :
    PoolStep limits pool index (.reading request body allowance)
      (pool.read index worker request body allowance chunk) := by
  unfold read
  split
  · exact .unchanged
  · next hle =>
    split
    · exact .moved (.completes request rfl rfl)
    · exact .took rfl (not_lt.mp hle) rfl

theorem step_account (request : PoolRequest) (body : List UInt8) (allowance : ℕ)
    (chunk : List UInt8) :
    PoolStep limits pool index (.accounting request body allowance chunk)
      (pool.account limits index worker request body chunk) := by
  unfold account
  dsimp only
  split
  · exact .accounted rfl (Or.inr ⟨_, rfl⟩)
  · next hle =>
    split
    · exact .accounted rfl (Or.inr ⟨_, rfl⟩)
    · exact .accounted rfl (Or.inl ⟨not_lt.mp hle, rfl⟩)

theorem step_finish (request : PoolRequest) (body : List UInt8) :
    PoolStep limits pool index (.finishing request body)
      (pool.finish index worker request body) := by
  unfold finish
  dsimp only
  split
  · exact step_raise rfl request.host _
  split
  · exact step_raise rfl request.host _
  · exact .moved (.returns _ _)
  · exact .moved (.returns _ _)

/-- **A thread does nothing else.** -/
theorem act_step (action : PoolAction) :
    PoolStep limits pool index worker.position (pool.act limits index worker action) := by
  unfold act
  split
  · next h => exact h ▸ .moved (.call _)
  · next h =>
    split
    · exact .unchanged
    · next hpermits => exact h ▸ .acquired rfl (Nat.pos_of_ne_zero hpermits) rfl
  · next h => exact h ▸ step_pace _
  · next h => exact h ▸ step_respond _
  · next h => exact h ▸ step_transportFailed rfl _ _ _ _
  · next h => exact h ▸ step_raise rfl _ _
  · next h => exact h ▸ step_check _ _
  · next h => exact h ▸ step_raise rfl _ _
  · next h => exact h ▸ step_read _ _ _ _
  · next h => exact h ▸ step_transportFailed rfl _ _ _ _
  · next h => exact h ▸ step_raise rfl _ _
  · next h => exact h ▸ step_account _ _ _ _
  · next h => exact h ▸ step_finish _ _
  · next h => exact h ▸ step_raise rfl _ _
  · next h => exact h ▸ .released rfl rfl
  · exact .unchanged

/-! ### The numbers -/

/-- The bytes that all threads may still account. -/
def outstanding (pool : PublicPool) : ℕ :=
  tally (fun worker : PoolWorker => worker.position.outstanding) pool.workers

/-- The threads inside of the semaphore. -/
def inside (pool : PublicPool) : ℕ :=
  tally (fun worker : PoolWorker => worker.position.active) pool.workers

/-- The invariant of the numbers: the budget is not reached while anything is left, the decoded
bytes and the outstanding allowances are bounded, and the permits count the threads inside. -/
structure Numbers (limits : PoolLimits) (pool : PublicPool) : Prop where
  left : pool.byteBudgetExhausted = false → pool.decodedBytes < limits.maxDecodedBytes
  bound : pool.decodedBytes + pool.outstanding ≤
    limits.maxDecodedBytes - 1 + limits.workers * chunkBytes
  permits : pool.permits + pool.inside = limits.workers
  small : ∀ worker ∈ pool.workers,
    worker.position.outstanding ≤ worker.position.active * chunkBytes

theorem numbers_create (limits : PoolLimits) (threads : ℕ) :
    Numbers limits (create limits threads) := by
  have hidle : ∀ worker ∈ (create limits threads).workers, worker.position = .idle :=
    fun worker hmem => by rw [List.eq_of_mem_replicate hmem]
  have houtstanding : (create limits threads).outstanding = 0 :=
    tally_eq_zero fun worker hmem => by rw [hidle worker hmem]; rfl
  have hinside : (create limits threads).inside = 0 :=
    tally_eq_zero fun worker hmem => by rw [hidle worker hmem]; rfl
  refine ⟨fun _ => limits.accepted.2.2, ?_, by rw [hinside]; rfl, fun worker hmem => ?_⟩
  · rw [houtstanding]
    exact Nat.zero_le _
  · rw [hidle worker hmem]
    exact Nat.zero_le _

/-- The sums after a thread moved. -/
theorem outstanding_place {base : PublicPool} (h : base.workers[index]? = some worker)
    (other : PoolWorker) :
    (base.place index other).outstanding + worker.position.outstanding =
        base.outstanding + other.position.outstanding ∧
      (base.place index other).inside + worker.position.active =
        base.inside + other.position.active :=
  ⟨tally_set h _ other, tally_set h _ other⟩

/-- The threads stay small when one of them moves to a small position. -/
theorem Numbers.small_place (h : Numbers limits pool) {base : PublicPool} {other : PoolWorker}
    (hworkers : base.workers = pool.workers)
    (hother : other.position.outstanding ≤ other.position.active * chunkBytes) :
    ∀ worker ∈ (base.place index other).workers,
      worker.position.outstanding ≤ worker.position.active * chunkBytes := by
  intro worker hmem
  rcases List.mem_or_eq_of_mem_set hmem with hmem | rfl
  · exact h.small worker (hworkers ▸ hmem)
  · exact hother

/-- A move grants nothing and stays inside or outside. -/
theorem move_numbers {old new : PoolPosition} (h : PoolMove old new) :
    new.outstanding = 0 ∧ new.granted = none ∧ new.active = old.active := by
  cases h with
  | call host => exact ⟨rfl, rfl, rfl⟩
  | fails error hactive => exact ⟨rfl, rfl, hactive.symm⟩
  | retries host retry hactive => exact ⟨rfl, rfl, hactive.symm⟩
  | responds request => exact ⟨rfl, rfl, rfl⟩
  | completes request hactive hbody => exact ⟨rfl, rfl, hactive.symm⟩
  | returns status retryAfter => exact ⟨rfl, rfl, rfl⟩

theorem allowance_le (limits : PoolLimits) (pool : PublicPool) (body : List UInt8) :
    pool.allowance limits body ≤ chunkBytes := Nat.min_le_left _ _

/-- What is outstanding is bounded by the threads inside. -/
theorem outstanding_le (hpermits : pool.permits + pool.inside = limits.workers)
    (hsmall : ∀ worker ∈ pool.workers,
      worker.position.outstanding ≤ worker.position.active * chunkBytes) :
    pool.outstanding ≤ limits.workers * chunkBytes := by
  refine (tally_le_mul hsmall).trans (Nat.mul_le_mul_right _ ?_)
  unfold inside at hpermits
  omega

/-- **The numbers are kept.** Only a grant adds to what is bounded, and when it does the budget is
not reached. -/
theorem Numbers.step (h : Numbers limits pool) (hworker : pool.workers[index]? = some worker)
    (hstep : PoolStep limits pool index worker.position next) : Numbers limits next := by
  have hsmall := h.small worker (List.mem_of_getElem? hworker)
  have hbound := h.bound
  have hpermits := h.permits
  cases hstep with
  | unchanged => exact h
  | moved hmove =>
    rename_i other
    obtain ⟨hzero, -, hactive⟩ := move_numbers hmove
    obtain ⟨hout, hin⟩ := outstanding_place hworker other
    refine ⟨h.left, ?_, ?_, h.small_place rfl (by rw [hzero]; exact Nat.zero_le _)⟩
    · change pool.decodedBytes + _ ≤ _
      omega
    · change pool.permits + _ = _
      omega
  | acquired hold hpositive hnext =>
    rename_i other host
    obtain ⟨hout, hin⟩ := @outstanding_place index worker
      { pool with permits := pool.permits - 1 } hworker other
    rw [hold, hnext] at hout hin
    refine ⟨h.left, ?_, ?_, h.small_place rfl (by rw [hnext]; exact Nat.zero_le _)⟩
    · exact (Nat.add_le_add_left hout.le _).trans hbound
    · change pool.permits - 1 + _ = _
      change _ + 0 = pool.inside + 1 at hin
      omega
  | passed hold hleft hnext =>
    rename_i other host retry
    obtain ⟨hout, hin⟩ := @outstanding_place index worker (pool.log (.passed index)) hworker other
    rw [hold, hnext] at hout hin
    refine ⟨h.left, (Nat.add_le_add_left hout.le _).trans hbound, ?_,
      h.small_place rfl (by rw [hnext]; exact Nat.zero_le _)⟩
    change pool.permits + _ = _
    change _ + 1 = pool.inside + 1 at hin
    omega
  | granted hold hleft hnext =>
    rename_i other request body
    obtain ⟨-, hin⟩ := outstanding_place hworker other
    rw [hold, hnext] at hin
    have hnextSmall := @Numbers.small_place limits pool index h pool other rfl (by
      rw [hnext]
      exact (allowance_le limits pool body).trans_eq (Nat.one_mul _).symm)
    have hnextPermits : pool.permits + (pool.place index other).inside = limits.workers := by
      change _ + 1 = pool.inside + 1 at hin
      omega
    have hle := @outstanding_le limits (pool.place index other) hnextPermits hnextSmall
    have hlt := h.left hleft
    refine ⟨h.left, ?_, hnextPermits, hnextSmall⟩
    change pool.decodedBytes + _ ≤ _
    omega
  | took hold hle hnext =>
    rename_i other request body chunk allowance
    obtain ⟨hout, hin⟩ := outstanding_place hworker other
    rw [hold] at hsmall
    rw [hold, hnext] at hout hin
    change _ + allowance = pool.outstanding + chunk.length at hout
    refine ⟨h.left, ?_, ?_, h.small_place rfl (by rw [hnext]; exact hle.trans hsmall)⟩
    · change pool.decodedBytes + _ ≤ _
      omega
    · change pool.permits + _ = _
      change _ + 1 = pool.inside + 1 at hin
      omega
  | accounted hold hnext =>
    rename_i other request body chunk allowance
    set total := pool.decodedBytes + chunk.length with htotal
    have hposition : other.position.outstanding = 0 ∧ other.position.active = 1 := by
      rcases hnext with ⟨-, hnext⟩ | ⟨error, hnext⟩
      · rw [hnext]
        exact ⟨rfl, rfl⟩
      · rw [hnext]
        exact ⟨rfl, rfl⟩
    obtain ⟨hout, hin⟩ := outstanding_place hworker other
    rw [hold, hposition.1] at hout
    rw [hold, hposition.2] at hin
    change _ + chunk.length = pool.outstanding + 0 at hout
    refine ⟨fun hleft => ?_, ?_, ?_,
      h.small_place rfl (by rw [hposition.1]; exact Nat.zero_le _)⟩
    · simp only [place, log, Bool.or_eq_false_iff, decide_eq_false_iff_not] at hleft
      exact not_le.mp hleft.2
    · change total + (pool.place index other).outstanding ≤ _
      omega
    · change pool.permits + (pool.place index other).inside = _
      change _ + 1 = pool.inside + 1 at hin
      omega
  | released hold hnext =>
    rename_i other result
    obtain ⟨hout, hin⟩ := outstanding_place hworker other
    rw [hold, hnext] at hout hin
    refine ⟨h.left, (Nat.add_le_add_left hout.le _).trans hbound, ?_,
      h.small_place rfl (by rw [hnext]; exact Nat.zero_le _)⟩
    change pool.permits + 1 + (pool.place index other).inside = _
    change _ + 1 = pool.inside + 0 at hin
    omega

/-! ### The history -/

/-- The bytes that were accounted. -/
def accountedBytes (events : List PoolEvent) : ℕ :=
  tally (fun
    | .accounted _ chunk _ => chunk.length
    | _ => 0) events

/-- The chunks of a thread since its last request passed the gate, with the decoded bytes after
each of them. -/
def collect (index : ℕ) (chunks : List (List UInt8 × ℕ)) : PoolEvent → List (List UInt8 × ℕ)
  | .passed other => if other = index then [] else chunks
  | .accounted other chunk total => if other = index then chunks ++ [(chunk, total)] else chunks
  | .finished _ _ => chunks

def chunksOf (index : ℕ) (events : List PoolEvent) : List (List UInt8 × ℕ) :=
  events.foldl (collect index) []

theorem chunksOf_append (index : ℕ) (events : List PoolEvent) (event : PoolEvent) :
    chunksOf index (events ++ [event]) = collect index (chunksOf index events) event := by
  rw [chunksOf, List.foldl_append]
  rfl

/-- A body is made of chunks after each of which the decoded bytes were within the budget. -/
def Whole (limits : PoolLimits) (chunks : List (List UInt8 × ℕ)) (body : List UInt8) : Prop :=
  body = (chunks.map Prod.fst).flatten ∧ ∀ chunk ∈ chunks, chunk.2 ≤ limits.maxDecodedBytes

theorem whole_nil (limits : PoolLimits) : Whole limits [] [] := ⟨rfl, nofun⟩

theorem Whole.append {chunks : List (List UInt8 × ℕ)} {body : List UInt8}
    (h : Whole limits chunks body) {chunk : List UInt8} {total : ℕ}
    (hle : total ≤ limits.maxDecodedBytes) :
    Whole limits (chunks ++ [(chunk, total)]) (body ++ chunk) := by
  refine ⟨?_, fun other hmem => ?_⟩
  · rw [h.1, List.map_append, List.flatten_append]
    simp
  · rcases List.mem_append.mp hmem with hmem | hmem
    · exact h.2 other hmem
    · rw [List.mem_singleton.mp hmem]
      exact hle

/-- What a thread has collected is what was accounted for it. -/
structure Holds (limits : PoolLimits) (chunks : List (List UInt8 × ℕ)) (position : PoolPosition) :
    Prop where
  fresh : ∀ host retry, position = .requesting host retry → chunks = []
  whole : ∀ body, position.collected = some body → Whole limits chunks body
  last : ∀ request body allowance chunk, position = .accounting request body allowance chunk →
    chunk.length ≤ allowance ∧ ∃ before, Whole limits chunks before ∧ body = before ++ chunk

/-- The invariant of the history. -/
structure History (limits : PoolLimits) (pool : PublicPool) : Prop where
  total : pool.decodedBytes = accountedBytes pool.events
  holds : ∀ index worker, pool.workers[index]? = some worker →
    Holds limits (chunksOf index pool.events) worker.position
  returned : ∀ before index response after,
    pool.events = before ++ .finished index (.ok response) :: after →
      Whole limits (chunksOf index before) response.body

/-- What a move keeps of the collected chunks. -/
theorem Holds.move {chunks : List (List UInt8 × ℕ)} {old new : PoolPosition}
    (h : Holds limits chunks old) (hmove : PoolMove old new) : Holds limits chunks new := by
  cases hmove with
  | call host => exact ⟨nofun, nofun, nofun⟩
  | fails error hactive => exact ⟨nofun, nofun, nofun⟩
  | retries host retry hactive => exact ⟨nofun, nofun, nofun⟩
  | responds request =>
    refine ⟨nofun, fun body hbody => ?_, nofun⟩
    rw [h.fresh _ _ rfl, ← Option.some.inj hbody]
    exact whole_nil limits
  | completes request hactive hbody =>
    exact ⟨nofun, fun body heq => h.whole body (hbody.trans heq), nofun⟩
  | returns status retryAfter => exact ⟨nofun, fun body heq => h.whole body heq, nofun⟩

/-- The thread that moved, or another one. -/
theorem place_cases {base : PublicPool} {other found : PoolWorker} {i : ℕ}
    (h : (base.place index other).workers[i]? = some found) :
    i = index ∧ found = other ∨ i ≠ index ∧ base.workers[i]? = some found := by
  change (base.workers.set index other)[i]? = some found at h
  rw [List.getElem?_set] at h
  by_cases hsame : index = i
  · rw [if_pos hsame] at h
    split at h
    · exact Or.inl ⟨hsame.symm, (Option.some.inj h).symm⟩
    · exact nomatch h
  · rw [if_neg hsame] at h
    exact Or.inr ⟨Ne.symm hsame, h⟩

theorem History.place (h : History limits pool) {other : PoolWorker} {base : PublicPool}
    (hworkers : base.workers = pool.workers) (hevents : base.events = pool.events)
    (htotal : base.decodedBytes = pool.decodedBytes)
    (hother : Holds limits (chunksOf index pool.events) other.position) :
    History limits (base.place index other) := by
  refine ⟨htotal.trans (h.total.trans (by rw [← hevents]; rfl)), fun i found hfound => ?_, ?_⟩
  · change Holds limits (chunksOf i base.events) _
    rw [hevents]
    rcases place_cases hfound with ⟨rfl, rfl⟩ | ⟨-, hold⟩
    · exact hother
    · exact h.holds i found (hworkers ▸ hold)
  · intro before i response after heq
    exact h.returned before i response after (hevents.symm.trans heq)

theorem collect_of_ne {i : ℕ} {event : PoolEvent} (h : event.thread ≠ i)
    (chunks : List (List UInt8 × ℕ)) : collect i chunks event = chunks := by
  cases event with
  | passed other => exact if_neg h
  | accounted other chunk total => exact if_neg h
  | finished other result => rfl

/-- A step that is recorded with one event. -/
theorem History.record (h : History limits pool) {other : PoolWorker} {base : PublicPool}
    {event : PoolEvent} (hworkers : base.workers = pool.workers)
    (hevents : base.events = pool.events ++ [event]) (hindex : event.thread = index)
    (htotal : base.decodedBytes = pool.decodedBytes + accountedBytes [event])
    (hother : Holds limits (collect index (chunksOf index pool.events) event) other.position)
    (hreturned : ∀ i response, event = .finished i (.ok response) →
      Whole limits (chunksOf i pool.events) response.body) :
    History limits (base.place index other) := by
  refine ⟨?_, fun i found hfound => ?_, fun before i response after heq => ?_⟩
  · change base.decodedBytes = accountedBytes base.events
    rw [htotal, hevents, h.total]
    exact (tally_append _ _ _).symm
  · change Holds limits (chunksOf i base.events) _
    rw [hevents, chunksOf_append]
    rcases place_cases hfound with ⟨rfl, rfl⟩ | ⟨hne, hold⟩
    · exact hother
    · rw [collect_of_ne (hindex ▸ Ne.symm hne)]
      exact h.holds i found (hworkers ▸ hold)
  · change base.events = _ at heq
    rw [hevents] at heq
    rcases List.eq_nil_or_concat after with rfl | ⟨rest, last, rfl⟩
    · obtain ⟨rfl, hlast⟩ := List.append_inj' heq rfl
      exact hreturned i response (List.cons.inj hlast).1
    · rw [List.concat_eq_append, ← List.cons_append, ← List.append_assoc] at heq
      obtain ⟨hbefore, -⟩ := List.append_inj' heq rfl
      exact h.returned before i response rest hbefore

/-- **The history is kept.** -/
theorem History.step (h : History limits pool) (hworker : pool.workers[index]? = some worker)
    (hstep : PoolStep limits pool index worker.position next) : History limits next := by
  have hholds := h.holds index worker hworker
  cases hstep with
  | unchanged => exact h
  | moved hmove => exact h.place rfl rfl rfl (hholds.move hmove)
  | acquired hold hpositive hnext =>
    refine h.place rfl rfl rfl ?_
    rw [hnext]
    exact ⟨nofun, nofun, nofun⟩
  | passed hold hleft hnext =>
    refine h.record rfl rfl rfl rfl ?_ nofun
    rw [hnext]
    exact ⟨fun _ _ _ => if_pos rfl, nofun, nofun⟩
  | granted hold hleft hnext =>
    refine h.place rfl rfl rfl ?_
    rw [hold] at hholds
    rw [hnext]
    exact ⟨nofun, fun body heq => hholds.whole body heq, nofun⟩
  | took hold hle hnext =>
    refine h.place rfl rfl rfl ?_
    rw [hold] at hholds
    rw [hnext]
    refine ⟨nofun, nofun, ?_⟩
    rintro _ _ _ _ ⟨⟩
    exact ⟨hle, _, hholds.whole _ rfl, rfl⟩
  | accounted hold hnext =>
    rename_i other request body chunk allowance
    refine h.record rfl rfl rfl rfl ?_ nofun
    rw [hold] at hholds
    obtain ⟨-, before, hwhole, rfl⟩ := hholds.last _ _ _ _ rfl
    rcases hnext with ⟨hle, hnext⟩ | ⟨error, hnext⟩
    · rw [hnext]
      refine ⟨nofun, fun body heq => ?_, nofun⟩
      rw [collect, if_pos rfl, ← Option.some.inj heq]
      exact hwhole.append hle
    · rw [hnext]
      exact ⟨nofun, nofun, nofun⟩
  | released hold hnext =>
    rename_i other result
    refine h.record rfl rfl rfl rfl ?_ ?_
    · rw [hnext]
      exact ⟨nofun, nofun, nofun⟩
    · rintro i response ⟨⟩
      rw [hold] at hholds
      exact hholds.whole _ rfl

/-! ### An exhausted pool -/

/-- The allowance that a thread holds. -/
def granted (pool : PublicPool) (index : ℕ) : Option ℕ :=
  pool.workers[index]?.bind fun worker => worker.position.granted

/-- The chunks that were accounted for a thread. -/
def accountedBy (index : ℕ) (events : List PoolEvent) : List (List UInt8) :=
  events.filterMap fun
    | .accounted other chunk _ => if other = index then some chunk else none
    | _ => none

/-- Nothing was accounted and no allowance is new, or one chunk was accounted that an allowance from
before covers. -/
def Entitled (before now : Option ℕ) (chunks : List (List UInt8)) : Prop :=
  (chunks = [] ∧ ∀ allowance, now = some allowance → before = some allowance) ∨
    now = none ∧ ∃ chunk allowance, chunks = [chunk] ∧ before = some allowance ∧
      chunk.length ≤ allowance

theorem Entitled.drop {before now : Option ℕ} {chunks : List (List UInt8)}
    (h : Entitled before now chunks) : Entitled before none chunks := by
  rcases h with ⟨hnone, -⟩ | ⟨-, hone⟩
  · exact Or.inl ⟨hnone, nofun⟩
  · exact Or.inr ⟨rfl, hone⟩

theorem Entitled.account {before : Option ℕ} {chunks : List (List UInt8)} {allowance : ℕ}
    (h : Entitled before (some allowance) chunks) {chunk : List UInt8}
    (hle : chunk.length ≤ allowance) : Entitled before none (chunks ++ [chunk]) := by
  rcases h with ⟨rfl, hsame⟩ | ⟨hnone, -⟩
  · exact Or.inr ⟨rfl, chunk, allowance, rfl, hsame allowance rfl, hle⟩
  · exact nomatch hnone

/-- What has happened since the budget of a pool was exhausted. -/
structure Spent (pool last : PublicPool) : Prop where
  exhausted : last.byteBudgetExhausted = true
  later : ∃ later, last.events = pool.events ++ later ∧ (∀ index, .passed index ∉ later) ∧
    ∀ index, Entitled (pool.granted index) (last.granted index) (accountedBy index later)

theorem Spent.refl (h : pool.byteBudgetExhausted = true) : Spent pool pool :=
  ⟨h, [], (List.append_nil _).symm, fun _ => List.not_mem_nil,
    fun _ => Or.inl ⟨rfl, fun _ hsame => hsame⟩⟩

theorem accountedBy_append (index : ℕ) (events more : List PoolEvent) :
    accountedBy index (events ++ more) = accountedBy index events ++ accountedBy index more :=
  List.filterMap_append

theorem accountedBy_of_ne {i : ℕ} {events : List PoolEvent}
    (h : ∀ event ∈ events, event.thread ≠ i) : accountedBy i events = [] := by
  refine List.filterMap_eq_nil_iff.mpr fun event hmem => ?_
  cases event with
  | passed other => rfl
  | accounted other chunk total => exact if_neg (h _ hmem)
  | finished other result => rfl

/-- The allowances after a thread moved. -/
theorem granted_place {base : PublicPool} (hworkers : base.workers = pool.workers)
    (hworker : pool.workers[index]? = some worker) (other : PoolWorker) (i : ℕ) :
    (base.place index other).granted i =
      if i = index then other.position.granted else pool.granted i := by
  have hlt := (List.getElem?_eq_some_iff.mp hworker).1
  change ((base.workers.set index other)[i]?).bind _ = _
  rw [hworkers, List.getElem?_set]
  by_cases hsame : index = i
  · rw [if_pos hsame, if_pos hlt, if_pos hsame.symm]
    rfl
  · rw [if_neg hsame, if_neg (Ne.symm hsame)]
    rfl

/-- A thread of an exhausted pool moves. -/
theorem Spent.place {last base : PublicPool} (h : Spent pool last)
    (hworker : last.workers[index]? = some worker) {other : PoolWorker}
    (hworkers : base.workers = last.workers) {new : List PoolEvent}
    (hevents : base.events = last.events ++ new) (hexhausted : base.byteBudgetExhausted = true)
    (hnew : ∀ event ∈ new, event.thread = index ∧ ∀ i, event ≠ .passed i)
    (hentitled : ∀ before chunks, Entitled before worker.position.granted chunks →
      Entitled before other.position.granted (chunks ++ accountedBy index new)) :
    Spent pool (base.place index other) := by
  obtain ⟨later, hlater, hpassed, hall⟩ := h.later
  refine ⟨hexhausted, later ++ new, ?_, fun i hmem => ?_, fun i => ?_⟩
  · change base.events = _
    rw [hevents, hlater, List.append_assoc]
  · rcases List.mem_append.mp hmem with hmem | hmem
    · exact hpassed i hmem
    · exact (hnew _ hmem).2 i rfl
  · rw [granted_place hworkers hworker, accountedBy_append]
    by_cases hsame : i = index
    · rw [if_pos hsame, hsame]
      refine hentitled _ _ ?_
      have hheld : last.granted index = worker.position.granted := by
        rw [granted, hworker]
        rfl
      exact hheld ▸ hall index
    · have hnone : accountedBy i new = [] := accountedBy_of_ne fun event hmem => by
        rw [(hnew event hmem).1]
        exact Ne.symm hsame
      rw [if_neg hsame, hnone, List.append_nil]
      exact hall i

/-- **An exhausted pool only accounts what was allowed before.** -/
theorem Spent.step {last : PublicPool} (h : Spent pool last) (hhistory : History limits last)
    (hworker : last.workers[index]? = some worker)
    (hstep : PoolStep limits last index worker.position next) : Spent pool next := by
  have hspent := h.exhausted
  -- a thread that holds no allowance afterwards and accounts nothing
  have hdrop {other : PoolWorker} (hnone : other.position.granted = none) :
      ∀ before chunks, Entitled before worker.position.granted chunks →
        Entitled before other.position.granted (chunks ++ accountedBy index []) :=
    fun before chunks hheld => by
      rw [hnone, show accountedBy index [] = [] from rfl, List.append_nil]
      exact hheld.drop
  cases hstep with
  | unchanged => exact h
  | moved hmove =>
    exact h.place hworker rfl (List.append_nil _).symm hspent nofun (hdrop (move_numbers hmove).2.1)
  | acquired hold hpositive hnext =>
    exact h.place hworker rfl (List.append_nil _).symm hspent nofun (hdrop (by rw [hnext]; rfl))
  | passed hold hleft hnext => exact absurd (hleft.symm.trans hspent) Bool.false_ne_true
  | granted hold hleft hnext => exact absurd (hleft.symm.trans hspent) Bool.false_ne_true
  | took hold hle hnext =>
    refine h.place hworker rfl (List.append_nil _).symm hspent nofun fun before chunks hheld => ?_
    rw [hnext, show accountedBy index [] = [] from rfl, List.append_nil]
    rwa [hold] at hheld
  | accounted hold hnext =>
    rename_i other request body chunk allowance
    have hholds := hhistory.holds index worker hworker
    rw [hold] at hholds
    obtain ⟨hle, -⟩ := hholds.last _ _ _ _ rfl
    have hnone : other.position.granted = none := by
      rcases hnext with ⟨-, hnext⟩ | ⟨error, hnext⟩
      · rw [hnext]
        rfl
      · rw [hnext]
        rfl
    refine h.place hworker rfl rfl (by simp [log, hspent]) (fun event hmem => ?_)
      fun before chunks hheld => ?_
    · rw [List.mem_singleton.mp hmem]
      exact ⟨rfl, nofun⟩
    · have hone : accountedBy index
          [.accounted index chunk (last.decodedBytes + chunk.length)] = [chunk] := by
        simp [accountedBy]
      rw [hold] at hheld
      rw [hnone, hone]
      exact hheld.account hle
  | released hold hnext =>
    rename_i other result
    refine h.place hworker rfl rfl hspent (fun event hmem => ?_) fun before chunks hheld => ?_
    · rw [List.mem_singleton.mp hmem]
      exact ⟨rfl, nofun⟩
    · rw [hnext, show accountedBy index [.finished index result] = [] from rfl, List.append_nil]
      exact hheld.drop

/-! ### Over every run -/

theorem history_create (limits : PoolLimits) (threads : ℕ) :
    History limits (create limits threads) := by
  refine ⟨rfl, fun index worker hworker => ?_, fun before index response after heq => ?_⟩
  · rw [List.eq_of_mem_replicate (List.mem_of_getElem? hworker)]
    exact ⟨nofun, nofun, nofun⟩
  · exact absurd heq (by simp [create])

/-- A step of the pool closes it, does nothing, or is a step of one of its threads. -/
theorem step_cases (limits : PoolLimits) (pool : PublicPool) (input : PoolInput) :
    pool.step limits input = { pool with closed := true } ∨ pool.step limits input = pool ∨
      ∃ index worker, pool.workers[index]? = some worker ∧
        PoolStep limits pool index worker.position (pool.step limits input) := by
  cases input with
  | close => exact Or.inl rfl
  | worker index action =>
    cases hworker : pool.workers[index]? with
    | none =>
      refine Or.inr (Or.inl ?_)
      simp only [PublicPool.step, hworker]
    | some worker =>
      refine Or.inr (Or.inr ⟨index, worker, hworker, ?_⟩)
      simp only [PublicPool.step, hworker]
      exact act_step action

/-- **The invariant of a pool** is kept by every step. -/
theorem step_invariant (h : Numbers limits pool ∧ History limits pool) (input : PoolInput) :
    Numbers limits (pool.step limits input) ∧ History limits (pool.step limits input) := by
  rcases step_cases limits pool input with hclosed | hsame | ⟨index, worker, hworker, hstep⟩
  · rw [hclosed]
    exact ⟨⟨h.1.left, h.1.bound, h.1.permits, h.1.small⟩, ⟨h.2.total, h.2.holds, h.2.returned⟩⟩
  · rw [hsame]
    exact h
  · exact ⟨h.1.step hworker hstep, h.2.step hworker hstep⟩

theorem invariant_run (limits : PoolLimits) (threads : ℕ) (inputs : List PoolInput) :
    Numbers limits (run (step limits) (create limits threads) inputs) ∧
      History limits (run (step limits) (create limits threads) inputs) :=
  run_invariant (P := fun pool => Numbers limits pool ∧ History limits pool)
    (fun _ input _ h => step_invariant h input)
    ⟨numbers_create limits threads, history_create limits threads⟩

/-- After the budget is exhausted, over every run. -/
theorem spent_run (hhistory : Numbers limits pool ∧ History limits pool)
    (hexhausted : pool.byteBudgetExhausted = true) (later : List PoolInput) :
    Spent pool (run (step limits) pool later) := by
  refine (run_invariant (P := fun last => (Numbers limits last ∧ History limits last) ∧
    Spent pool last) (fun last input _ h => ?_) ⟨hhistory, .refl hexhausted⟩).2
  refine ⟨step_invariant h.1 input, ?_⟩
  rcases step_cases limits last input with hclosed | hsame | ⟨index, worker, hworker, hstep⟩
  · rw [hclosed]
    exact ⟨h.2.exhausted, h.2.later⟩
  · rw [hsame]
    exact h.2
  · exact h.2.step h.1.2 hworker hstep

end PublicPool

open PublicPool in
/-- **The byte bound of the pool.** For any number of threads and every interleaving of their steps:

* the decoded bytes are the accounted ones and stay below the budget and one chunk for each worker;
* after the budget is exhausted no request passes the pacing gate, and each thread accounts at most
  one chunk, within an allowance that it already held;
* a returned body is made of the chunks of its request, and after each of them the decoded bytes
  were within the budget. -/
theorem pool_byte_bound (limits : PoolLimits) (threads : ℕ) (inputs : List PoolInput) :
    let pool := run (PublicPool.step limits) (create limits threads) inputs
    pool.decodedBytes = accountedBytes pool.events ∧
    pool.decodedBytes ≤ limits.maxDecodedBytes - 1 + limits.workers * 65536 ∧
    (pool.byteBudgetExhausted = true → ∀ later : List PoolInput,
      ∃ events, (run (PublicPool.step limits) pool later).events = pool.events ++ events ∧
        (∀ index, .passed index ∉ events) ∧
        ∀ index, accountedBy index events = [] ∨
          ∃ chunk allowance, accountedBy index events = [chunk] ∧
            pool.granted index = some allowance ∧ chunk.length ≤ allowance) ∧
    ∀ before index response after,
      pool.events = before ++ .finished index (.ok response) :: after →
        response.body = ((chunksOf index before).map Prod.fst).flatten ∧
          ∀ chunk ∈ chunksOf index before, chunk.2 ≤ limits.maxDecodedBytes := by
  intro pool
  have hinv : Numbers limits pool ∧ History limits pool :=
    invariant_run limits threads inputs
  refine ⟨hinv.2.total, (Nat.le_add_right _ _).trans hinv.1.bound, fun hexhausted later => ?_,
    hinv.2.returned⟩
  obtain ⟨events, hevents, hpassed, hall⟩ := (spent_run hinv hexhausted later).later
  refine ⟨events, hevents, hpassed, fun index => ?_⟩
  rcases hall index with ⟨hnone, -⟩ | ⟨-, hone⟩
  · exact Or.inl hnone
  · exact Or.inr hone

end EventMarket.Scripts
