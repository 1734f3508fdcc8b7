import EventMarket.Foundations.Run
import EventMarket.Foundations.Tally
import Mathlib.Algebra.Order.Ring.Rat

/-!
# The public pool

Threads share a pool for public requests. A semaphore admits a number of workers at a time, and a
lock protects the decoded bytes, the flag of the exhausted budget and the closing. A worker passes
the pacing gate, sends its request and reads the response in chunks: under the lock it is allowed a
number of bytes, then it reads without the lock, and under the lock again it accounts what it read.
The steps of the threads interleave in any order.

## Main definitions

* `PoolLimits`: the limits that the constructor accepts.
* `PoolPosition`, `PoolWorker`: where a thread stands, and its connections.
* `PublicPool`: the shared variables, the threads and the history.
* `PublicPool.act`, `PublicPool.step`: one step of a thread, and of the pool.
-/

namespace EventMarket.Scripts

open Foundations

/-- The largest response. -/
def maxResponseBytes : ℕ := 32 * 1024 * 1024

/-- The most that a worker reads at a time. -/
def chunkBytes : ℕ := 65536

/-- The limits of a pool. The field `accepted` is the check of the constructor. -/
structure PoolLimits where
  workers : ℕ
  maxDecodedBytes : ℕ
  accepted : 1 ≤ workers ∧ workers ≤ 8 ∧ 0 < maxDecodedBytes

/-- The header with the length of the body. -/
inductive ContentLength where
  | absent
  | malformed
  | bytes (length : ℕ)
  deriving DecidableEq

namespace ContentLength

/-- The length cannot be read or is too large. -/
def refused : ContentLength → Bool
  | .absent => false
  | .malformed => true
  | .bytes length => decide (maxResponseBytes < length)

/-- A body of another size was announced. -/
def truncates (received : ℕ) : ContentLength → Bool
  | .bytes length => decide (received ≠ length)
  | _ => false

end ContentLength

/-- The header that asks for a pause. -/
inductive RetryAfter where
  | absent
  | malformed
  | seconds (value : ℚ)
  deriving DecidableEq

/-- The headers of a response. -/
structure ResponseHeaders where
  length : ContentLength
  identity : Bool
  status : ℕ
  retryAfter : RetryAfter
  willClose : Bool
  deriving DecidableEq

/-- What a call returns. -/
structure PublicResponse where
  body : List UInt8
  status : ℕ
  retryAfterSeconds : Option ℚ
  deriving DecidableEq

/-- A call returns a response or raises an error with a fixed code. -/
abbrev PoolResult : Type := Except String PublicResponse

/-- A request whose response is being read. -/
structure PoolRequest where
  host : String
  retry : ℕ
  reused : Bool
  headers : ResponseHeaders
  deriving DecidableEq

/-- Where a thread stands: the next step of its call. -/
inductive PoolPosition where
  | idle
  | waiting (host : String)
  | pacing (host : String) (retry : ℕ)
  | requesting (host : String) (retry : ℕ)
  | checking (request : PoolRequest) (body : List UInt8)
  | reading (request : PoolRequest) (body : List UInt8) (allowance : ℕ)
  | accounting (request : PoolRequest) (body : List UInt8) (allowance : ℕ) (chunk : List UInt8)
  | finishing (request : PoolRequest) (body : List UInt8)
  | leaving (result : PoolResult)

/-- A thread with the hosts that it has connections to. -/
structure PoolWorker where
  position : PoolPosition := .idle
  connections : List String := []

/-- What happened in a pool: a request passed the pacing gate, a chunk was accounted, with the
decoded bytes after it, or a call was over. -/
inductive PoolEvent where
  | passed (index : ℕ)
  | accounted (index : ℕ) (chunk : List UInt8) (total : ℕ)
  | finished (index : ℕ) (result : PoolResult)

/-- The pool. The last field is its history. -/
structure PublicPool where
  decodedBytes : ℕ := 0
  byteBudgetExhausted : Bool := false
  closed : Bool := false
  permits : ℕ
  workers : List PoolWorker
  events : List PoolEvent := []

/-- What the surroundings of a thread may do at its next step: the clock, the connection and the
response. -/
inductive PoolAction where
  | call (host : String)
  | acquire
  | pace (ready : Bool)
  | respond (headers : ResponseHeaders)
  | check
  | read (chunk : List UInt8)
  | account
  | finish
  | release
  | transportError (expired : Bool)
  | timeout

inductive PoolInput where
  | worker (index : ℕ) (action : PoolAction)
  | close

namespace PublicPool

/-- A pool for any number of threads. -/
def create (limits : PoolLimits) (threads : ℕ) : PublicPool where
  permits := limits.workers
  workers := List.replicate threads {}

def place (pool : PublicPool) (index : ℕ) (worker : PoolWorker) : PublicPool :=
  { pool with workers := pool.workers.set index worker }

def log (pool : PublicPool) (event : PoolEvent) : PublicPool :=
  { pool with events := pool.events ++ [event] }

/-- Why nothing may start or be read any more. -/
def unavailable (pool : PublicPool) : Option String :=
  if pool.closed then some "public_pool_closed"
  else if pool.byteBudgetExhausted then some "public_total_byte_limit"
  else none

/-- An error of a request closes its connection. -/
def raise (pool : PublicPool) (index : ℕ) (worker : PoolWorker) (host error : String) :
    PublicPool :=
  pool.place index ⟨.leaving (.error error), worker.connections.erase host⟩

/-- An error of the transport. On a connection that was kept alive the request is tried once more,
through the pacing gate. -/
def transportFailed (pool : PublicPool) (index : ℕ) (worker : PoolWorker) (host : String)
    (retry : ℕ) (reused expired : Bool) : PublicPool :=
  if expired then pool.raise index worker host "public_request_timeout"
  else if retry ≠ 0 ∨ reused = false then pool.raise index worker host "public_transport_failed"
  else pool.place index ⟨.pacing host (retry + 1), worker.connections.erase host⟩

/-- The pacing gate, under the lock. -/
def pace (pool : PublicPool) (index : ℕ) (worker : PoolWorker) (host : String) (retry : ℕ)
    (ready : Bool) : PublicPool :=
  match pool.unavailable with
  | some error => pool.place index { worker with position := .leaving (.error error) }
  | none =>
    if ready then
      (pool.log (.passed index)).place index { worker with position := .requesting host retry }
    else pool

/-- The headers of the response, on a connection that is kept from now on. -/
def respond (pool : PublicPool) (index : ℕ) (worker : PoolWorker) (host : String) (retry : ℕ)
    (headers : ResponseHeaders) : PublicPool :=
  let reused := decide (host ∈ worker.connections)
  let worker := if reused then worker
    else { worker with connections := host :: worker.connections }
  if headers.length.refused then pool.raise index worker host "public_response_size_limit"
  else if headers.identity = false then
    pool.raise index worker host "unexpected_public_content_encoding"
  else
    pool.place index { worker with position := .checking ⟨host, retry, reused, headers⟩ [] }

/-- The most that the next read may return. -/
def allowance (limits : PoolLimits) (pool : PublicPool) (body : List UInt8) : ℕ :=
  min chunkBytes (min (limits.maxDecodedBytes - pool.decodedBytes + 1)
    (maxResponseBytes + 1 - body.length))

/-- The beginning of the loop: the body is complete, or under the lock a read is allowed. -/
def check (limits : PoolLimits) (pool : PublicPool) (index : ℕ) (worker : PoolWorker)
    (request : PoolRequest) (body : List UInt8) : PublicPool :=
  if request.headers.length = .bytes body.length then
    pool.place index { worker with position := .finishing request body }
  else
    match pool.unavailable with
    | some error => pool.raise index worker request.host error
    | none =>
      pool.place index
        { worker with position := .reading request body (pool.allowance limits body) }

/-- A read, without the lock. It returns at most what is allowed, and nothing at the end. -/
def read (pool : PublicPool) (index : ℕ) (worker : PoolWorker) (request : PoolRequest)
    (body : List UInt8) (allowance : ℕ) (chunk : List UInt8) : PublicPool :=
  if allowance < chunk.length then pool
  else if chunk = [] then pool.place index { worker with position := .finishing request body }
  else
    pool.place index
      { worker with position := .accounting request (body ++ chunk) allowance chunk }

/-- What was read is accounted, under the lock. -/
def account (limits : PoolLimits) (pool : PublicPool) (index : ℕ) (worker : PoolWorker)
    (request : PoolRequest) (body chunk : List UInt8) : PublicPool :=
  let total := pool.decodedBytes + chunk.length
  let pool := ({ pool with
    decodedBytes := total
    byteBudgetExhausted := pool.byteBudgetExhausted || decide (limits.maxDecodedBytes ≤ total) } :
      PublicPool).log (.accounted index chunk total)
  if limits.maxDecodedBytes < total then
    pool.raise index worker request.host "public_total_byte_limit"
  else if maxResponseBytes < body.length then
    pool.raise index worker request.host "public_response_size_limit"
  else pool.place index { worker with position := .checking request body }

/-- The end of a response. -/
def finish (pool : PublicPool) (index : ℕ) (worker : PoolWorker) (request : PoolRequest)
    (body : List UInt8) : PublicPool :=
  if request.headers.length.truncates body.length then
    pool.raise index worker request.host "truncated_public_response"
  else
    let connections :=
      if request.headers.willClose then worker.connections.erase request.host
      else worker.connections
    match request.headers.retryAfter with
    | .malformed => pool.raise index worker request.host "invalid_retry_after"
    | .absent =>
      pool.place index ⟨.leaving (.ok ⟨body, request.headers.status, none⟩), connections⟩
    | .seconds value =>
      pool.place index ⟨.leaving (.ok ⟨body, request.headers.status, some value⟩), connections⟩

/-- A call is over and leaves the semaphore. -/
def release (pool : PublicPool) (index : ℕ) (worker : PoolWorker) (result : PoolResult) :
    PublicPool :=
  ({ pool with permits := pool.permits + 1 }.log (.finished index result)).place index
    { worker with position := .idle }

/-- The next step of a thread, when the surroundings do what it waits for. -/
def act (limits : PoolLimits) (pool : PublicPool) (index : ℕ) (worker : PoolWorker)
    (action : PoolAction) : PublicPool :=
  match worker.position, action with
  | .idle, .call host => pool.place index { worker with position := .waiting host }
  | .waiting host, .acquire =>
    if pool.permits = 0 then pool
    else
      { pool with permits := pool.permits - 1 }.place index
        { worker with position := .pacing host 0 }
  | .pacing host retry, .pace ready => pool.pace index worker host retry ready
  | .requesting host retry, .respond headers => pool.respond index worker host retry headers
  | .requesting host retry, .transportError expired =>
    pool.transportFailed index worker host retry (decide (host ∈ worker.connections)) expired
  | .requesting host _, .timeout => pool.raise index worker host "public_request_timeout"
  | .checking request body, .check => pool.check limits index worker request body
  | .checking request _, .timeout => pool.raise index worker request.host "public_request_timeout"
  | .reading request body allowance, .read chunk =>
    pool.read index worker request body allowance chunk
  | .reading request _ _, .transportError expired =>
    pool.transportFailed index worker request.host request.retry request.reused expired
  | .reading request _ _, .timeout => pool.raise index worker request.host "public_request_timeout"
  | .accounting request body _ chunk, .account =>
    pool.account limits index worker request body chunk
  | .finishing request body, .finish => pool.finish index worker request body
  | .finishing request _, .timeout => pool.raise index worker request.host "public_request_timeout"
  | .leaving result, .release => pool.release index worker result
  | _, _ => pool

/-- One step of the pool: of one of its threads, or the closing. -/
def step (limits : PoolLimits) (pool : PublicPool) : PoolInput → PublicPool
  | .worker index action =>
    match pool.workers[index]? with
    | none => pool
    | some worker => pool.act limits index worker action
  | .close => { pool with closed := true }

end PublicPool

end EventMarket.Scripts
