import EventMarket.Foundations.Ring
import EventMarket.Foundations.Run
import EventMarket.Journal.Codec
import EventMarket.Session.CaptureSession
import Mathlib.Algebra.BigOperators.Group.List.Basic

/-!
# The asynchronous capture writer

One caller appends records to a ring of slots and one worker thread takes them from the ring and
hands them to the writer of the session. The two share the positions of the ring, the consumed
bytes, a failure, a closing flag and an epoch that wakes the worker. Every access to a shared
variable is a step of its own, and the steps of the two sides interleave in any order.

## Main definitions

* `CaptureConfig`: the limits that the creation of a capture accepts.
* `Producer`, `Worker`: where the two sides stand.
* `AsyncCapture`: the shared variables, the private ones of both sides and the history.
* `stepProducer`, `stepWorker`, `AsyncCapture.step`: one step of a side.
-/

namespace EventMarket.Session

open EventMarket.Foundations EventMarket.Journal

inductive CaptureAppendResult where
  | queued
  | closed
  | capacityExceeded
  | writerFailed
  deriving DecidableEq, Repr

structure CaptureQueueLimits where
  records : ℕ
  retainedBytes : ℕ
  deriving DecidableEq, Repr

/-- The limits of a capture and the size of a record without its strings. The field `accepted` is
the check of `create_async_capture`. -/
structure CaptureConfig where
  limits : CaptureQueueLimits
  recordBytes : ℕ
  accepted : 0 < limits.records ∧ limits.records ≤ 65536 ∧
    recordBytes + 32 ≤ limits.retainedBytes ∧ limits.retainedBytes ≤ 256 * 1024 * 1024

namespace CaptureConfig

/-- The number of slots. -/
def slots (config : CaptureConfig) : ℕ := config.limits.records + 1

end CaptureConfig

/-- A record with the capacities of its two strings. They stay the same when it is moved. -/
structure QueuedRecord where
  record : RawMarketRecord
  channelCapacity : ℕ
  payloadCapacity : ℕ
  deriving DecidableEq

/-- A record as a slot is initialized, and as it is left when its strings are released. -/
def QueuedRecord.released (record : RawMarketRecord) : QueuedRecord :=
  ⟨{ record with channel := [], payload := [] }, 0, 0⟩

/-- A record with default fields. -/
def QueuedRecord.empty : QueuedRecord :=
  .released ⟨currentSchemaVersion, 0, 0, 0, 0, 0, none, [], []⟩

/-- The bytes that a record retains. -/
def CaptureConfig.charge (config : CaptureConfig) (record : QueuedRecord) : ℕ :=
  record.channelCapacity + record.payloadCapacity + config.recordBytes

/-- Where the caller stands: the next access of its call. -/
inductive Producer where
  | idle
  | loadFailure (record : QueuedRecord)
  | loadConsumed (record : QueuedRecord)
  | loadTail (record : QueuedRecord) (consumed : ℕ)
  | recordCapacity (record : QueuedRecord)
  | signalCapacity (record : QueuedRecord)
  | writeSlot (record : QueuedRecord) (pending : ℕ)
  | storeHead (record : QueuedRecord)
  | signalQueued (record : QueuedRecord)
  | recordClosed
  | storeClosing (destroying : Bool)
  | signalClosing (destroying : Bool)
  | join (destroying : Bool)
  | destroyed
  deriving DecidableEq

/-- Where the worker stands: its next access. -/
inductive Worker where
  | loadEpoch
  | loadClosing (epoch : ℕ)
  | loadFailure (epoch : ℕ) (closing : Bool)
  | loadHead (epoch : ℕ) (closing : Bool)
  | wait (epoch : ℕ)
  | append
  | storeConsumed (charge : ℕ)
  | storeTail
  | storeWritten
  | finalize
  | recordFailed
  | done
  deriving DecidableEq

/-- What a call of the caller returned. -/
inductive Return where
  | append (record : QueuedRecord) (result : CaptureAppendResult)
  | finish (result : FinalizeSessionResult)
  deriving DecidableEq

/-- The capture. The last four fields are its history: the records that were accepted, those that
were handed to the writer of the session, those that it wrote, and what the calls returned. -/
structure AsyncCapture where
  slots : ℕ → QueuedRecord := fun _ => .empty
  head : ℕ := 0
  tail : ℕ := 0
  epoch : ℕ := 0
  consumedBytes : ℕ := 0
  writtenRecords : ℕ := 0
  failure : CaptureAppendResult := .queued
  closing : Bool := false
  acceptedBytes : ℕ := 0
  acceptedRecords : ℕ := 0
  highWater : ℕ := 0
  finished : Bool := false
  result : Option FinalizeSessionResult := none
  producer : Producer := .idle
  worker : Worker := .loadEpoch
  workerConsumed : ℕ := 0
  workerWritten : ℕ := 0
  accepted : List QueuedRecord := []
  handed : List QueuedRecord := []
  written : List QueuedRecord := []
  returns : List Return := []

/-- The difference of unsigned 64-bit numbers. -/
def wrappingSub (a b : ℕ) : ℕ := (a + 2 ^ 64 - b) % 2 ^ 64

/-- The sum of unsigned 64-bit numbers. -/
def wrappingAdd (a b : ℕ) : ℕ := (a + b) % 2 ^ 64

namespace AsyncCapture

/-- The first failure is kept. -/
def fail (capture : AsyncCapture) (reason : CaptureAppendResult) : AsyncCapture :=
  if capture.failure = .queued then { capture with failure := reason } else capture

def signal (capture : AsyncCapture) : AsyncCapture :=
  { capture with epoch := wrappingAdd capture.epoch 1 }

/-- The call is over. -/
def returning (capture : AsyncCapture) (value : Return) : AsyncCapture :=
  { capture with producer := .idle, returns := capture.returns ++ [value] }

/-- The check of `append` after it has loaded the tail. -/
def exceeds (config : CaptureConfig) (capture : AsyncCapture) (record : QueuedRecord)
    (pending : ℕ) : Bool :=
  let room := config.limits.retainedBytes
  ringNext config.slots capture.head == capture.tail ||
    decide (room < record.channelCapacity) ||
    decide (room - record.channelCapacity < record.payloadCapacity) ||
    decide (room - record.channelCapacity - record.payloadCapacity < config.recordBytes) ||
    decide (wrappingSub room pending < config.charge record) ||
    decide (2 ^ 64 - 1 - room < capture.acceptedBytes)

/-- What `finish` returns after the worker was joined. -/
def finishResult (capture : AsyncCapture) : FinalizeSessionResult :=
  match capture.result with
  | some result => result
  | none =>
    .error ⟨if capture.failure = .capacityExceeded then .inputTooLarge else .ioError,
      if capture.failure = .capacityExceeded then "capture.queue_capacity" else "capture.aborted",
      capture.acceptedRecords⟩

/-- The next step of the call that the caller is in. Joining waits until the worker is done. -/
def stepProducer (config : CaptureConfig) (capture : AsyncCapture) : AsyncCapture :=
  match capture.producer with
  | .idle => capture
  | .loadFailure record =>
    if capture.failure ≠ .queued then capture.returning (.append record capture.failure)
    else { capture with producer := .loadConsumed record }
  | .loadConsumed record => { capture with producer := .loadTail record capture.consumedBytes }
  | .loadTail record consumed =>
    let pending := wrappingSub capture.acceptedBytes consumed
    if capture.exceeds config record pending then
      { capture with producer := .recordCapacity record }
    else { capture with producer := .writeSlot record pending }
  | .recordCapacity record =>
    { capture.fail .capacityExceeded with producer := .signalCapacity record }
  | .signalCapacity record => capture.signal.returning (.append record .capacityExceeded)
  | .writeSlot record pending =>
    { capture with
      slots := Function.update capture.slots capture.head record
      acceptedBytes := wrappingAdd capture.acceptedBytes (config.charge record)
      acceptedRecords := wrappingAdd capture.acceptedRecords 1
      highWater := max capture.highWater (wrappingAdd pending (config.charge record))
      accepted := capture.accepted ++ [record]
      producer := .storeHead record }
  | .storeHead record =>
    { capture with
      head := ringNext config.slots capture.head
      producer := .signalQueued record }
  | .signalQueued record => capture.signal.returning (.append record .queued)
  | .recordClosed => { capture.fail .closed with producer := .storeClosing true }
  | .storeClosing destroying =>
    { capture with closing := true, producer := .signalClosing destroying }
  | .signalClosing destroying => { capture.signal with producer := .join destroying }
  | .join destroying =>
    if capture.worker = .done then
      if destroying then { capture with producer := .destroyed }
      else { capture with finished := true }.returning (.finish capture.finishResult)
    else capture
  | .destroyed => capture

/-- What a call to the writer of the session does: it may fail or throw at any point. Finalizing
also has a manifest. -/
inductive WriterOutcome where
  | success (manifest : SessionManifest)
  | error (error : SessionError)
  | exception
  deriving DecidableEq

/-- The next step of the worker. A waiting worker goes on when the epoch has changed. -/
def stepWorker (config : CaptureConfig) (outcome : WriterOutcome) (capture : AsyncCapture) :
    AsyncCapture :=
  match capture.worker with
  | .loadEpoch => { capture with worker := .loadClosing capture.epoch }
  | .loadClosing epoch => { capture with worker := .loadFailure epoch capture.closing }
  | .loadFailure epoch closing =>
    if capture.failure ≠ .queued then { capture with worker := .done }
    else { capture with worker := .loadHead epoch closing }
  | .loadHead epoch closing =>
    if capture.tail = capture.head then
      if closing then { capture with worker := .finalize }
      else { capture with worker := .wait epoch }
    else { capture with worker := .append }
  | .wait epoch => if capture.epoch ≠ epoch then { capture with worker := .loadEpoch } else capture
  | .append =>
    let record := capture.slots capture.tail
    let handed := { capture with handed := capture.handed ++ [record] }
    match outcome with
    | .success _ =>
      { handed with
        slots := Function.update capture.slots capture.tail (.released record.record)
        written := capture.written ++ [record]
        worker := .storeConsumed (config.charge record) }
    | .error error => { handed with result := some (.error error), worker := .recordFailed }
    | .exception => { handed with worker := .recordFailed }
  | .storeConsumed charge =>
    let consumed := wrappingAdd capture.workerConsumed charge
    { capture with workerConsumed := consumed, consumedBytes := consumed, worker := .storeTail }
  | .storeTail =>
    { capture with tail := ringNext config.slots capture.tail, worker := .storeWritten }
  | .storeWritten =>
    let written := wrappingAdd capture.workerWritten 1
    { capture with workerWritten := written, writtenRecords := written, worker := .loadEpoch }
  | .finalize =>
    match outcome with
    | .success manifest => { capture with result := some (.manifest manifest), worker := .done }
    | .error error => { capture with result := some (.error error), worker := .recordFailed }
    | .exception => { capture with worker := .recordFailed }
  | .recordFailed => { capture.fail .writerFailed with worker := .done }
  | .done => capture

/-- The caller starts a call or takes a step of it, or the worker takes a step. -/
inductive Action where
  | append (record : QueuedRecord)
  | finish
  | destroy
  | producer
  | worker (outcome : WriterOutcome)
  deriving DecidableEq

/-- A call starts only when no other call is in progress. After `finish` it returns at once. -/
def step (config : CaptureConfig) (capture : AsyncCapture) : Action → AsyncCapture
  | .append record =>
    match capture.producer with
    | .idle =>
      if capture.finished then capture.returning (.append record .closed)
      else { capture with producer := .loadFailure record }
    | _ => capture
  | .finish =>
    match capture.producer with
    | .idle =>
      if capture.finished then capture.returning (.finish capture.finishResult)
      else { capture with producer := .storeClosing false }
    | _ => capture
  | .destroy =>
    match capture.producer with
    | .idle =>
      if capture.finished then { capture with producer := .destroyed }
      else { capture with producer := .recordClosed }
    | _ => capture
  | .producer => capture.stepProducer config
  | .worker outcome => capture.stepWorker config outcome

/-- What the status of the capture is for its caller. -/
def status (capture : AsyncCapture) : CaptureAppendResult :=
  if capture.finished then .closed else capture.failure

end AsyncCapture

end EventMarket.Session
