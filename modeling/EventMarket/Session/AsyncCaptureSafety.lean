import EventMarket.Session.AsyncCapture
import Mathlib.Data.List.Infix

/-!
# Safety of the asynchronous capture writer

The ring refines the list of accepted records: a push counter and a pop counter run along this
list, the head and the tail are the counters modulo the number of slots, and the slots between
them hold the records between the counters. The worker therefore hands exactly the accepted records
to the writer of the session, in their order. The caller counts accepted bytes and the worker gives
consumed bytes back; an old value of the consumed bytes only makes the caller more careful.

## Main definitions

* `queuedRecords`: the records whose append returned that they are queued.
* `AsyncCapture.Drained`: closed without a failure and with every accepted record written.
* `AsyncCapture.Inv`: the invariant, at given counters.

## Main results

* `inv_step`: every step of either side keeps the invariant.
* `capture_safe`: what holds after any interleaving.
-/

namespace EventMarket.Session

open EventMarket.Foundations

/-- The records whose append returned that they are queued. -/
def queuedRecords (returns : List Return) : List QueuedRecord :=
  returns.filterMap fun
    | .append record .queued => some record
    | _ => none

/-- The bytes that the records retain. -/
def CaptureConfig.total (config : CaptureConfig) (records : List QueuedRecord) : ℕ :=
  (records.map config.charge).sum

@[simp] theorem CaptureConfig.total_append (config : CaptureConfig)
    (records more : List QueuedRecord) :
    config.total (records ++ more) = config.total records + config.total more := by
  simp [CaptureConfig.total]

@[simp] theorem CaptureConfig.total_singleton (config : CaptureConfig) (record : QueuedRecord) :
    config.total [record] = config.charge record := by
  simp [CaptureConfig.total]

@[simp] theorem queuedRecords_append (returns : List Return) (value : Return) :
    queuedRecords (returns ++ [value]) = queuedRecords returns ++ queuedRecords [value] := by
  simp [queuedRecords]

/-- A shorter prefix of a list is extended by the next element. -/
theorem prefix_append_getElem {α : Type*} {initial whole : List α} {item : α}
    (h : initial <+: whole) (hitem : whole[initial.length]? = some item) :
    initial ++ [item] <+: whole := by
  obtain ⟨rest, rfl⟩ := h
  rw [List.getElem?_append_right (Nat.le_refl _), Nat.sub_self] at hitem
  cases rest with
  | nil => simp at hitem
  | cons next rest =>
    obtain rfl : next = item := by simpa using hitem
    exact ⟨rest, by simp⟩

/-! ### Where the two sides stand -/

namespace Producer

/-- A record is in its slot, but the head does not show it yet. -/
def unpublished : Producer → ℕ
  | .storeHead _ => 1
  | _ => 0

/-- The accepted record of a call that has not returned. -/
def inFlight : Producer → List QueuedRecord
  | .storeHead record => [record]
  | .signalQueued record => [record]
  | _ => []

/-- The call has passed the check for a failure. -/
def pastCheck : Producer → Bool
  | .loadConsumed _ => true
  | .loadTail _ _ => true
  | .recordCapacity _ => true
  | .signalCapacity _ => true
  | .writeSlot _ _ => true
  | .storeHead _ => true
  | .signalQueued _ => true
  | _ => false

/-- The closing flag is set. -/
def closed (finished : Bool) : Producer → Bool
  | .idle => finished
  | .signalClosing _ => true
  | .join _ => true
  | .destroyed => true
  | _ => false

end Producer

namespace Worker

/-- A record is written, but the tail does not show it yet. -/
def unretired : Worker → ℕ
  | .storeConsumed _ => 1
  | .storeTail => 1
  | _ => 0

/-- The bytes of a written record that are not given back yet. -/
def unreturned : Worker → ℕ
  | .storeConsumed charge => charge
  | _ => 0

/-- The worker takes no more records. -/
def stopped : Worker → Bool
  | .recordFailed => true
  | .done => true
  | _ => false

end Worker

namespace AsyncCapture

/-- Closed without a failure and with every accepted record written. -/
def Drained (capture : AsyncCapture) : Prop :=
  capture.closing = true ∧ capture.failure = .queued ∧ capture.written = capture.accepted

/-- What the caller knows from the values it has loaded. -/
def ProducerKnows (config : CaptureConfig) (capture : AsyncCapture) (popped : ℕ) :
    Producer → Prop
  | .loadTail _ consumed =>
    consumed ≤ capture.consumedBytes ∧
      capture.acceptedBytes ≤ consumed + config.limits.retainedBytes
  | .writeSlot record _ =>
    capture.accepted.length + 1 ≤ popped + config.limits.records ∧
      capture.acceptedBytes + config.charge record ≤
        capture.consumedBytes + config.limits.retainedBytes ∧
      capture.acceptedBytes + config.charge record < 2 ^ 64
  | _ => True

/-- What the worker knows from the values it has loaded. -/
def WorkerKnows (capture : AsyncCapture) (pushed : ℕ) : Worker → Prop
  | .loadFailure _ closing => closing = true → capture.closing = true
  | .loadHead _ closing => closing = true → capture.closing = true ∧ capture.failure = .queued
  | .append => capture.written.length < pushed
  | .finalize => capture.Drained
  | _ => True

/-- The invariant, when so many records were published and so many slots were given back. -/
structure Inv (config : CaptureConfig) (capture : AsyncCapture) (pushed popped : ℕ) : Prop where
  head : capture.head = pushed % config.slots
  tail : capture.tail = popped % config.slots
  accepted_length : capture.accepted.length = pushed + capture.producer.unpublished
  written_length : capture.written.length = popped + capture.worker.unretired
  written_le : capture.written.length ≤ pushed
  ring : capture.accepted.length ≤ popped + config.limits.records
  holds : RingHolds config.slots capture.slots capture.accepted capture.written.length
  written_prefix : capture.written <+: capture.accepted
  handed_prefix : capture.handed <+: capture.accepted
  handed_written : capture.worker.stopped = false → capture.handed = capture.written
  acceptedBytes : capture.acceptedBytes = config.total capture.accepted
  workerConsumed : capture.workerConsumed = capture.consumedBytes
  consumedBytes : capture.consumedBytes + capture.worker.unreturned = config.total capture.written
  budget : capture.acceptedBytes ≤ capture.consumedBytes + config.limits.retainedBytes
  acceptedBytes_lt : capture.acceptedBytes < 2 ^ 64
  closing : capture.closing = capture.producer.closed capture.finished
  finished : capture.finished = true →
    (capture.producer = .idle ∨ capture.producer = .destroyed) ∧ capture.worker = .done
  producer : capture.ProducerKnows config popped capture.producer
  worker : capture.WorkerKnows pushed capture.worker
  manifest : ∀ manifest, capture.result = some (.manifest manifest) →
    capture.worker = .done ∧ capture.Drained
  returned : queuedRecords capture.returns ++ capture.producer.inFlight = capture.accepted
  finish : ∀ manifest, .finish (.manifest manifest) ∈ capture.returns →
    capture.result = some (.manifest manifest)

variable {config : CaptureConfig} {capture : AsyncCapture} {pushed popped : ℕ}

/-- The invariant holds at some counters. -/
def Safe (config : CaptureConfig) (capture : AsyncCapture) : Prop :=
  ∃ pushed popped, capture.Inv config pushed popped

theorem safe_initial (config : CaptureConfig) : ({} : AsyncCapture).Safe config := by
  refine ⟨0, 0, ?_⟩
  constructor <;> simp [CaptureConfig.slots, Producer.unpublished, Worker.unretired,
    Worker.unreturned, Producer.closed, ProducerKnows, WorkerKnows, Producer.inFlight,
    queuedRecords, CaptureConfig.total, RingHolds]

theorem wrappingSub_eq {a b : ℕ} (hle : b ≤ a) (hlt : a < 2 ^ 64) : wrappingSub a b = a - b := by
  rw [wrappingSub, show a + 2 ^ 64 - b = a - b + 2 ^ 64 by omega, Nat.add_mod_right,
    Nat.mod_eq_of_lt (by omega)]

theorem wrappingAdd_eq {a b : ℕ} (h : a + b < 2 ^ 64) : wrappingAdd a b = a + b :=
  Nat.mod_eq_of_lt h

/-- What the worker knows is not lost when the caller goes on. -/
theorem WorkerKnows.mono {next : AsyncCapture} {worker : Worker} {more : ℕ}
    (h : capture.WorkerKnows pushed worker) (hpushed : pushed ≤ more)
    (hwritten : next.written = capture.written)
    (hclosing : capture.closing = true → next.closing = true)
    (hfailure : capture.closing = true → next.failure = capture.failure)
    (hdrained : capture.Drained → next.Drained) : next.WorkerKnows more worker := by
  cases worker with
  | loadFailure epoch closing => exact fun hseen => hclosing (h hseen)
  | loadHead epoch closing =>
    exact fun hseen => ⟨hclosing (h hseen).1, (hfailure (h hseen).1).trans (h hseen).2⟩
  | append =>
    change next.written.length < more
    rw [hwritten]
    exact Nat.lt_of_lt_of_le h hpushed
  | finalize => exact hdrained h
  | _ => trivial

@[simp] theorem fail_producer (capture : AsyncCapture) (reason : CaptureAppendResult) :
    (capture.fail reason).producer = capture.producer := by
  unfold AsyncCapture.fail
  split_ifs <;> rfl

@[simp] theorem fail_finished (capture : AsyncCapture) (reason : CaptureAppendResult) :
    (capture.fail reason).finished = capture.finished := by
  unfold AsyncCapture.fail
  split_ifs <;> rfl

/-! ### Steps that move one side -/

/-- The caller goes on without changing anything that is shared. -/
theorem Inv.moveProducer (h : capture.Inv config pushed popped) {next : Producer}
    (hopen : capture.finished = false)
    (hunpublished : next.unpublished = capture.producer.unpublished)
    (hclosed : next.closed false = capture.producer.closed false)
    (hflight : next.inFlight = capture.producer.inFlight)
    (hknows : capture.ProducerKnows config popped next) :
    Inv config { capture with producer := next } pushed popped :=
  { h with
    accepted_length := h.accepted_length.trans (by rw [hunpublished])
    closing := by
      have hclosing := h.closing
      simp only [hopen] at hclosing ⊢
      exact hclosing.trans hclosed.symm
    finished := fun hfinished => absurd (hopen.symm.trans hfinished) Bool.false_ne_true
    producer := hknows
    returned := by
      rw [← h.returned]
      exact congrArg _ hflight }

/-- A call returns. -/
theorem Inv.returning (h : capture.Inv config pushed popped) (value : Return)
    (hunpublished : capture.producer.unpublished = 0)
    (hclosed : capture.producer.closed capture.finished = capture.finished)
    (hflight : queuedRecords [value] = capture.producer.inFlight)
    (hfinish : ∀ manifest, value = .finish (.manifest manifest) →
      capture.result = some (.manifest manifest)) :
    Inv config (capture.returning value) pushed popped :=
  { h with
    accepted_length := h.accepted_length.trans (by rw [hunpublished]; rfl)
    closing := h.closing.trans hclosed
    finished := fun hfinished => ⟨Or.inl rfl, (h.finished hfinished).2⟩
    producer := trivial
    returned := by
      have hreturned := h.returned
      rw [← hflight] at hreturned
      simpa [AsyncCapture.returning, Producer.inFlight] using hreturned
    finish := fun manifest hmem => by
      rcases List.mem_append.1 hmem with hold | hnew
      · exact h.finish manifest hold
      · exact hfinish manifest (List.mem_singleton.1 hnew).symm }

/-- Waking the worker changes nothing that the invariant speaks of. -/
theorem Inv.signal (h : capture.Inv config pushed popped) :
    Inv config capture.signal pushed popped :=
  { h with }

/-- The caller records a failure before the capture is closed. -/
theorem Inv.fail (h : capture.Inv config pushed popped) (reason : CaptureAppendResult)
    (hopen : capture.closing = false) : Inv config (capture.fail reason) pushed popped := by
  have hnot : ¬capture.Drained := fun hdrained =>
    absurd (hopen.symm.trans hdrained.1) Bool.false_ne_true
  unfold AsyncCapture.fail
  split_ifs with hqueued
  · -- No worker has seen the closing flag yet.
    exact { h with
      worker := h.worker.mono (Nat.le_refl _) rfl id
        (fun hclosing => absurd (hopen.symm.trans hclosing) Bool.false_ne_true) (absurd · hnot)
      manifest := fun manifest hresult => absurd (h.manifest manifest hresult).2 hnot }
  · exact h

/-- The worker goes on without changing anything that is shared. -/
theorem Inv.moveWorker (h : capture.Inv config pushed popped) {next : Worker}
    (hrunning : capture.worker.stopped = false)
    (hunretired : next.unretired = capture.worker.unretired)
    (hunreturned : next.unreturned = capture.worker.unreturned)
    (hknows : capture.WorkerKnows pushed next) :
    Inv config { capture with worker := next } pushed popped := by
  have hdone : capture.worker ≠ .done := fun hdone => by
    rw [hdone] at hrunning
    cases hrunning
  exact { h with
    written_length := h.written_length.trans (by rw [hunretired])
    consumedBytes := (by rw [← h.consumedBytes]; exact congrArg _ hunreturned)
    handed_written := fun _ => h.handed_written hrunning
    finished := fun hfinished => absurd (h.finished hfinished).2 hdone
    worker := hknows
    manifest := fun manifest hresult => absurd (h.manifest manifest hresult).1 hdone }

/-! ### Steps of the caller -/

theorem slots_pos (config : CaptureConfig) : 0 < config.slots := Nat.succ_pos _

/-- What an accepted check says. -/
theorem exceeds_eq_false {record : QueuedRecord} {pending : ℕ}
    (h : capture.exceeds config record pending = false) :
    ringNext config.slots capture.head ≠ capture.tail ∧
      config.charge record ≤ config.limits.retainedBytes ∧
      config.charge record ≤ wrappingSub config.limits.retainedBytes pending ∧
      capture.acceptedBytes ≤ 2 ^ 64 - 1 - config.limits.retainedBytes := by
  simp only [AsyncCapture.exceeds, Bool.or_eq_false_iff, beq_eq_false_iff_ne, ne_eq,
    decide_eq_false_iff_not, not_lt] at h
  obtain ⟨⟨⟨⟨⟨hnext, hchannel⟩, hpayload⟩, hrecord⟩, hroom⟩, haccepted⟩ := h
  refine ⟨hnext, ?_, hroom, haccepted⟩
  unfold CaptureConfig.charge
  omega

/-- The check of the caller leaves room for the record, whatever the worker has given back since
the values were loaded. -/
theorem Inv.knows_writeSlot (h : capture.Inv config pushed popped) {record : QueuedRecord}
    {consumed : ℕ} (hstands : capture.producer = .loadTail record consumed)
    (hexceeds : capture.exceeds config record
      (wrappingSub capture.acceptedBytes consumed) = false) :
    capture.ProducerKnows config popped
      (.writeSlot record (wrappingSub capture.acceptedBytes consumed)) := by
  obtain ⟨hnext, -, hroom, haccepted⟩ := exceeds_eq_false hexceeds
  have hlimit := config.accepted.2.2.2
  have hknows := h.producer
  rw [hstands] at hknows
  obtain ⟨hconsumed, hbudget⟩ := hknows
  have hlength := h.accepted_length
  simp only [hstands, Producer.unpublished, Nat.add_zero] at hlength
  have hring := h.ring
  have hwritten := h.written_length
  have hle := h.written_le
  have hbytes := h.budget
  have hconsumedBytes := h.consumedBytes
  have hacceptedBytes := h.acceptedBytes
  have htotal : config.total capture.written ≤ config.total capture.accepted := by
    obtain ⟨rest, hrest⟩ := h.written_prefix
    rw [← hrest, CaptureConfig.total_append]
    exact Nat.le_add_right _ _
  have hpending : wrappingSub capture.acceptedBytes consumed = capture.acceptedBytes - consumed :=
    wrappingSub_eq (by omega) h.acceptedBytes_lt
  rw [hpending, wrappingSub_eq (by omega) (by omega)] at hroom
  -- The head is not directly before the tail, so the ring is not full.
  rw [h.head, h.tail, ringNext_mod (slots_pos config)] at hnext
  have hfull : pushed + 1 ≠ popped + config.slots := fun heq => hnext (by
    rw [heq, Nat.add_mod_right])
  rw [CaptureConfig.slots] at hfull
  exact ⟨by omega, by omega, by omega⟩

/-- The record is written to the slot behind the published ones. -/
theorem Inv.writeSlot (h : capture.Inv config pushed popped) {record : QueuedRecord} {pending : ℕ}
    (hstands : capture.producer = .writeSlot record pending) :
    (capture.stepProducer config).Inv config pushed popped := by
  have hknows := h.producer
  rw [hstands] at hknows
  obtain ⟨hroom, hbudget, hlt⟩ := hknows
  have hlength := h.accepted_length
  simp only [hstands, Producer.unpublished, Nat.add_zero] at hlength
  have hwritten := h.written_length
  have hclosing := h.closing
  simp only [hstands, Producer.closed] at hclosing
  have hreturned := h.returned
  simp only [hstands, Producer.inFlight, List.append_nil] at hreturned
  have hstep : capture.stepProducer config = { capture with
      slots := Function.update capture.slots (capture.accepted.length % config.slots) record
      acceptedBytes := capture.acceptedBytes + config.charge record
      acceptedRecords := wrappingAdd capture.acceptedRecords 1
      highWater := max capture.highWater (wrappingAdd pending (config.charge record))
      accepted := capture.accepted ++ [record]
      producer := .storeHead record } := by
    simp only [stepProducer, hstands, h.head, ← hlength, wrappingAdd_eq hlt]
  rw [hstep]
  have hdrained : ¬capture.Drained := fun hdrained =>
    absurd (hclosing.symm.trans hdrained.1) Bool.false_ne_true
  exact { h with
    accepted_length := by
      rw [List.length_append, hlength]
      rfl
    ring := by
      rw [List.length_append, List.length_singleton]
      exact hroom
    holds := h.holds.push record (by rw [CaptureConfig.slots]; omega)
    written_prefix := h.written_prefix.trans (List.prefix_append _ _)
    handed_prefix := h.handed_prefix.trans (List.prefix_append _ _)
    acceptedBytes := by rw [CaptureConfig.total_append, CaptureConfig.total_singleton,
      h.acceptedBytes]
    budget := hbudget
    acceptedBytes_lt := hlt
    closing := hclosing
    finished := fun hfinished => by simpa [hstands] using (h.finished hfinished).1
    producer := trivial
    worker := h.worker.mono (Nat.le_refl _) rfl id (fun _ => rfl) (absurd · hdrained)
    manifest := fun manifest hresult => absurd (h.manifest manifest hresult).2 hdrained
    returned := by rw [hreturned]; rfl }

/-- The record is published. -/
theorem Inv.storeHead (h : capture.Inv config pushed popped) {record : QueuedRecord}
    (hstands : capture.producer = .storeHead record) :
    (capture.stepProducer config).Inv config (pushed + 1) popped := by
  have hlength := h.accepted_length
  simp only [hstands, Producer.unpublished] at hlength
  have hclosing := h.closing
  simp only [hstands, Producer.closed] at hclosing
  have hreturned := h.returned
  simp only [hstands, Producer.inFlight] at hreturned
  have hstep : capture.stepProducer config = { capture with
      head := ringNext config.slots capture.head
      producer := .signalQueued record } := by
    simp only [stepProducer, hstands]
  rw [hstep]
  exact { h with
    head := by
      rw [h.head]
      exact ringNext_mod (slots_pos config) pushed
    accepted_length := hlength
    written_le := h.written_le.trans (Nat.le_succ _)
    closing := hclosing
    finished := fun hfinished => by simpa [hstands] using (h.finished hfinished).1
    producer := trivial
    worker := h.worker.mono (Nat.le_succ _) rfl id (fun _ => rfl) id
    returned := hreturned }

/-- The capture is closed. -/
theorem Inv.storeClosing (h : capture.Inv config pushed popped) {destroying : Bool}
    (hstands : capture.producer = .storeClosing destroying) :
    (capture.stepProducer config).Inv config pushed popped := by
  have hlength := h.accepted_length
  simp only [hstands, Producer.unpublished] at hlength
  have hreturned := h.returned
  simp only [hstands, Producer.inFlight] at hreturned
  have hstep : capture.stepProducer config =
      { capture with closing := true, producer := .signalClosing destroying } := by
    simp only [stepProducer, hstands]
  rw [hstep]
  exact { h with
    accepted_length := hlength
    closing := rfl
    finished := fun hfinished => by simpa [hstands] using (h.finished hfinished).1
    producer := trivial
    worker := h.worker.mono (Nat.le_refl _) rfl (fun _ => rfl) (fun _ => rfl)
      (fun hdrained => ⟨rfl, hdrained.2⟩)
    manifest := fun manifest hresult =>
      ⟨(h.manifest manifest hresult).1, rfl, (h.manifest manifest hresult).2.2⟩
    returned := hreturned }

/-- A call that is over does not read a manifest that is not there. -/
theorem finishResult_eq_manifest {manifest : SessionManifest}
    (h : capture.finishResult = .manifest manifest) :
    capture.result = some (.manifest manifest) := by
  unfold finishResult at h
  split at h
  · rename_i result hresult
    rw [hresult, h]
  · cases h

/-- Every step of the caller keeps the invariant. -/
theorem Safe.stepProducer (h : capture.Safe config) :
    (capture.stepProducer config).Safe config := by
  obtain ⟨pushed, popped, h⟩ := h
  have hfinished (hbusy : capture.producer ≠ .idle ∧ capture.producer ≠ .destroyed) :
      capture.finished = false := by
    cases hfinished : capture.finished with
    | false => rfl
    | true => exact ((h.finished hfinished).1.elim hbusy.1 hbusy.2).elim
  cases hstands : capture.producer with
  | idle => exact ⟨pushed, popped, by simpa only [AsyncCapture.stepProducer, hstands] using h⟩
  | destroyed => exact ⟨pushed, popped, by simpa only [AsyncCapture.stepProducer, hstands] using h⟩
  | loadFailure record =>
    have hopen := hfinished (by simp [hstands])
    refine ⟨pushed, popped, ?_⟩
    simp only [AsyncCapture.stepProducer, hstands]
    split_ifs with hfailure
    · refine h.returning _ (by rw [hstands]; rfl) (by rw [hstands, hopen]; rfl) ?_ nofun
      rw [hstands]
      cases hresult : capture.failure with
      | queued => exact absurd hresult hfailure
      | _ => rfl
    · exact h.moveProducer hopen (by rw [hstands]; rfl) (by rw [hstands]; rfl)
        (by rw [hstands]; rfl) trivial
  | loadConsumed record =>
    refine ⟨pushed, popped, ?_⟩
    simp only [AsyncCapture.stepProducer, hstands]
    exact h.moveProducer (hfinished (by simp [hstands])) (by rw [hstands]; rfl)
      (by rw [hstands]; rfl) (by rw [hstands]; rfl) ⟨Nat.le_refl _, h.budget⟩
  | loadTail record consumed =>
    have hopen := hfinished (by simp [hstands])
    refine ⟨pushed, popped, ?_⟩
    simp only [AsyncCapture.stepProducer, hstands]
    split_ifs with hexceeds
    · exact h.moveProducer hopen (by rw [hstands]; rfl) (by rw [hstands]; rfl)
        (by rw [hstands]; rfl) trivial
    · exact h.moveProducer hopen (by rw [hstands]; rfl) (by rw [hstands]; rfl)
        (by rw [hstands]; rfl) (h.knows_writeSlot hstands (Bool.eq_false_iff.2 hexceeds))
  | recordCapacity record =>
    have hopen := hfinished (by simp [hstands])
    have hclosing : capture.closing = false := by rw [h.closing, hstands]; rfl
    refine ⟨pushed, popped, ?_⟩
    simp only [AsyncCapture.stepProducer, hstands]
    exact (h.fail .capacityExceeded hclosing).moveProducer (by rw [fail_finished, hopen])
      (by rw [fail_producer, hstands]; rfl) (by rw [fail_producer, hstands]; rfl)
      (by rw [fail_producer, hstands]; rfl) trivial
  | signalCapacity record =>
    have hopen := hfinished (by simp [hstands])
    refine ⟨pushed, popped, ?_⟩
    simp only [AsyncCapture.stepProducer, hstands]
    exact h.signal.returning _ (by simp [AsyncCapture.signal, hstands, Producer.unpublished])
      (by simp [AsyncCapture.signal, hstands, Producer.closed, hopen])
      (by simp [AsyncCapture.signal, hstands, Producer.inFlight, queuedRecords]) nofun
  | writeSlot record pending => exact ⟨pushed, popped, h.writeSlot hstands⟩
  | storeHead record => exact ⟨pushed + 1, popped, h.storeHead hstands⟩
  | signalQueued record =>
    have hopen := hfinished (by simp [hstands])
    refine ⟨pushed, popped, ?_⟩
    simp only [AsyncCapture.stepProducer, hstands]
    exact h.signal.returning _ (by simp [AsyncCapture.signal, hstands, Producer.unpublished])
      (by simp [AsyncCapture.signal, hstands, Producer.closed, hopen])
      (by simp [AsyncCapture.signal, hstands, Producer.inFlight, queuedRecords]) nofun
  | recordClosed =>
    have hopen := hfinished (by simp [hstands])
    have hclosing : capture.closing = false := by rw [h.closing, hstands]; rfl
    refine ⟨pushed, popped, ?_⟩
    simp only [AsyncCapture.stepProducer, hstands]
    exact (h.fail .closed hclosing).moveProducer (by rw [fail_finished, hopen])
      (by rw [fail_producer, hstands]; rfl) (by rw [fail_producer, hstands]; rfl)
      (by rw [fail_producer, hstands]; rfl) trivial
  | storeClosing destroying => exact ⟨pushed, popped, h.storeClosing hstands⟩
  | signalClosing destroying =>
    refine ⟨pushed, popped, ?_⟩
    simp only [AsyncCapture.stepProducer, hstands]
    exact h.signal.moveProducer (hfinished (by simp [hstands]))
      (by simp [AsyncCapture.signal, hstands, Producer.unpublished])
      (by simp [AsyncCapture.signal, hstands, Producer.closed])
      (by simp [AsyncCapture.signal, hstands, Producer.inFlight]) trivial
  | join destroying =>
    have hopen := hfinished (by simp [hstands])
    have hclosing : capture.closing = true := by rw [h.closing, hstands]; rfl
    refine ⟨pushed, popped, ?_⟩
    simp only [AsyncCapture.stepProducer, hstands]
    split_ifs with hdone hdestroying
    · exact h.moveProducer hopen (by rw [hstands]; rfl) (by rw [hstands]; rfl)
        (by rw [hstands]; rfl) trivial
    · have hreturned := h.returned
      rw [hstands] at hreturned
      exact { h with
        accepted_length := h.accepted_length.trans (by rw [hstands]; rfl)
        closing := hclosing
        finished := fun _ => ⟨Or.inl rfl, hdone⟩
        producer := trivial
        returned := by
          simpa [AsyncCapture.returning, Producer.inFlight, queuedRecords] using hreturned
        finish := fun manifest hmem => by
          rcases List.mem_append.1 hmem with hold | hnew
          · exact h.finish manifest hold
          · exact finishResult_eq_manifest (Return.finish.inj (List.mem_singleton.1 hnew)).symm }
    · exact h

/-! ### Steps of the worker -/

/-- What the caller knows is not lost when the worker gives slots and bytes back. -/
theorem ProducerKnows.mono {next : AsyncCapture} {producer : Producer} {more : ℕ}
    (h : capture.ProducerKnows config popped producer) (hpopped : popped ≤ more)
    (haccepted : next.accepted = capture.accepted)
    (hacceptedBytes : next.acceptedBytes = capture.acceptedBytes)
    (hconsumed : capture.consumedBytes ≤ next.consumedBytes) :
    next.ProducerKnows config more producer := by
  cases producer with
  | loadTail record consumed =>
    obtain ⟨hle, hbudget⟩ := h
    exact ⟨hle.trans hconsumed, hacceptedBytes ▸ hbudget⟩
  | writeSlot record pending =>
    obtain ⟨hroom, hbudget, hlt⟩ := h
    refine ⟨?_, ?_, hacceptedBytes ▸ hlt⟩
    · rw [haccepted]
      omega
    · rw [hacceptedBytes]
      omega
  | _ => trivial

/-- A running worker has no manifest yet. -/
theorem Inv.no_manifest (h : capture.Inv config pushed popped) (hrunning : capture.worker ≠ .done)
    (manifest : SessionManifest) :
    capture.result ≠ some (.manifest manifest) ∧
      .finish (.manifest manifest) ∉ capture.returns :=
  ⟨fun hresult => hrunning (h.manifest manifest hresult).1,
    fun hmem => hrunning (h.manifest manifest (h.finish manifest hmem)).1⟩

/-- The record in the slot of the tail is the next accepted one. -/
theorem Inv.slot_tail (h : capture.Inv config pushed popped) (hstands : capture.worker = .append) :
    capture.accepted[capture.written.length]? = some (capture.slots capture.tail) := by
  have hnext := h.worker
  rw [hstands] at hnext
  have hlength := h.written_length
  simp only [hstands, Worker.unretired, Nat.add_zero] at hlength
  have haccepted := h.accepted_length
  rw [h.tail, ← hlength]
  exact h.holds _ (Nat.le_refl _) (Nat.lt_of_lt_of_le hnext (by omega))

/-- A record is handed to the writer of the session, which may fail. -/
theorem Inv.append (h : capture.Inv config pushed popped) (hstands : capture.worker = .append)
    (outcome : WriterOutcome) : (capture.stepWorker config outcome).Inv config pushed popped := by
  have hslot := h.slot_tail hstands
  have hnext := h.worker
  rw [hstands] at hnext
  have hlength := h.written_length
  simp only [hstands, Worker.unretired, Nat.add_zero] at hlength
  have hconsumed := h.consumedBytes
  simp only [hstands, Worker.unreturned, Nat.add_zero] at hconsumed
  have hrunning : capture.worker ≠ .done := by simp [hstands]
  have hhanded : capture.handed = capture.written := h.handed_written (by rw [hstands]; rfl)
  have hextended := prefix_append_getElem h.written_prefix hslot
  simp only [stepWorker, hstands]
  cases outcome with
  | success manifest =>
    exact { h with
      written_length := by
        rw [List.length_append, hlength]
        rfl
      written_le := by
        rw [List.length_append]
        exact hnext
      holds := by
        have hpop := h.holds.pop (.released (capture.slots capture.tail).record) (by
          have hring := h.ring
          rw [CaptureConfig.slots]
          omega)
        rw [List.length_append, List.length_singleton]
        rwa [hlength, ← h.tail, ← hlength] at hpop
      written_prefix := hextended
      handed_prefix := hhanded ▸ hextended
      handed_written := fun _ => hhanded ▸ rfl
      consumedBytes := by
        rw [CaptureConfig.total_append, CaptureConfig.total_singleton, ← hconsumed]
        rfl
      finished := fun hfinished => absurd (h.finished hfinished).2 hrunning
      worker := trivial
      manifest := fun manifest hresult => absurd hresult (h.no_manifest hrunning manifest).1 }
  | error error =>
    exact { h with
      written_length := hlength
      consumedBytes := hconsumed
      handed_prefix := hhanded ▸ hextended
      handed_written := nofun
      finished := fun hfinished => absurd (h.finished hfinished).2 hrunning
      worker := trivial
      manifest := nofun
      finish := fun manifest hmem => absurd hmem (h.no_manifest hrunning manifest).2 }
  | exception =>
    exact { h with
      written_length := hlength
      consumedBytes := hconsumed
      handed_prefix := hhanded ▸ hextended
      handed_written := nofun
      finished := fun hfinished => absurd (h.finished hfinished).2 hrunning
      worker := trivial
      manifest := fun manifest hresult => absurd hresult (h.no_manifest hrunning manifest).1 }

/-- The bytes of a written record are given back. -/
theorem Inv.storeConsumed (h : capture.Inv config pushed popped) {charge : ℕ}
    (hstands : capture.worker = .storeConsumed charge) (outcome : WriterOutcome) :
    (capture.stepWorker config outcome).Inv config pushed popped := by
  have hlength := h.written_length
  simp only [hstands, Worker.unretired] at hlength
  have hconsumed := h.consumedBytes
  simp only [hstands, Worker.unreturned] at hconsumed
  have hrunning : capture.worker ≠ .done := by simp [hstands]
  have hhanded : capture.handed = capture.written := h.handed_written (by rw [hstands]; rfl)
  have htotal : config.total capture.written ≤ config.total capture.accepted := by
    obtain ⟨rest, hrest⟩ := h.written_prefix
    rw [← hrest, CaptureConfig.total_append]
    exact Nat.le_add_right _ _
  have hsum : wrappingAdd capture.workerConsumed charge = capture.consumedBytes + charge := by
    have hlt := h.acceptedBytes_lt
    rw [h.acceptedBytes] at hlt
    rw [h.workerConsumed]
    exact wrappingAdd_eq (by omega)
  simp only [stepWorker, hstands, hsum]
  exact { h with
    written_length := hlength
    handed_written := fun _ => hhanded
    workerConsumed := rfl
    consumedBytes := hconsumed
    budget := h.budget.trans (by simp only; omega)
    finished := fun hfinished => absurd (h.finished hfinished).2 hrunning
    producer := h.producer.mono (Nat.le_refl _) rfl rfl (Nat.le_add_right _ _)
    worker := trivial
    manifest := fun manifest hresult => absurd hresult (h.no_manifest hrunning manifest).1 }

/-- The slot of a written record is given back. -/
theorem Inv.storeTail (h : capture.Inv config pushed popped) (hstands : capture.worker = .storeTail)
    (outcome : WriterOutcome) :
    (capture.stepWorker config outcome).Inv config pushed (popped + 1) := by
  have hlength := h.written_length
  simp only [hstands, Worker.unretired] at hlength
  have hconsumed := h.consumedBytes
  simp only [hstands, Worker.unreturned] at hconsumed
  have hrunning : capture.worker ≠ .done := by simp [hstands]
  have hhanded : capture.handed = capture.written := h.handed_written (by rw [hstands]; rfl)
  simp only [stepWorker, hstands]
  exact { h with
    tail := by
      rw [h.tail]
      exact ringNext_mod (slots_pos config) popped
    written_length := hlength
    ring := h.ring.trans (by omega)
    handed_written := fun _ => hhanded
    consumedBytes := hconsumed
    finished := fun hfinished => absurd (h.finished hfinished).2 hrunning
    producer := h.producer.mono (Nat.le_succ _) rfl rfl (Nat.le_refl _)
    worker := trivial
    manifest := fun manifest hresult => absurd hresult (h.no_manifest hrunning manifest).1 }

/-- The session is finalized, which may fail. -/
theorem Inv.finalize (h : capture.Inv config pushed popped) (hstands : capture.worker = .finalize)
    (outcome : WriterOutcome) : (capture.stepWorker config outcome).Inv config pushed popped := by
  have hdrained := h.worker
  rw [hstands] at hdrained
  have hlength := h.written_length
  simp only [hstands, Worker.unretired] at hlength
  have hconsumed := h.consumedBytes
  simp only [hstands, Worker.unreturned] at hconsumed
  have hrunning : capture.worker ≠ .done := by simp [hstands]
  simp only [stepWorker, hstands]
  cases outcome with
  | success manifest =>
    exact { h with
      written_length := hlength
      consumedBytes := hconsumed
      handed_written := nofun
      finished := fun hfinished => absurd (h.finished hfinished).2 hrunning
      worker := trivial
      manifest := fun _ _ => ⟨rfl, hdrained⟩
      finish := fun manifest hmem => absurd hmem (h.no_manifest hrunning manifest).2 }
  | error error =>
    exact { h with
      written_length := hlength
      consumedBytes := hconsumed
      handed_written := nofun
      finished := fun hfinished => absurd (h.finished hfinished).2 hrunning
      worker := trivial
      manifest := nofun
      finish := fun manifest hmem => absurd hmem (h.no_manifest hrunning manifest).2 }
  | exception =>
    exact { h with
      written_length := hlength
      consumedBytes := hconsumed
      handed_written := nofun
      finished := fun hfinished => absurd (h.finished hfinished).2 hrunning
      worker := trivial
      manifest := fun manifest hresult => absurd hresult (h.no_manifest hrunning manifest).1 }

/-- A worker that found the ring empty after it had seen the closing flag has written everything:
the flag was set after the last record was published. -/
theorem Inv.drained (h : capture.Inv config pushed popped) {epoch : ℕ}
    (hstands : capture.worker = .loadHead epoch true) (hempty : capture.tail = capture.head) :
    capture.Drained := by
  have hknows := h.worker
  rw [hstands] at hknows
  obtain ⟨hclosing, hfailure⟩ := hknows rfl
  have hlength := h.written_length
  simp only [hstands, Worker.unretired, Nat.add_zero] at hlength
  have hunpublished : capture.producer.unpublished = 0 := by
    have hclosed := h.closing
    cases hproducer : capture.producer with
    | storeHead record =>
      rw [hproducer, hclosing] at hclosed
      cases hclosed
    | _ => rfl
  have haccepted := h.accepted_length
  rw [hunpublished, Nat.add_zero] at haccepted
  have hring := h.ring
  have hle := h.written_le
  rw [h.tail, h.head] at hempty
  have hcount : popped = pushed :=
    (mod_eq_mod_iff (by omega) (by rw [CaptureConfig.slots]; omega)).1 hempty
  exact ⟨hclosing, hfailure, h.written_prefix.eq_of_length (by omega)⟩

/-- A worker that found the ring not empty has a record to write. -/
theorem Inv.written_lt (h : capture.Inv config pushed popped) {epoch : ℕ} {closing : Bool}
    (hstands : capture.worker = .loadHead epoch closing) (hne : capture.tail ≠ capture.head) :
    capture.written.length < pushed := by
  have hlength := h.written_length
  simp only [hstands, Worker.unretired, Nat.add_zero] at hlength
  refine Nat.lt_of_le_of_ne h.written_le fun heq => hne ?_
  rw [h.tail, h.head, ← hlength, heq]

/-- Every step of the worker keeps the invariant. -/
theorem Safe.stepWorker (h : capture.Safe config) (outcome : WriterOutcome) :
    (capture.stepWorker config outcome).Safe config := by
  obtain ⟨pushed, popped, h⟩ := h
  have hworker := h.worker
  cases hstands : capture.worker with
  | append => exact ⟨pushed, popped, h.append hstands outcome⟩
  | storeConsumed charge => exact ⟨pushed, popped, h.storeConsumed hstands outcome⟩
  | storeTail => exact ⟨pushed, popped + 1, h.storeTail hstands outcome⟩
  | finalize => exact ⟨pushed, popped, h.finalize hstands outcome⟩
  | done => exact ⟨pushed, popped, by simpa only [AsyncCapture.stepWorker, hstands] using h⟩
  | loadEpoch =>
    refine ⟨pushed, popped, ?_⟩
    simp only [AsyncCapture.stepWorker, hstands]
    exact h.moveWorker (by rw [hstands]; rfl) (by rw [hstands]; rfl) (by rw [hstands]; rfl) trivial
  | loadClosing epoch =>
    refine ⟨pushed, popped, ?_⟩
    simp only [AsyncCapture.stepWorker, hstands]
    exact h.moveWorker (by rw [hstands]; rfl) (by rw [hstands]; rfl) (by rw [hstands]; rfl) id
  | loadFailure epoch closing =>
    rw [hstands] at hworker
    refine ⟨pushed, popped, ?_⟩
    simp only [AsyncCapture.stepWorker, hstands]
    split_ifs with hfailure
    · exact h.moveWorker (by rw [hstands]; rfl) (by rw [hstands]; rfl)
        (by rw [hstands]; rfl) trivial
    · exact h.moveWorker (by rw [hstands]; rfl) (by rw [hstands]; rfl) (by rw [hstands]; rfl)
        fun hclosing => ⟨hworker hclosing, not_not.1 hfailure⟩
  | loadHead epoch closing =>
    refine ⟨pushed, popped, ?_⟩
    simp only [AsyncCapture.stepWorker, hstands]
    split_ifs with hempty hclosing
    · rw [hclosing] at hstands
      exact h.moveWorker (by rw [hstands]; rfl) (by rw [hstands]; rfl) (by rw [hstands]; rfl)
        (h.drained hstands hempty)
    · exact h.moveWorker (by rw [hstands]; rfl) (by rw [hstands]; rfl)
        (by rw [hstands]; rfl) trivial
    · exact h.moveWorker (by rw [hstands]; rfl) (by rw [hstands]; rfl) (by rw [hstands]; rfl)
        (h.written_lt hstands hempty)
  | wait epoch =>
    refine ⟨pushed, popped, ?_⟩
    simp only [AsyncCapture.stepWorker, hstands]
    split_ifs
    · exact h.moveWorker (by rw [hstands]; rfl) (by rw [hstands]; rfl)
        (by rw [hstands]; rfl) trivial
    · exact h
  | storeWritten =>
    refine ⟨pushed, popped, ?_⟩
    simp only [AsyncCapture.stepWorker, hstands]
    have hmoved : Inv config { capture with worker := .loadEpoch } pushed popped :=
      h.moveWorker (by rw [hstands]; rfl) (by rw [hstands]; rfl) (by rw [hstands]; rfl) trivial
    exact { hmoved with }
  | recordFailed =>
    refine ⟨pushed, popped, ?_⟩
    have hlength := h.written_length
    simp only [hstands, Worker.unretired] at hlength
    have hconsumed := h.consumedBytes
    simp only [hstands, Worker.unreturned] at hconsumed
    have hrunning : capture.worker ≠ .done := by simp [hstands]
    have hnone := h.no_manifest hrunning
    simp only [AsyncCapture.stepWorker, hstands]
    unfold AsyncCapture.fail
    split_ifs with hfailure
    · exact { h with
        written_length := hlength
        consumedBytes := hconsumed
        handed_written := nofun
        finished := fun hfinished => absurd (h.finished hfinished).2 hrunning
        worker := trivial
        manifest := fun manifest hresult => absurd hresult (hnone manifest).1 }
    · exact { h with
        written_length := hlength
        consumedBytes := hconsumed
        handed_written := nofun
        finished := fun hfinished => absurd (h.finished hfinished).2 hrunning
        worker := trivial
        manifest := fun manifest hresult => absurd hresult (hnone manifest).1 }

/-! ### Whole runs -/

/-- Every step keeps the invariant. -/
theorem Safe.step (h : capture.Safe config) (action : Action) :
    (capture.step config action).Safe config := by
  cases action with
  | producer => exact h.stepProducer
  | worker outcome => exact h.stepWorker outcome
  | append record =>
    cases hstands : capture.producer with
    | idle =>
      obtain ⟨pushed, popped, h⟩ := h
      refine ⟨pushed, popped, ?_⟩
      simp only [AsyncCapture.step, hstands]
      split_ifs with hfinished
      · exact h.returning _ (by rw [hstands]; rfl) (by rw [hstands]; rfl)
          (by rw [hstands]; rfl) nofun
      · have hopen := Bool.eq_false_iff.2 hfinished
        exact h.moveProducer hopen (by rw [hstands]; rfl) (by rw [hstands]; rfl)
          (by rw [hstands]; rfl) trivial
    | _ => simpa only [AsyncCapture.step, hstands] using h
  | finish =>
    cases hstands : capture.producer with
    | idle =>
      obtain ⟨pushed, popped, h⟩ := h
      refine ⟨pushed, popped, ?_⟩
      simp only [AsyncCapture.step, hstands]
      split_ifs with hfinished
      · exact h.returning _ (by rw [hstands]; rfl) (by rw [hstands]; rfl) (by rw [hstands]; rfl)
          fun manifest hvalue => finishResult_eq_manifest (Return.finish.inj hvalue)
      · exact h.moveProducer (Bool.eq_false_iff.2 hfinished) (by rw [hstands]; rfl)
          (by rw [hstands]; rfl) (by rw [hstands]; rfl) trivial
    | _ => simpa only [AsyncCapture.step, hstands] using h
  | destroy =>
    cases hstands : capture.producer with
    | idle =>
      obtain ⟨pushed, popped, h⟩ := h
      refine ⟨pushed, popped, ?_⟩
      simp only [AsyncCapture.step, hstands]
      split_ifs with hfinished
      · have hlength := h.accepted_length
        simp only [hstands, Producer.unpublished] at hlength
        have hclosing := h.closing
        simp only [hstands, Producer.closed, hfinished] at hclosing
        have hreturned := h.returned
        simp only [hstands, Producer.inFlight] at hreturned
        exact { h with
          accepted_length := hlength
          closing := hclosing
          finished := fun _ => ⟨Or.inr rfl, (h.finished hfinished).2⟩
          producer := trivial
          returned := hreturned }
      · exact h.moveProducer (Bool.eq_false_iff.2 hfinished) (by rw [hstands]; rfl)
          (by rw [hstands]; rfl) (by rw [hstands]; rfl) trivial
    | _ => simpa only [AsyncCapture.step, hstands] using h

/-- The capture after the actions. -/
def after (config : CaptureConfig) (actions : List Action) : AsyncCapture :=
  run (step config) {} actions

theorem safe_after (config : CaptureConfig) (actions : List Action) :
    (after config actions).Safe config :=
  run_invariant (fun _ action _ h => h.step action) (safe_initial config)

/-- A recorded failure stays. -/
theorem failure_step (hfailure : capture.failure ≠ .queued) (action : Action) :
    (capture.step config action).failure = capture.failure := by
  have hfail (reason : CaptureAppendResult) : capture.fail reason = capture := if_neg hfailure
  cases action with
  | producer =>
    simp only [step, stepProducer, hfail]
    split <;> (try split_ifs) <;> rfl
  | worker outcome =>
    simp only [step, stepWorker, hfail]
    split <;> (try split_ifs) <;> (try cases outcome) <;> rfl
  | append record =>
    simp only [step]
    split <;> (try split_ifs) <;> rfl
  | finish =>
    simp only [step]
    split <;> (try split_ifs) <;> rfl
  | destroy =>
    simp only [step]
    split <;> (try split_ifs) <;> rfl

/-- A failure is recorded and no call is in progress that has passed the check for it. -/
def Refusing (capture : AsyncCapture) : Prop :=
  capture.failure ≠ .queued ∧ capture.producer.pastCheck = false

/-- A capture that refuses records accepts none and goes on to refuse. -/
theorem Refusing.step (h : capture.Refusing) (config : CaptureConfig) (action : Action) :
    (capture.step config action).Refusing ∧
      (capture.step config action).accepted = capture.accepted := by
  obtain ⟨hfailure, hstands⟩ := h
  have hfail (reason : CaptureAppendResult) : capture.fail reason = capture := if_neg hfailure
  have hgoal : (capture.step config action).producer.pastCheck = false ∧
      (capture.step config action).accepted = capture.accepted := by
    cases action with
    | worker outcome =>
      simp only [AsyncCapture.step, stepWorker, hfail]
      split <;> (try split_ifs) <;> (try cases outcome) <;> exact ⟨hstands, rfl⟩
    | producer =>
      simp only [AsyncCapture.step, stepProducer, hfail]
      cases hproducer : capture.producer with
      | loadFailure record =>
        simp only [ne_eq, hfailure, not_false_eq_true, if_true]
        exact ⟨rfl, rfl⟩
      | join destroying =>
        simp only
        split_ifs
        · exact ⟨rfl, rfl⟩
        · exact ⟨rfl, rfl⟩
        · exact ⟨hstands, rfl⟩
      | idle => exact ⟨hstands, rfl⟩
      | destroyed => exact ⟨hstands, rfl⟩
      | recordClosed => exact ⟨rfl, rfl⟩
      | storeClosing destroying => exact ⟨rfl, rfl⟩
      | signalClosing destroying => exact ⟨rfl, rfl⟩
      | _ => simp [hproducer, Producer.pastCheck] at hstands
    | _ =>
      simp only [AsyncCapture.step]
      cases hproducer : capture.producer with
      | idle =>
        simp only
        split_ifs <;> exact ⟨rfl, rfl⟩
      | _ => exact ⟨hstands, rfl⟩
  exact ⟨⟨(failure_step hfailure action).symm ▸ hfailure, hgoal.1⟩, hgoal.2⟩

theorem Refusing.run (h : capture.Refusing) (config : CaptureConfig) (actions : List Action) :
    (run (AsyncCapture.step config) capture actions).accepted = capture.accepted :=
  (run_invariant (P := fun next : AsyncCapture => next.Refusing ∧ next.accepted = capture.accepted)
    (fun _ action _ hnext =>
      ⟨(hnext.1.step config action).1, (hnext.1.step config action).2.trans hnext.2⟩)
    ⟨h, rfl⟩).2

/-- The records whose slots were given back. -/
def retired (capture : AsyncCapture) : ℕ := capture.written.length - capture.worker.unretired

/-- **Safety of the capture.** After any interleaving of the steps of the caller and the worker:
the records that were handed to the writer of the session are a prefix of the accepted ones, which
are those whose append returned, or is about to return, that they are queued; the bytes that are
accepted but not consumed stay within the limit, and so do the accepted records whose slots were
not given back; once a failure is recorded, no later call accepts a record; and a manifest is
returned only when no failure was ever recorded and every accepted record was written. -/
theorem capture_safe (config : CaptureConfig) (actions : List Action) :
    (after config actions).handed <+: (after config actions).accepted ∧
    (after config actions).accepted = queuedRecords (after config actions).returns ++
      (after config actions).producer.inFlight ∧
    ((after config actions).acceptedBytes = config.total (after config actions).accepted ∧
      (after config actions).consumedBytes ≤ config.total (after config actions).written ∧
      (after config actions).acceptedBytes ≤
        (after config actions).consumedBytes + config.limits.retainedBytes) ∧
    ((after config actions).accepted.length ≤
        (after config actions).retired + config.limits.records ∧
      RingHolds config.slots (after config actions).slots (after config actions).accepted
        (after config actions).written.length) ∧
    ((after config actions).failure ≠ .queued → (after config actions).producer = .idle →
      ∀ later, (after config (actions ++ later)).accepted = (after config actions).accepted) ∧
    ∀ manifest, .finish (.manifest manifest) ∈ (after config actions).returns →
      (after config actions).written = (after config actions).accepted ∧
      ∀ past, past <+: actions → (after config past).failure = .queued := by
  obtain ⟨pushed, popped, h⟩ := safe_after config actions
  have hlength := h.written_length
  have hring := h.ring
  refine ⟨h.handed_prefix, h.returned.symm, ⟨h.acceptedBytes, ?_, h.budget⟩, ⟨?_, h.holds⟩,
    fun hfailure hidle later => ?_, fun manifest hmem => ?_⟩
  · exact (Nat.le_add_right _ _).trans h.consumedBytes.le
  · unfold retired
    omega
  · have hrefusing : (after config actions).Refusing := ⟨hfailure, by rw [hidle]; rfl⟩
    rw [after, run_append]
    exact hrefusing.run config later
  · obtain ⟨-, -, hqueued, hwritten⟩ := h.manifest manifest (h.finish manifest hmem)
    refine ⟨hwritten, fun past hpast => ?_⟩
    obtain ⟨rest, rfl⟩ := hpast
    by_contra hfailure
    have hstays := (run_invariant (P := fun next : AsyncCapture => next.failure ≠ .queued)
      (fun _ action _ hnext => (@failure_step config _ hnext action).symm ▸ hnext)
      hfailure : (run (step config) (after config past) rest).failure ≠ .queued)
    rw [after, run_append] at hqueued
    exact hstays hqueued

/-! ### A schedule -/

/-- Two slots of which one can be filled. -/
def sampleConfig : CaptureConfig := ⟨⟨1, 1024⟩, 200, by decide⟩

def sampleRecord : QueuedRecord := ⟨⟨2, 1, 1, 0, 0, 7, none, [0x62], [0x7b]⟩, 15, 15⟩

/-- One record is appended and written, and then the capture is finished. -/
def sampleActions : List Action :=
  .append sampleRecord :: List.replicate 6 .producer ++
    List.replicate 8 (.worker (.success ⟨1, ⟨0, ""⟩, ⟨0, ""⟩, 1⟩)) ++
    .finish :: List.replicate 2 .producer ++
    List.replicate 5 (.worker (.success ⟨1, ⟨0, ""⟩, ⟨0, ""⟩, 1⟩)) ++ [.producer]

/-- The schedule ends with a manifest, so its record was written. -/
theorem capture_safe_sample :
    (after sampleConfig sampleActions).written = [sampleRecord] ∧
      ∀ past, past <+: sampleActions → (after sampleConfig past).failure = .queued := by
  have haccepted : (after sampleConfig sampleActions).accepted = [sampleRecord] := by decide
  have hmanifest : .finish (.manifest ⟨1, ⟨0, ""⟩, ⟨0, ""⟩, 1⟩) ∈
      (after sampleConfig sampleActions).returns := by decide
  obtain ⟨-, -, -, -, -, hfinish⟩ := capture_safe sampleConfig sampleActions
  exact ⟨(hfinish _ hmanifest).1.trans haccepted, (hfinish _ hmanifest).2⟩

end AsyncCapture

end EventMarket.Session
