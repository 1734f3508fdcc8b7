import Mathlib.Algebra.BigOperators.Group.List.Basic
import Mathlib.Tactic.Common

/-!
# Logs of framed items

A log is a sequence of frames, one for each item. A reader takes one frame after the other from
the front and stops for a reason. When it reads back every whole frame, is done at the end of the
bytes and recognises every cut inside a frame, then it reads back whole logs, and of a cut log
exactly the items whose frames are complete.

## Main definitions

* `Reader`, `Reader.readAll`: one step of a reader, and all of them.
* `frames`, `boundary`: the bytes of a log, and where its frames end.
* `Framing`: the laws of the reader.

## Main results

* `Framing.readAll_frames`: a log is read back.
* `Framing.readAll_take`: what is read from a cut log.
-/

namespace EventMarket.Foundations

variable {α β ε : Type*}

/-- A reader takes an item and leaves the rest, or stops. -/
inductive ReadOutcome (α β ε : Type*) where
  | item (value : α) (rest : List β)
  | stop (reason : ε)

/-- A reader of items. The index counts the items read before; an item takes at least one byte. -/
structure Reader (α β ε : Type*) where
  read : ℕ → List β → ReadOutcome α β ε
  progress : ∀ {index bytes value rest}, read index bytes = .item value rest →
    rest.length < bytes.length

/-- All items until the reader stops, and why it does. -/
def Reader.readAll (reader : Reader α β ε) (index : ℕ) (bytes : List β) : List α × ε :=
  match _h : reader.read index bytes with
  | .stop reason => ([], reason)
  | .item value rest =>
    let (values, reason) := reader.readAll (index + 1) rest
    (value :: values, reason)
termination_by bytes.length
decreasing_by exact reader.progress _h

theorem Reader.readAll_of_stop {reader : Reader α β ε} {index : ℕ} {bytes : List β} {reason : ε}
    (h : reader.read index bytes = .stop reason) : reader.readAll index bytes = ([], reason) := by
  rw [readAll]
  split
  · simp_all
  · simp_all

theorem Reader.readAll_of_item {reader : Reader α β ε} {index : ℕ} {bytes rest : List β}
    {value : α} (h : reader.read index bytes = .item value rest) :
    reader.readAll index bytes =
      (value :: (reader.readAll (index + 1) rest).1, (reader.readAll (index + 1) rest).2) := by
  rw [readAll]
  split
  · simp_all
  · simp_all

/-- The bytes of a log. -/
def frames (frame : α → List β) (items : List α) : List β := items.flatMap frame

/-- The end of the first `count` frames. -/
def boundary (frame : α → List β) (items : List α) (count : ℕ) : ℕ :=
  (frames frame (items.take count)).length

@[simp] theorem frames_nil (frame : α → List β) : frames frame [] = [] := rfl

@[simp] theorem frames_cons (frame : α → List β) (item : α) (items : List α) :
    frames frame (item :: items) = frame item ++ frames frame items := rfl

@[simp] theorem frames_append (frame : α → List β) (items more : List α) :
    frames frame (items ++ more) = frames frame items ++ frames frame more := by
  simp [frames]

@[simp] theorem boundary_zero (frame : α → List β) (items : List α) :
    boundary frame items 0 = 0 := by
  simp [boundary]

@[simp] theorem boundary_cons_succ (frame : α → List β) (item : α) (items : List α) (count : ℕ) :
    boundary frame (item :: items) (count + 1) =
      (frame item).length + boundary frame items count := by
  simp [boundary]

theorem boundary_le_boundary (frame : α → List β) (items : List α) {less more : ℕ}
    (h : less ≤ more) : boundary frame items less ≤ boundary frame items more := by
  have hsplit := List.take_append_drop less (items.take more)
  rw [List.take_take, Nat.min_eq_left h] at hsplit
  rw [boundary, boundary, ← hsplit, frames_append, List.length_append]
  exact Nat.le_add_right _ _

/-- No frame ends strictly between the ends of two successive frames. -/
theorem eq_boundary_of_between {frame : α → List β} {items : List α} {count other n : ℕ}
    (hle : boundary frame items count ≤ n) (hlt : n < boundary frame items (count + 1))
    (heq : n = boundary frame items other) : n = boundary frame items count := by
  rcases Nat.lt_or_ge count other with hless | hge
  · have := boundary_le_boundary frame items (show count + 1 ≤ other from hless)
    omega
  · have := boundary_le_boundary frame items hge
    omega

/-- The laws of a reader of frames: whole frames are read back, the end of the bytes is the end of
the log, and a cut inside a frame is recognised. -/
structure Framing (reader : Reader α β ε) (frame : α → List β) (Valid : α → Prop) (done : ε)
    (cut : ℕ → ε) : Prop where
  read_frame : ∀ index item rest, Valid item →
    reader.read index (frame item ++ rest) = .item item rest
  read_nil : ∀ index, reader.read index [] = .stop done
  read_cut : ∀ index item n, Valid item → 0 < n → n < (frame item).length →
    reader.read index ((frame item).take n) = .stop (cut index)

namespace Framing

variable {reader : Reader α β ε} {frame : α → List β} {Valid : α → Prop} {done : ε} {cut : ℕ → ε}

theorem frame_pos (h : Framing reader frame Valid done cut) {item : α} (hvalid : Valid item) :
    0 < (frame item).length := by
  have hprogress := reader.progress (h.read_frame 0 item [] hvalid)
  simpa using hprogress

/-- **A log is read back.** -/
theorem readAll_frames (h : Framing reader frame Valid done cut) {items : List α}
    (hvalid : ∀ item ∈ items, Valid item) (index : ℕ) :
    reader.readAll index (frames frame items) = (items, done) := by
  induction items generalizing index with
  | nil => exact Reader.readAll_of_stop (h.read_nil index)
  | cons item items ih =>
    simp only [List.forall_mem_cons] at hvalid
    rw [frames_cons, Reader.readAll_of_item (h.read_frame index item _ hvalid.1),
      ih hvalid.2 (index + 1)]

/-- **A cut log.** The items whose frames are complete are read; at the end of a frame the log
ends there, and inside a frame the cut is recognised. -/
theorem readAll_take (h : Framing reader frame Valid done cut) {items : List α}
    (hvalid : ∀ item ∈ items, Valid item) (index : ℕ) {n : ℕ}
    (hn : n < (frames frame items).length) :
    ∃ count < items.length, boundary frame items count ≤ n ∧ n < boundary frame items (count + 1) ∧
      (n = boundary frame items count →
        reader.readAll index ((frames frame items).take n) = (items.take count, done)) ∧
      (n ≠ boundary frame items count →
        reader.readAll index ((frames frame items).take n) =
          (items.take count, cut (index + count))) := by
  induction items generalizing index n with
  | nil => simp at hn
  | cons item items ih =>
    simp only [List.forall_mem_cons] at hvalid
    rw [frames_cons, List.length_append] at hn
    rcases Nat.lt_or_ge n (frame item).length with hless | hge
    · -- The cut is at the start of the first frame or inside it.
      refine ⟨0, Nat.succ_pos _, by simp, by simpa using hless, ?_, ?_⟩
      · rintro rfl
        simpa using Reader.readAll_of_stop (h.read_nil index)
      · intro hn0
        rw [boundary_zero] at hn0
        rw [frames_cons, List.take_append_of_le_length (Nat.le_of_lt hless)]
        simpa using Reader.readAll_of_stop
          (h.read_cut index item n hvalid.1 (Nat.pos_of_ne_zero hn0) hless)
    · obtain ⟨count, hcount, hle, hlt, hend, hcut⟩ :=
        ih hvalid.2 (index + 1) (n := n - (frame item).length) (by omega)
      have htake : (frames frame (item :: items)).take n =
          frame item ++ (frames frame items).take (n - (frame item).length) := by
        rw [frames_cons, List.take_append, List.take_of_length_le hge]
      have hread := Reader.readAll_of_item (h.read_frame index item
        ((frames frame items).take (n - (frame item).length)) hvalid.1)
      refine ⟨count + 1, Nat.succ_lt_succ hcount, ?_, ?_, ?_, ?_⟩
      · rw [boundary_cons_succ]
        omega
      · rw [boundary_cons_succ]
        omega
      · intro heq
        rw [boundary_cons_succ] at heq
        rw [htake, hread, hend (by omega), List.take_succ_cons]
      · intro hne
        rw [boundary_cons_succ] at hne
        rw [htake, hread, hcut (by omega), List.take_succ_cons, Nat.add_assoc,
          Nat.add_comm 1 count]

end Framing

end EventMarket.Foundations
