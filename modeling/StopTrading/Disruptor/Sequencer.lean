import StopTrading.Library.MachineInt

/-!
# The sequencer of the disruptor

`Sequencer` hands out sequence numbers to producers (`next`, `try_next`) and
makes them visible to consumers (`publish`); `SequenceBarrier` is what consumers
ask.  The six counters of the sequencer are atomics, so each function is given
twice, in one vocabulary:

* the **atomic operations** on the counters (`claim`, `addPending`,
  `storeCursor`, …), which the interleaved model of producers runs one at a time;
* the **calls** (`next`, `tryNext`, `publish`) as the compositions of atomic
  operations that a caller performs alone.

Counters are `u64` values: natural numbers below `2 ^ 64`, with arithmetic that
wraps.

`publish` subtracts one from the pending count and then stores what it has read before, less one,
unless that was zero.  Alone both come to the same, and the second corrects the first where it
would wrap (`publish_eq`).  With a second producer in between, the store would undo what that one
has counted; only results about a single producer speak of this counter.
-/

namespace StopTrading.Disruptor

/-- `Sequencer`. -/
structure Sequencer where
  cursor : Nat
  nextSequence : Nat
  bufferMask : Nat
  isRunning : Bool
  pendingCount : Nat
  totalPublished : Nat
  backpressureEvents : Nat
  deriving Repr, DecidableEq

namespace Sequencer

/-- `Sequencer::new`. -/
def new : Sequencer where
  cursor := 0
  nextSequence := 1
  bufferMask := 1023
  isRunning := false
  pendingCount := 0
  totalPublished := 0
  backpressureEvents := 0

/-- `set_buffer_mask`. -/
def setBufferMask (s : Sequencer) (mask : Nat) : Sequencer :=
  { s with bufferMask := mask }

/-- `start`. -/
def start (s : Sequencer) : Sequencer :=
  { s with isRunning := true }

/-- `stop`. -/
def stop (s : Sequencer) : Sequencer :=
  { s with isRunning := false }

/-! ## Atomic operations -/

/-- `next_sequence.fetch_add(batch_size)`. -/
def claim (s : Sequencer) (batchSize : Nat) : Sequencer :=
  { s with nextSequence := (s.nextSequence + batchSize) % 2 ^ 64 }

/-- `pending_count.fetch_add(batch_size)`. -/
def addPending (s : Sequencer) (batchSize : Nat) : Sequencer :=
  { s with pendingCount := (s.pendingCount + batchSize) % 2 ^ 64 }

/-- `backpressure_events.fetch_add(1)`. -/
def countBackpressure (s : Sequencer) : Sequencer :=
  { s with backpressureEvents := (s.backpressureEvents + 1) % 2 ^ 64 }

/-- `cursor.store(sequence)`. -/
def storeCursor (s : Sequencer) (sequence : Nat) : Sequencer :=
  { s with cursor := sequence }

/-- `pending_count.fetch_sub(1)`, which wraps below zero. -/
def subPending (s : Sequencer) : Sequencer :=
  { s with pendingCount := MachineInt.u64 (s.pendingCount - 1) }

/-- The store that follows the subtraction: `pending` is the value read there. -/
def fixPending (s : Sequencer) (pending : Nat) : Sequencer :=
  if pending > 0 then { s with pendingCount := pending - 1 } else s

/-- `total_published.fetch_add(1)`. -/
def countPublished (s : Sequencer) : Sequencer :=
  { s with totalPublished := (s.totalPublished + 1) % 2 ^ 64 }

/-! ## Calls -/

/-- `next`. -/
def next (s : Sequencer) (batchSize : Nat) : Option Nat × Sequencer :=
  if s.isRunning then
    (some s.nextSequence, (s.claim batchSize).addPending batchSize)
  else (none, s)

/-- `try_next`. -/
def tryNext (s : Sequencer) (batchSize : Nat) : Option Nat × Sequencer :=
  if s.isRunning then
    if s.pendingCount > s.bufferMask then (none, s.countBackpressure)
    else (some s.nextSequence, (s.claim batchSize).addPending batchSize)
  else (none, s)

/-- `publish`. -/
def publish (s : Sequencer) (sequence : Nat) : Sequencer :=
  (((s.storeCursor sequence).subPending).fixPending s.pendingCount).countPublished

/-- Counting does not move the cursor, -/
@[simp] theorem cursor_fixPending (s : Sequencer) (pending : Nat) :
    (s.fixPending pending).cursor = s.cursor := by
  unfold fixPending
  split <;> rfl

/-- nor the next number. -/
@[simp] theorem nextSequence_fixPending (s : Sequencer) (pending : Nat) :
    (s.fixPending pending).nextSequence = s.nextSequence := by
  unfold fixPending
  split <;> rfl

/-- **What a lone `publish` does**: the number becomes the cursor, and one pending
publication less is counted. -/
theorem publish_eq (s : Sequencer) (sequence : Nat) :
    s.publish sequence =
      { s with
        cursor := sequence
        pendingCount :=
          if s.pendingCount > 0 then s.pendingCount - 1 else MachineInt.u64 (s.pendingCount - 1)
        totalPublished := (s.totalPublished + 1) % 2 ^ 64 } := by
  unfold publish fixPending
  split <;> rfl

end Sequencer

/-! ## Barriers -/

/-- `BarrierError`. -/
inductive BarrierError where
  | alerted
  | timeout
  | notAvailable
  deriving Repr, DecidableEq

/-- `SequenceBarrier`: the cursor it reads belongs to the sequencer and is passed
to the call. -/
structure SequenceBarrier where
  dependencies : List Nat
  alerted : Bool
  deriving Repr, DecidableEq

namespace SequenceBarrier

/-- `Sequencer::create_barrier`. -/
def new : SequenceBarrier := ⟨[], false⟩

/-- The least of the cursor and the dependencies. -/
def available (b : SequenceBarrier) (cursor : Nat) : Nat :=
  b.dependencies.foldl (fun available dep => if dep < available then dep else available) cursor

/-- `try_wait_for`. -/
def tryWaitFor (b : SequenceBarrier) (cursor sequence : Nat) : Except BarrierError Nat :=
  if b.alerted then .error .alerted
  else if b.available cursor ≥ sequence then .ok (b.available cursor)
  else .error .notAvailable

/-- An answer is not beyond the cursor. -/
theorem available_le (b : SequenceBarrier) (cursor : Nat) : b.available cursor ≤ cursor := by
  unfold available
  induction b.dependencies generalizing cursor with
  | nil => exact Nat.le_refl _
  | cons dep deps ih =>
      rw [List.foldl_cons]
      refine Nat.le_trans (ih _) ?_
      split
      · exact Nat.le_of_lt ‹_›
      · exact Nat.le_refl _

/-- **A barrier never answers beyond the cursor.** -/
theorem le_cursor_of_tryWaitFor {b : SequenceBarrier} {cursor sequence a : Nat}
    (h : b.tryWaitFor cursor sequence = .ok a) : a ≤ cursor := by
  unfold tryWaitFor at h
  split at h
  · cases h
  · split at h
    · rw [← Except.ok.inj h]
      exact b.available_le cursor
    · cases h

/-- A fresh barrier answers with the cursor itself. -/
theorem tryWaitFor_new (cursor : Nat) : new.tryWaitFor cursor cursor = .ok cursor := by
  simp [tryWaitFor, new, available]

end SequenceBarrier

end StopTrading.Disruptor
