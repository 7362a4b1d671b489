import StopTrading.Disruptor.Sequencer

/-!
# The ring buffer and the disruptor

`RingBuffer` holds the events: a sequence number selects its slot by the mask.
Its constructor accepts powers of two only, which is a field of the structure, as
are the number of slots and the mask; so the slot of a sequence number is always
one of the ring's (`index_lt`) and is the number modulo the size (`index_eq`).

`Disruptor` puts a sequencer in front of the ring.  The calls of this file are
made one after another; each returns its answer and the disruptor after it.

Two details of the source shape everything that follows.

* The ring has a cursor of its own, which no call of the disruptor moves.  The
  capacity the ring computes is therefore a function of a cursor that stays
  where it was; `room` is the same computation on the sequencer's cursor.
* The sequencer's count of pending publications is back at zero after every
  publication.
-/

namespace StopTrading.Disruptor

variable {E : Type}

/-- `RingBuffer<E>`. -/
structure RingBuffer (E : Type) where
  slots : List E
  size : Nat
  mask : Nat
  gateSequence : Nat
  cursor : Nat
  /-- the assertion of `new` -/
  size_powerOfTwo : size > 0 ∧ size &&& (size - 1) = 0
  length_slots : slots.length = size
  mask_eq : mask = size - 1

namespace RingBuffer

/-- `RingBuffer::new`; `none` is the failed assertion. -/
def new (event : E) (size : Nat) : Option (RingBuffer E) :=
  if h : size > 0 ∧ size &&& (size - 1) = 0 then
    some
      { slots := List.replicate size event
        size := size
        mask := size - 1
        gateSequence := 0
        cursor := 0
        size_powerOfTwo := h
        length_slots := List.length_replicate
        mask_eq := rfl }
  else none

/-- `calculate_index`. -/
def index (r : RingBuffer E) (sequence : Nat) : Nat :=
  sequence &&& r.mask

/-- `get_mut(sequence)`, handed to the writer `f` of the event. -/
def write (r : RingBuffer E) (sequence : Nat) (f : E → E) : RingBuffer E :=
  { r with
    slots := r.slots.modify (r.index sequence) f
    length_slots := (List.length_modify ..).trans r.length_slots }

/-- `update_gate_sequence`. -/
def updateGateSequence (r : RingBuffer E) (consumers : List Nat) : RingBuffer E :=
  match consumers.min? with
  | none => r
  | some minSeq => { r with gateSequence := minSeq }

/-- `remaining_capacity`. -/
def remainingCapacity (r : RingBuffer E) : Nat :=
  r.size - (if r.cursor ≥ r.gateSequence then r.cursor - r.gateSequence else 0)

/-- `has_available_events`. -/
def hasAvailableEvents (r : RingBuffer E) (consumerSeq : Nat) : Bool :=
  r.cursor > consumerSeq

/-- **The slot of a sequence number** is the number modulo the size. -/
theorem index_eq (r : RingBuffer E) (sequence : Nat) : r.index sequence = sequence % r.size := by
  obtain ⟨k, hk⟩ := (Nat.ne_zero_and_sub_one_eq_zero_iff_isPowerOfTwo).mp
    ⟨Nat.ne_of_gt r.size_powerOfTwo.1, r.size_powerOfTwo.2⟩
  rw [index, r.mask_eq, hk]
  exact Nat.and_two_pow_sub_one_eq_mod sequence k

/-- Every sequence number has a slot. -/
theorem index_lt (r : RingBuffer E) (sequence : Nat) : r.index sequence < r.slots.length := by
  rw [index_eq, r.length_slots]
  exact Nat.mod_lt _ r.size_powerOfTwo.1

/-- **A write touches its own slot only.** -/
theorem getElem?_write (r : RingBuffer E) (sequence q : Nat) (f : E → E)
    (h : r.index q ≠ r.index sequence) :
    (r.write sequence f).slots[r.index q]? = r.slots[r.index q]? :=
  List.getElem?_modify_ne f r.slots (Ne.symm h)

/-- Fewer numbers apart than there are slots means different slots. -/
theorem index_ne (r : RingBuffer E) {q sequence : Nat} (hlt : q < sequence)
    (hnear : sequence < q + r.size) : r.index q ≠ r.index sequence := by
  rw [index_eq, index_eq]
  intro h
  have hdvd : r.size ∣ sequence - q :=
    Nat.dvd_of_mod_eq_zero (Nat.sub_mod_eq_zero_of_mod_eq h.symm)
  have := Nat.le_of_dvd (Nat.sub_pos_of_lt hlt) hdvd
  omega

/-- A whole turn apart means the same slot. -/
theorem index_sub_size (r : RingBuffer E) {sequence : Nat} (h : r.size ≤ sequence) :
    r.index (sequence - r.size) = r.index sequence := by
  rw [index_eq, index_eq, ← Nat.mod_eq_sub_mod h]

end RingBuffer

/-! ## The disruptor -/

/-- The statistics the calls of this file change. -/
structure DisruptorStats where
  eventsPublished : Nat
  backpressureEvents : Nat
  deriving Repr, DecidableEq

end StopTrading.Disruptor

/-- `Disruptor<E>`. -/
structure StopTrading.Disruptor (E : Type) where
  ringBuffer : Disruptor.RingBuffer E
  sequencer : Disruptor.Sequencer
  isRunning : Bool
  stats : Disruptor.DisruptorStats
  shutdownRequested : Bool

namespace StopTrading.Disruptor

variable {E : Type}

/-- `Disruptor::new`, for a ring of `size` slots. -/
def new (event : E) (size : Nat) : Option (Disruptor E) :=
  (RingBuffer.new event size).map fun ring =>
    { ringBuffer := ring
      sequencer := .new
      isRunning := false
      stats := ⟨0, 0⟩
      shutdownRequested := false }

/-- `start`. -/
def start (d : Disruptor E) : Disruptor E :=
  { d with isRunning := true, shutdownRequested := false, sequencer := d.sequencer.start }

/-- `stop`; `none` is the call that never returns, because the ring never
drains. -/
def stop (d : Disruptor E) : Option (Disruptor E) :=
  if d.ringBuffer.hasAvailableEvents d.sequencer.cursor then none
  else some
    { d with isRunning := false, shutdownRequested := true, sequencer := d.sequencer.stop }

/-- The part `publish` and `try_publish` share: the slot is written, the sequence
number published and counted. -/
def commit (d : Disruptor E) (sequencer : Sequencer) (seq : Nat) (f : E → E) : Disruptor E :=
  { d with
    ringBuffer := d.ringBuffer.write seq f
    sequencer := sequencer.publish seq
    stats := { d.stats with eventsPublished := (d.stats.eventsPublished + 1) % 2 ^ 64 } }

/-- `publish`. -/
def publish (d : Disruptor E) (f : E → E) : Option Nat × Disruptor E :=
  if d.isRunning then
    match d.sequencer.next 1 with
    | (some seq, sequencer) => (some seq, d.commit sequencer seq f)
    | (none, sequencer) => (none, { d with sequencer := sequencer })
  else (none, d)

/-- `try_publish`. -/
def tryPublish (d : Disruptor E) (f : E → E) : Option Nat × Disruptor E :=
  if d.isRunning then
    match d.sequencer.tryNext 1 with
    | (some seq, sequencer) => (some seq, d.commit sequencer seq f)
    | (none, sequencer) =>
        (none,
          { d with
            sequencer := sequencer
            stats := { d.stats with
              backpressureEvents := (d.stats.backpressureEvents + 1) % 2 ^ 64 } })
  else (none, d)

/-- What the ring would answer to `remaining_capacity` if its cursor were the
sequencer's. -/
def room (d : Disruptor E) : Nat :=
  { d.ringBuffer with cursor := d.sequencer.cursor }.remainingCapacity

/-- There is room exactly while the cursor is less than a turn past the gate. -/
theorem room_pos_iff (d : Disruptor E) :
    0 < d.room ↔ d.sequencer.cursor < d.ringBuffer.gateSequence + d.ringBuffer.size := by
  have := d.ringBuffer.size_powerOfTwo.1
  simp only [room, RingBuffer.remainingCapacity]
  split <;> omega

end StopTrading.Disruptor
