import Mathlib.Data.List.Basic
import Mathlib.Data.Nat.Bitwise
import StopTrading.Library.Threads

/-!
# The shared-memory ring

`ShmRingBuffer` passes features from one producer to one consumer.  Its calls run one atomic
operation at a time: the loads, the weak compare-exchanges (which may fail spuriously), and
the write and the read of a slot's data.  `pushed` and `popped` log what `push` has accepted
and what `pop` has returned.

A slot is published by its sequence number, so the consumer never takes one that is not
written (`lt_length_of_sequence`).  But it gives the slot back before it reads it: `pop` first
advances the tail and then copies the data, and in between the producer may have gone once
round the ring.  As long as no write goes to a slot that the consumer has taken and not yet
read, the ring is a queue (`prefix_of_apart`); without that it is not (`not_forall_prefix`).

### What is load-bearing

Positions count for ever and slots are positions modulo the capacity; the counters of the source
wrap at `2 ^ 64`, of which the capacity is a divisor, so a counter that has wrapped still selects
the right slot (`slotOf_mod`).  The invariant speaks of positions, by the lengths of the two
logs, and only says that counters and sequence numbers are these modulo `2 ^ 64`.

Of the two handshakes one is sound.  A slot is *published* by a sequence number that is stored
behind its data, so a consumer that sees the number finds the data (`lt_length_of_sequence`).  A
slot is *given back* by a tail that is advanced before the data is read.  `Inv.taken_le` and
`Inv.claimed_le` are therefore about positions that are taken and not about those that are read,
and the difference of one is where `Apart` is needed.

The run that breaks it goes once round the ring, with 16384 pushes.  It is not evaluated but
proved to exist, by induction on the pushes (`Lapping`).
-/

namespace StopTrading.Ipc

open Transition Threads

/-! ## The ring -/

/-- `RING_CAPACITY`. -/
def ringCapacity : Nat := 16384

/-- `FeatureElement`.  The value is the bit pattern of an `f64`. -/
structure FeatureElement where
  value : UInt64
  timestampNs : UInt64
  featureId : UInt32
  valid : Bool
  deriving Repr, DecidableEq

/-- `FeatureElement::default`. -/
def FeatureElement.default : FeatureElement := ⟨0, 0, 0, false⟩

/-- `RingSlot`. -/
structure RingSlot where
  data : FeatureElement
  sequence : Nat
  deriving Repr, DecidableEq

/-- `RingSlot::new`. -/
def RingSlot.new : RingSlot := ⟨.default, 0⟩

/-- The slot a position selects: `(position as usize) & self.mask`. -/
def slotOf (position : Nat) : Fin ringCapacity :=
  ⟨position &&& (ringCapacity - 1),
    lt_of_le_of_lt Nat.and_le_right (by decide)⟩

/-- `ShmRingBuffer`, and what has been pushed and popped. -/
structure ShmRingBuffer where
  buffer : Fin ringCapacity → RingSlot
  head : Nat
  tail : Nat
  closed : Bool
  pushed : List FeatureElement
  popped : List FeatureElement

namespace ShmRingBuffer

/-- `new`. -/
def new : ShmRingBuffer := ⟨fun _ => .new, 0, 0, false, [], []⟩

/-- Write the data of a slot. -/
def writeData (r : ShmRingBuffer) (position : Nat) (element : FeatureElement) : ShmRingBuffer :=
  { r with
    buffer := Function.update r.buffer (slotOf position)
      { r.buffer (slotOf position) with data := element } }

/-- Store the sequence number of a slot. -/
def storeSequence (r : ShmRingBuffer) (position sequence : Nat) : ShmRingBuffer :=
  { r with
    buffer := Function.update r.buffer (slotOf position)
      { r.buffer (slotOf position) with sequence := sequence } }

end ShmRingBuffer

/-! ## The calls -/

/-- The two threads. -/
inductive Role where
  | producer
  | consumer
  deriving Repr, DecidableEq

/-- Where a thread is in its call. -/
inductive RingPc where
  | idle
  | pushLoadHead (element : FeatureElement)
  | pushLoadTail (element : FeatureElement) (head : Nat)
  | pushCas (element : FeatureElement) (head : Nat)
  | pushWrite (element : FeatureElement) (head : Nat)
  | pushStore (element : FeatureElement) (head : Nat)
  | popLoadHead (tail : Nat)
  | popLoadSequence (tail : Nat)
  | popCas (tail : Nat)
  | popRead (tail : Nat)
  deriving Repr, DecidableEq

/-- The producer is about to write the slot that the consumer is about to read. -/
def RingPc.clashes : RingPc → RingPc → Bool
  | .pushWrite _ head, .popRead tail => slotOf head == slotOf tail
  | _, _ => false

/-- What an operation leaves open: the element of a new `push`, and whether a weak
compare-exchange fails spuriously. -/
structure RingChoice where
  element : FeatureElement
  failSpuriously : Bool
  deriving Repr, DecidableEq

/-- **One atomic operation.**  An idle producer starts a `push` and an idle consumer a `pop`,
each with its first load. -/
def ringThread : Role → ShmRingBuffer → RingPc → RingChoice → Option (ShmRingBuffer × RingPc)
  | .producer, r, .idle, c => some (r, if r.closed then .idle else .pushLoadHead c.element)
  | .producer, r, .pushLoadHead element, _ => some (r, .pushLoadTail element r.head)
  | .producer, r, .pushLoadTail element head, _ =>
      -- `wrapping_sub` tells whether the ring is full; then the call answers `false`
      some (r,
        if (head + (2 ^ 64 - r.tail)) % 2 ^ 64 ≥ ringCapacity then .idle
        else .pushCas element head)
  | .producer, r, .pushCas element head, c =>
      if r.head = head ∧ c.failSpuriously = false then
        some ({ r with head := (head + 1) % 2 ^ 64 }, .pushWrite element head)
      else some (r, .pushLoadTail element r.head)
  | .producer, r, .pushWrite element head, _ =>
      some (r.writeData head element, .pushStore element head)
  | .producer, r, .pushStore element head, _ =>
      -- the slot is published, and the call answers `true`
      some ({ r.storeSequence head ((head + 1) % 2 ^ 64) with pushed := r.pushed ++ [element] },
        .idle)
  | .consumer, r, .idle, _ => some (r, .popLoadHead r.tail)
  | .consumer, r, .popLoadHead tail, _ =>
      some (r, if tail ≥ r.head then .idle else .popLoadSequence tail)
  | .consumer, r, .popLoadSequence tail, _ =>
      some (r,
        if (r.buffer (slotOf tail)).sequence ≠ (tail + 1) % 2 ^ 64 then .idle else .popCas tail)
  | .consumer, r, .popCas tail, c =>
      -- from here on the producer may write the slot that is still to be read
      if r.tail = tail ∧ c.failSpuriously = false then
        some ({ r with tail := (tail + 1) % 2 ^ 64 }, .popRead tail)
      else some (r, .popLoadHead r.tail)
  | .consumer, r, .popRead tail, _ =>
      some ({ r with popped := r.popped ++ [(r.buffer (slotOf tail)).data] }, .idle)
  | _, _, _, _ => none

/-- A ring with its two threads. -/
abbrev RingState := State Role RingPc ShmRingBuffer

namespace RingState

/-- A new ring, with both threads idle. -/
def init : RingState := ⟨.new, fun _ => .idle⟩

/-- **What is popped has been pushed**, in the same order and from the start. -/
def Fifo (s : RingState) : Prop := s.shared.popped <+: s.shared.pushed

/-- **The producer writes no slot that the consumer has taken and not yet read.** -/
def Apart (s : RingState) (a : Role × RingChoice) (_ : RingState) : Prop :=
  a.1 = .producer → (s.pc .producer).clashes (s.pc .consumer) = false

instance (s : RingState) (a : Role × RingChoice) (s' : RingState) : Decidable (s.Apart a s') :=
  inferInstanceAs (Decidable (_ → _))

end RingState

/-! ## Slots -/

/-- A position selects the slot with its remainder. -/
theorem slotOf_val (position : Nat) : (slotOf position).val = position % ringCapacity :=
  Nat.and_two_pow_sub_one_eq_mod position 14

/-- Two positions share a slot if they have one remainder. -/
theorem slotOf_eq_iff {a b : Nat} : slotOf a = slotOf b ↔ a % ringCapacity = b % ringCapacity := by
  rw [← slotOf_val, ← slotOf_val, Fin.val_inj]

/-- A counter that has wrapped still selects its slot. -/
theorem slotOf_mod (position : Nat) : slotOf (position % 2 ^ 64) = slotOf position := by
  rw [slotOf_eq_iff, Nat.mod_mod_of_dvd]
  exact ⟨2 ^ 50, by decide⟩

/-- Positions less than a round apart have slots of their own. -/
theorem slotOf_ne {a b : Nat} (hlt : a < b) (hwindow : b < a + ringCapacity) :
    slotOf a ≠ slotOf b := by
  rw [Ne, slotOf_eq_iff]
  unfold ringCapacity at *
  omega

/-- A round later comes the same slot. -/
theorem slotOf_add_ringCapacity (position : Nat) :
    slotOf (position + ringCapacity) = slotOf position := by
  rw [slotOf_eq_iff, Nat.add_mod_right]

namespace ShmRingBuffer

variable (r : ShmRingBuffer)

/-- What is written is there, -/
theorem writeData_data {position : Nat} {element : FeatureElement} :
    ((r.writeData position element).buffer (slotOf position)).data = element := by
  simp only [writeData, Function.update_self]

/-- other slots are as they were, -/
theorem writeData_data_of_ne {position : Nat} {element : FeatureElement} {i : Fin ringCapacity}
    (hne : i ≠ slotOf position) :
    ((r.writeData position element).buffer i).data = (r.buffer i).data := by
  simp only [writeData, Function.update_of_ne hne]

/-- and no sequence number has changed. -/
@[simp] theorem writeData_sequence {position : Nat} {element : FeatureElement}
    (i : Fin ringCapacity) :
    ((r.writeData position element).buffer i).sequence = (r.buffer i).sequence := by
  by_cases hi : i = slotOf position
  · subst hi
    simp only [writeData, Function.update_self]
  · simp only [writeData, Function.update_of_ne hi]

/-- What is stored is there, -/
theorem storeSequence_sequence {position sequence : Nat} :
    ((r.storeSequence position sequence).buffer (slotOf position)).sequence = sequence := by
  simp only [storeSequence, Function.update_self]

/-- other slots are as they were, -/
theorem storeSequence_sequence_of_ne {position sequence : Nat} {i : Fin ringCapacity}
    (hne : i ≠ slotOf position) :
    ((r.storeSequence position sequence).buffer i).sequence = (r.buffer i).sequence := by
  simp only [storeSequence, Function.update_of_ne hne]

/-- and no data has changed. -/
@[simp] theorem storeSequence_data {position sequence : Nat} (i : Fin ringCapacity) :
    ((r.storeSequence position sequence).buffer i).data = (r.buffer i).data := by
  by_cases hi : i = slotOf position
  · subst hi
    simp only [storeSequence, Function.update_self]
  · simp only [storeSequence, Function.update_of_ne hi]

end ShmRingBuffer

/-! ## What holds at every step -/

/-- Whether a thread has advanced its counter for the call it is in. -/
def RingPc.ahead : RingPc → Nat
  | .pushWrite _ _ => 1
  | .pushStore _ _ => 1
  | .popRead _ => 1
  | _ => 0

/-- A thread is ahead by one at most. -/
theorem RingPc.ahead_le_one (p : RingPc) : p.ahead ≤ 1 := by
  cases p <;> simp [RingPc.ahead]

/-- What the slots of a ring hold: the positions of the last round carry their sequence
numbers, those never reached carry zero, and what is not popped yet is still there. -/
structure Slots (r : ShmRingBuffer) : Prop where
  /-- the last round has its sequence numbers -/
  sequence_eq : ∀ h < r.pushed.length, r.pushed.length ≤ h + ringCapacity →
    (r.buffer (slotOf h)).sequence = (h + 1) % 2 ^ 64
  /-- slots that were never reached have none -/
  fresh : ∀ h < ringCapacity, r.pushed.length ≤ h → (r.buffer (slotOf h)).sequence = 0
  /-- and what was not popped is there -/
  data_eq : ∀ h < r.pushed.length, r.popped.length ≤ h →
    r.pushed[h]? = some (r.buffer (slotOf h)).data

/-- A slot whose data is written gets its sequence number. -/
theorem Slots.publishes {r : ShmRingBuffer} {element : FeatureElement} (slots : Slots r)
    (hwritten : (r.buffer (slotOf r.pushed.length)).data = element) :
    Slots { r.storeSequence (r.pushed.length % 2 ^ 64)
              ((r.pushed.length % 2 ^ 64 + 1) % 2 ^ 64) with pushed := r.pushed ++ [element] } where
  sequence_eq h hlt hround := by
    rw [List.length_append, List.length_singleton] at hlt hround
    rcases Nat.lt_succ_iff_lt_or_eq.mp hlt with hold | rfl
    · refine (r.storeSequence_sequence_of_ne ?_).trans (slots.sequence_eq h hold (by omega))
      rw [slotOf_mod]
      exact slotOf_ne hold (by omega)
    · rw [← slotOf_mod r.pushed.length]
      exact r.storeSequence_sequence.trans (Nat.mod_add_mod _ _ _)
  fresh h hlt hfresh := by
    rw [List.length_append, List.length_singleton] at hfresh
    refine (r.storeSequence_sequence_of_ne ?_).trans (slots.fresh h hlt (by omega))
    rw [slotOf_mod]
    exact (slotOf_ne (by omega) (by omega)).symm
  data_eq h hlt hleft := by
    rw [List.length_append, List.length_singleton] at hlt
    show (r.pushed ++ [element])[h]? =
      some ((r.storeSequence (r.pushed.length % 2 ^ 64) _).buffer (slotOf h)).data
    rw [ShmRingBuffer.storeSequence_data]
    rcases Nat.lt_succ_iff_lt_or_eq.mp hlt with hold | rfl
    · rw [List.getElem?_append_left hold]
      exact slots.data_eq h hold hleft
    · rw [List.getElem?_concat_length, hwritten]

/-- What the producer knows in a call; `taken` positions are given back. -/
def ProducerAt (r : ShmRingBuffer) (taken : Nat) : RingPc → Prop
  | .idle => True
  | .pushLoadHead _ => True
  | .pushLoadTail _ head => head = r.pushed.length % 2 ^ 64
  | .pushCas _ head =>
      head = r.pushed.length % 2 ^ 64 ∧ r.pushed.length < taken + ringCapacity
  | .pushWrite _ head => head = r.pushed.length % 2 ^ 64
  | .pushStore element head =>
      head = r.pushed.length % 2 ^ 64 ∧ (r.buffer (slotOf r.pushed.length)).data = element
  | _ => False

/-- What the consumer knows in a call. -/
def ConsumerAt (r : ShmRingBuffer) : RingPc → Prop
  | .idle => True
  | .popLoadHead tail => tail = r.popped.length % 2 ^ 64
  | .popLoadSequence tail => tail = r.popped.length % 2 ^ 64
  | .popCas tail => tail = r.popped.length % 2 ^ 64 ∧ r.popped.length < r.pushed.length
  | .popRead tail => tail = r.popped.length % 2 ^ 64 ∧ r.popped.length < r.pushed.length
  | _ => False

/-- **The invariant** of a ring whose producer is at `p` and whose consumer is at `c`. -/
structure Inv (r : ShmRingBuffer) (p c : RingPc) : Prop where
  /-- what was popped was pushed, in order -/
  fifo : r.popped <+: r.pushed
  /-- the head counts what was claimed -/
  head_eq : r.head = (r.pushed.length + p.ahead) % 2 ^ 64
  /-- the tail what was taken -/
  tail_eq : r.tail = (r.popped.length + c.ahead) % 2 ^ 64
  /-- no more is taken than was pushed -/
  taken_le : r.popped.length + c.ahead ≤ r.pushed.length
  /-- and no more claimed than there is room for -/
  claimed_le : r.pushed.length + p.ahead ≤ r.popped.length + c.ahead + ringCapacity
  /-- the slots hold what they should -/
  slots : Slots r
  /-- the producer knows where it is -/
  producer : ProducerAt r (r.popped.length + c.ahead) p
  /-- and so does the consumer -/
  consumer : ConsumerAt r c

/-- A new ring has nothing in it. -/
theorem Inv.init : Inv .new .idle .idle where
  fifo := List.nil_prefix
  head_eq := rfl
  tail_eq := rfl
  taken_le := Nat.le_refl 0
  claimed_le := Nat.zero_le _
  slots := ⟨fun _ h => absurd h (Nat.not_lt_zero _), fun _ _ _ => rfl,
    fun _ h => absurd h (Nat.not_lt_zero _)⟩
  producer := trivial
  consumer := trivial

variable {r : ShmRingBuffer} {p c : RingPc}

/-- One more element of a list that the prefix agrees with. -/
theorem prefix_append_of_getElem? {l l' : List FeatureElement} {x : FeatureElement}
    (h : l <+: l') (hget : l'[l.length]? = some x) : l ++ [x] <+: l' := by
  obtain ⟨rest, rfl⟩ := h
  rw [List.getElem?_append_right (Nat.le_refl _), Nat.sub_self] at hget
  cases rest with
  | nil => cases hget
  | cons y rest =>
      obtain rfl : y = x := Option.some.inj hget
      exact (List.prefix_append_right_inj l).mpr ⟨rest, rfl⟩

namespace Inv

variable {element : FeatureElement} {tail : Nat}

/-- The producer moves on and leaves the ring as it is. -/
theorem producer_moves (inv : Inv r p c) {p' : RingPc} (hahead : p'.ahead = p.ahead)
    (hat : ProducerAt r (r.popped.length + c.ahead) p') : Inv r p' c :=
  { inv with
    head_eq := by rw [hahead]; exact inv.head_eq
    claimed_le := by rw [hahead]; exact inv.claimed_le
    producer := hat }

/-- The consumer moves on and leaves the ring as it is. -/
theorem consumer_moves (inv : Inv r p c) {c' : RingPc} (hahead : c'.ahead = c.ahead)
    (hat : ConsumerAt r c') : Inv r p c' :=
  { inv with
    tail_eq := by rw [hahead]; exact inv.tail_eq
    taken_le := by rw [hahead]; exact inv.taken_le
    claimed_le := by rw [hahead]; exact inv.claimed_le
    producer := by rw [hahead]; exact inv.producer
    consumer := hat }

/-- The number of positions the producer sees in use. -/
theorem inUse (inv : Inv r p c) :
    (r.pushed.length % 2 ^ 64 + (2 ^ 64 - r.tail)) % 2 ^ 64 =
      r.pushed.length - (r.popped.length + c.ahead) := by
  have htail := inv.tail_eq
  have hle := inv.taken_le
  have hcap := inv.claimed_le
  unfold ringCapacity at hcap
  omega

/-- **A slot with its sequence number is published.** -/
theorem lt_length_of_sequence (inv : Inv r p (.popLoadSequence tail))
    (hsequence : (r.buffer (slotOf (r.popped.length % 2 ^ 64))).sequence =
      (r.popped.length % 2 ^ 64 + 1) % 2 ^ 64) : r.popped.length < r.pushed.length := by
  rw [slotOf_mod, Nat.mod_add_mod] at hsequence
  by_contra hle
  have heq : r.popped.length = r.pushed.length := Nat.le_antisymm inv.taken_le (not_lt.mp hle)
  rw [heq] at hsequence
  by_cases hfirst : r.pushed.length < ringCapacity
  · -- the first round: the slot has never been published
    rw [inv.slots.fresh _ hfirst (Nat.le_refl _)] at hsequence
    unfold ringCapacity at hfirst
    omega
  · -- later the slot carries the number of the round before
    obtain ⟨before, hbefore⟩ : ∃ before, r.pushed.length = before + ringCapacity :=
      ⟨r.pushed.length - ringCapacity, by omega⟩
    have hlt : before < r.pushed.length := by
      rw [hbefore]
      exact Nat.lt_add_of_pos_right (by decide)
    have hold := inv.slots.sequence_eq before hlt (Nat.le_of_eq hbefore)
    rw [hbefore, slotOf_add_ringCapacity, hold] at hsequence
    unfold ringCapacity at hsequence
    omega

/-- A consumer that is ahead has taken a slot. -/
theorem popRead_of_ahead (inv : Inv r p c) (hahead : c.ahead = 1) :
    ∃ tail, c = .popRead tail := by
  have hat := inv.consumer
  cases c with
  | popRead tail => exact ⟨tail, rfl⟩
  | pushWrite => exact hat.elim
  | pushStore => exact hat.elim
  | _ => cases hahead

/-- The producer claims the next position. -/
theorem claims (inv : Inv r p c)
    (hroom : r.pushed.length < r.popped.length + c.ahead + ringCapacity) :
    Inv { r with head := (r.pushed.length % 2 ^ 64 + 1) % 2 ^ 64 }
      (.pushWrite element (r.pushed.length % 2 ^ 64)) c :=
  { inv with
    head_eq := by
      show _ = (r.pushed.length + 1) % 2 ^ 64
      exact Nat.mod_add_mod _ _ _
    claimed_le := hroom
    slots := ⟨inv.slots.sequence_eq, inv.slots.fresh, inv.slots.data_eq⟩
    producer := rfl
    consumer := inv.consumer }

/-- The consumer takes the next position. -/
theorem takes (inv : Inv r p c) (hahead : c.ahead = 0)
    (hready : r.popped.length < r.pushed.length) :
    Inv { r with tail := (r.popped.length % 2 ^ 64 + 1) % 2 ^ 64 } p
      (.popRead (r.popped.length % 2 ^ 64)) where
  fifo := inv.fifo
  head_eq := inv.head_eq
  tail_eq := by
    show _ = (r.popped.length + 1) % 2 ^ 64
    exact Nat.mod_add_mod _ _ _
  taken_le := hready
  claimed_le := by
    have hcap := inv.claimed_le
    rw [hahead] at hcap
    exact le_trans hcap (Nat.add_le_add_right (Nat.le_succ _) _)
  slots := ⟨inv.slots.sequence_eq, inv.slots.fresh, inv.slots.data_eq⟩
  producer := by
    have hat := inv.producer
    rw [hahead] at hat
    cases p with
    | pushCas element head =>
        exact ⟨hat.1, Nat.lt_of_lt_of_le hat.2 (Nat.add_le_add_right (Nat.le_succ _) _)⟩
    | _ => exact hat
  consumer := ⟨rfl, hready⟩

/-- The slot of what is written is not that of what is left. -/
theorem slot_ne {head : Nat} (inv : Inv r (.pushWrite element head) c)
    (hapart : c.ahead = 1 → slotOf r.pushed.length ≠ slotOf r.popped.length)
    {h : Nat} (hlt : h < r.pushed.length) (hleft : r.popped.length ≤ h) :
    slotOf h ≠ slotOf r.pushed.length := by
  have hcap : r.pushed.length + 1 ≤ r.popped.length + c.ahead + ringCapacity := inv.claimed_le
  have hahead := c.ahead_le_one
  by_cases hround : r.pushed.length < h + ringCapacity
  · exact slotOf_ne hlt hround
  · -- the producer is a whole round ahead: only of what the consumer has taken
    obtain rfl : h = r.popped.length := by omega
    exact (hapart (by omega)).symm

/-- The producer writes a slot; the consumer, if it is about to read, reads another. -/
theorem writes (inv : Inv r (.pushWrite element (r.pushed.length % 2 ^ 64)) c)
    (hapart : c.ahead = 1 → slotOf r.pushed.length ≠ slotOf r.popped.length) :
    Inv (r.writeData (r.pushed.length % 2 ^ 64) element)
      (.pushStore element (r.pushed.length % 2 ^ 64)) c where
  fifo := inv.fifo
  head_eq := inv.head_eq
  tail_eq := inv.tail_eq
  taken_le := inv.taken_le
  claimed_le := inv.claimed_le
  slots :=
    { sequence_eq := fun h hlt hround => by
        rw [ShmRingBuffer.writeData_sequence]
        exact inv.slots.sequence_eq h hlt hround
      fresh := fun h hlt hfresh => by
        rw [ShmRingBuffer.writeData_sequence]
        exact inv.slots.fresh h hlt hfresh
      data_eq := fun h hlt hleft => by
        have hne := inv.slot_ne hapart hlt hleft
        rw [ShmRingBuffer.writeData_data_of_ne _ (by rwa [slotOf_mod])]
        exact inv.slots.data_eq h hlt hleft }
  producer := ⟨rfl, by
    show ((r.writeData (r.pushed.length % 2 ^ 64) element).buffer (slotOf r.pushed.length)).data = _
    rw [← slotOf_mod r.pushed.length]
    exact r.writeData_data⟩
  consumer := inv.consumer

/-- The producer publishes what it has written. -/
theorem publishes (inv : Inv r (.pushStore element (r.pushed.length % 2 ^ 64)) c) :
    Inv { r.storeSequence (r.pushed.length % 2 ^ 64) ((r.pushed.length % 2 ^ 64 + 1) % 2 ^ 64) with
          pushed := r.pushed ++ [element] } .idle c where
  fifo := inv.fifo.trans (List.prefix_append _ _)
  head_eq := by
    rw [List.length_append]
    exact inv.head_eq
  tail_eq := inv.tail_eq
  taken_le := by
    rw [List.length_append]
    exact Nat.le_succ_of_le inv.taken_le
  claimed_le := by
    rw [List.length_append]
    exact inv.claimed_le
  slots := inv.slots.publishes inv.producer.2
  producer := trivial
  consumer := by
    have hat := inv.consumer
    have hle : r.pushed.length ≤ (r.pushed ++ [element]).length := by
      rw [List.length_append]
      exact Nat.le_succ _
    cases c with
    | popCas tail => exact ⟨hat.1, Nat.lt_of_lt_of_le hat.2 hle⟩
    | popRead tail => exact ⟨hat.1, Nat.lt_of_lt_of_le hat.2 hle⟩
    | _ => exact hat

/-- The consumer reads the slot it has taken. -/
theorem reads (inv : Inv r p (.popRead (r.popped.length % 2 ^ 64))) :
    Inv { r with
          popped := r.popped ++ [(r.buffer (slotOf (r.popped.length % 2 ^ 64))).data] } p .idle :=
  have hlt : r.popped.length < r.pushed.length := inv.taken_le
  have hdata := inv.slots.data_eq _ hlt (Nat.le_refl _)
  have hlen : (r.popped ++ [(r.buffer (slotOf (r.popped.length % 2 ^ 64))).data]).length =
      r.popped.length + 1 := List.length_append
  { fifo := by
      rw [slotOf_mod]
      exact prefix_append_of_getElem? inv.fifo hdata
    head_eq := inv.head_eq
    tail_eq := by
      rw [hlen]
      exact inv.tail_eq
    taken_le := by
      rw [hlen]
      exact inv.taken_le
    claimed_le := by
      rw [hlen]
      exact inv.claimed_le
    slots := ⟨inv.slots.sequence_eq, inv.slots.fresh, fun h hpushed hleft =>
      inv.slots.data_eq h hpushed (by rw [hlen] at hleft; exact Nat.le_of_succ_le hleft)⟩
    producer := by
      rw [hlen]
      exact inv.producer
    consumer := trivial }

/-- **What one operation of the producer keeps.** -/
theorem producer_step (inv : Inv r p c) {choice : RingChoice} {r' : ShmRingBuffer} {p' : RingPc}
    (hstep : ringThread .producer r p choice = some (r', p'))
    (hapart : p.clashes c = false) : Inv r' p' c := by
  cases p with
  | idle =>
      obtain ⟨rfl, rfl⟩ := Prod.mk.inj (Option.some.inj hstep)
      cases r.closed with
      | false => exact inv.producer_moves rfl trivial
      | true => exact inv.producer_moves rfl trivial
  | pushLoadHead element =>
      obtain ⟨rfl, rfl⟩ := Prod.mk.inj (Option.some.inj hstep)
      exact inv.producer_moves rfl inv.head_eq
  | pushLoadTail element head =>
      obtain ⟨rfl, rfl⟩ := Prod.mk.inj (Option.some.inj hstep)
      obtain rfl : head = _ := inv.producer
      rw [inv.inUse]
      split
      · exact inv.producer_moves rfl trivial
      · rename_i hroom
        exact inv.producer_moves rfl ⟨rfl, by omega⟩
  | pushCas element head =>
      obtain ⟨rfl, hroom⟩ := inv.producer
      simp only [ringThread] at hstep
      split at hstep
      · obtain ⟨rfl, rfl⟩ := Prod.mk.inj (Option.some.inj hstep)
        exact inv.claims hroom
      · obtain ⟨rfl, rfl⟩ := Prod.mk.inj (Option.some.inj hstep)
        exact inv.producer_moves rfl inv.head_eq
  | pushWrite element head =>
      obtain ⟨rfl, rfl⟩ := Prod.mk.inj (Option.some.inj hstep)
      obtain rfl : head = _ := inv.producer
      refine inv.writes fun hahead => ?_
      obtain ⟨tail, rfl⟩ := inv.popRead_of_ahead hahead
      rw [← slotOf_mod r.pushed.length, ← slotOf_mod r.popped.length, ← inv.consumer.1]
      exact beq_eq_false_iff_ne.mp hapart
  | pushStore element head =>
      obtain ⟨rfl, rfl⟩ := Prod.mk.inj (Option.some.inj hstep)
      obtain rfl : head = _ := inv.producer.1
      exact inv.publishes
  | _ => cases hstep

/-- **What one operation of the consumer keeps.** -/
theorem consumer_step (inv : Inv r p c) {choice : RingChoice} {r' : ShmRingBuffer} {c' : RingPc}
    (hstep : ringThread .consumer r c choice = some (r', c')) : Inv r' p c' := by
  cases c with
  | idle =>
      obtain ⟨rfl, rfl⟩ := Prod.mk.inj (Option.some.inj hstep)
      exact inv.consumer_moves rfl inv.tail_eq
  | popLoadHead tail =>
      obtain ⟨rfl, rfl⟩ := Prod.mk.inj (Option.some.inj hstep)
      split
      · exact inv.consumer_moves rfl trivial
      · exact inv.consumer_moves rfl inv.consumer
  | popLoadSequence tail =>
      obtain ⟨rfl, rfl⟩ := Prod.mk.inj (Option.some.inj hstep)
      obtain rfl : tail = _ := inv.consumer
      split
      · exact inv.consumer_moves rfl trivial
      · rename_i hready
        exact inv.consumer_moves rfl ⟨rfl, inv.lt_length_of_sequence (not_not.mp hready)⟩
  | popCas tail =>
      obtain ⟨rfl, hready⟩ := inv.consumer
      simp only [ringThread] at hstep
      split at hstep
      · obtain ⟨rfl, rfl⟩ := Prod.mk.inj (Option.some.inj hstep)
        exact inv.takes rfl hready
      · obtain ⟨rfl, rfl⟩ := Prod.mk.inj (Option.some.inj hstep)
        exact inv.consumer_moves rfl inv.tail_eq
  | popRead tail =>
      obtain ⟨rfl, rfl⟩ := Prod.mk.inj (Option.some.inj hstep)
      obtain rfl : tail = _ := inv.consumer.1
      exact inv.reads
  | _ => cases hstep

end Inv

namespace RingState

/-- The invariant of a ring with its two threads. -/
def Sound (s : RingState) : Prop := Inv s.shared (s.pc .producer) (s.pc .consumer)

/-- **One operation** keeps the invariant, if the two are apart. -/
theorem Sound.step {s s' : RingState} {a : Role × RingChoice} (sound : s.Sound)
    (hstep : step ringThread s a = some s') (hapart : s.Apart a s') : s'.Sound := by
  obtain ⟨role, choice⟩ := a
  obtain ⟨r', p', hthread, rfl⟩ := step_eq_some.mp hstep
  cases role with
  | producer => exact Inv.producer_step sound hthread (hapart rfl)
  | consumer => exact Inv.consumer_step sound hthread

/-! ## Once round the ring -/

/-- The operations of an undisturbed `push`. -/
def pushing (element : FeatureElement) : List (Role × RingChoice) :=
  (List.replicate 6 ⟨element, false⟩).map (Prod.mk .producer)

/-- The ring after an undisturbed `push`. -/
def afterPush (r : ShmRingBuffer) (element : FeatureElement) : ShmRingBuffer :=
  { (({ r with head := (r.head + 1) % 2 ^ 64 } : ShmRingBuffer).writeData r.head
      element).storeSequence r.head ((r.head + 1) % 2 ^ 64) with
    pushed := r.pushed ++ [element] }

/-- An undisturbed `push` into a ring with room is accepted. -/
theorem run_pushing {s : RingState} {element : FeatureElement} (hidle : s.pc .producer = .idle)
    (hopen : s.shared.closed = false)
    (hroom : (s.shared.head + (2 ^ 64 - s.shared.tail)) % 2 ^ 64 < ringCapacity) :
    run (step ringThread) s (pushing element) = some ⟨afterPush s.shared element, s.pc⟩ := by
  have hsolo : solo ringThread .producer s.shared (s.pc .producer)
      (List.replicate 6 ⟨element, false⟩) = some (afterPush s.shared element, .idle) := by
    simp only [hidle, List.replicate, solo, ringThread, hopen, ge_iff_le, not_le.mpr hroom,
      Option.bind_some, if_false, Bool.false_eq_true, and_self, if_true, afterPush]
    rfl
  rw [pushing, run_solo hsolo, ← hidle, Function.update_eq_self]

/-- The element pushed while the consumer is about to read slot 0. -/
def first : FeatureElement := ⟨1, 0, 1, true⟩

/-- The element of the round that follows. -/
def second : FeatureElement := ⟨2, 0, 1, true⟩

/-- `first` is pushed and taken, and `k` more are pushed while the consumer has not read it. -/
structure Lapping (s : RingState) (k : Nat) : Prop where
  /-- the producer is free -/
  producer : s.pc .producer = .idle
  /-- the consumer is about to read slot 0 -/
  consumer : s.pc .consumer = .popRead 0
  /-- pushes are accepted -/
  isOpen : s.shared.closed = false
  /-- so many were claimed -/
  head_eq : s.shared.head = k + 1
  /-- and one was taken -/
  tail_eq : s.shared.tail = 1
  /-- the first, and then the others -/
  pushed_eq : s.shared.pushed = first :: List.replicate k second
  /-- none was read -/
  popped_eq : s.shared.popped = []

/-- Until the round is complete every `push` is accepted. -/
theorem Lapping.push {s : RingState} {k : Nat} (h : Lapping s k) (hk : k < ringCapacity) :
    ∃ s', run (step ringThread) s (pushing second) = some s' ∧ Lapping s' (k + 1) ∧
      (s'.shared.buffer (slotOf (k + 1))).data = second := by
  unfold ringCapacity at hk
  refine ⟨_, run_pushing h.producer h.isOpen ?_, ?_, ?_⟩
  · rw [h.head_eq, h.tail_eq]
    unfold ringCapacity
    omega
  · exact
      { producer := h.producer
        consumer := h.consumer
        isOpen := h.isOpen
        head_eq := by
          show (s.shared.head + 1) % 2 ^ 64 = _
          rw [h.head_eq]
          omega
        tail_eq := h.tail_eq
        pushed_eq := by
          show s.shared.pushed ++ [second] = _
          rw [h.pushed_eq, List.replicate_succ']
          rfl
        popped_eq := h.popped_eq }
  · rw [← h.head_eq]
    exact (ShmRingBuffer.storeSequence_data _ _).trans (ShmRingBuffer.writeData_data _)

/-- `k` pushes while the consumer waits. -/
def lap (k : Nat) : List (Role × RingChoice) := (List.replicate k (pushing second)).flatten

/-- The pushes of a round, one after the other. -/
theorem Lapping.lap {k : Nat} (hk : k ≤ ringCapacity) :
    ∀ {s : RingState}, Lapping s 0 → ∃ s', run (step ringThread) s (lap k) = some s' ∧
      Lapping s' k ∧ (0 < k → (s'.shared.buffer (slotOf k)).data = second) := by
  induction k with
  | zero => exact fun h => ⟨_, rfl, h, fun h => absurd h (Nat.lt_irrefl 0)⟩
  | succ k ih =>
      intro s h
      obtain ⟨m, hrun, hm, -⟩ := ih (Nat.le_of_succ_le hk) h
      obtain ⟨s', hpush, hs', hdata⟩ := hm.push hk
      refine ⟨s', ?_, hs', fun _ => hdata⟩
      rw [RingState.lap, List.replicate_succ', List.flatten_append, List.flatten_singleton]
      exact run_append hrun hpush

/-- `first` is pushed, and the consumer takes it. -/
def taking : List (Role × RingChoice) :=
  pushing first ++ List.replicate 4 (.consumer, ⟨.default, false⟩)

/-- One element is pushed, and taken without being read. -/
theorem run_taking : ∃ s, run (step ringThread) init taking = some s ∧ Lapping s 0 :=
  ⟨_, rfl, ⟨rfl, rfl, rfl, rfl, rfl, rfl, rfl⟩⟩

/-! ## The queue -/

/-- **The ring is a queue** in every run in which no write goes to a slot that the consumer
has taken and not yet read. -/
theorem prefix_of_apart (as : List (Role × RingChoice))
    (hapart : AllSteps (step ringThread) Apart init as) :
    AllStates (step ringThread) Fifo init as :=
  AllStates.of_invariant (fun _ (sound : Sound _) => sound.fifo)
    (fun _ _ _ sound hstep hguard => sound.step hstep hguard) Inv.init hapart

/-- `first` is popped before the producer goes on. -/
theorem prefix_of_apart_taking :
    AllSteps (step ringThread) Apart init
        (taking ++ [(.consumer, ⟨.default, false⟩)] ++ pushing second) ∧
      AllStates (step ringThread) Fifo init
        (taking ++ [(.consumer, ⟨.default, false⟩)] ++ pushing second) :=
  have hapart : AllSteps (step ringThread) Apart init
      (taking ++ [(.consumer, ⟨.default, false⟩)] ++ pushing second) := by decide +kernel
  ⟨hapart, prefix_of_apart _ hapart⟩

/-- **Without the guard the ring is not a queue.**  The consumer takes slot 0, the producer
goes once round the ring, and the consumer reads what the producer has written last. -/
theorem not_forall_prefix :
    ¬ ∀ as : List (Role × RingChoice), AllStates (step ringThread) Fifo init as := by
  intro h
  obtain ⟨s, htake, hs⟩ := run_taking
  obtain ⟨s', hlap, hs', hdata⟩ := Lapping.lap (Nat.le_refl ringCapacity) hs
  have hread : run (step ringThread) s' [(.consumer, ⟨.default, false⟩)] =
      some ⟨{ s'.shared with popped := [second] }, Function.update s'.pc .consumer .idle⟩ := by
    simp [run, step, ringThread, hs'.consumer, hs'.popped_eq]
    exact hdata (by decide)
  have hfifo := (h _).of_run (run_append htake (run_append hlap hread))
  have hpre : [second] <+: s'.shared.pushed := hfifo
  rw [hs'.pushed_eq, List.cons_prefix_cons] at hpre
  exact absurd hpre.1 (by decide)

end RingState

end StopTrading.Ipc
