import StopTrading.Library.ListSplits
import Mathlib.Algebra.Group.Nat.Defs
import Mathlib.Data.List.Basic
import Mathlib.Data.List.Induction
import Mathlib.Data.Nat.Basic
import Mathlib.Order.Basic
import Mathlib.Tactic.Common

/-!
# The micro-batch collector

`MicroBatchCollector` fills a buffer with ticks and sends it through a channel when it
is full or when a flush is asked for.  What goes through the channel is a reference to
the buffer (`Arc`), so buffers live in a heap and are named by their address there; the
consumer reads them after the calls.

What the collector is for is `CarriesOnce`: the batches received, and after them the one
being filled, are the accepted ticks.  A flush allocates a new buffer, sends a reference
to the current one and then keeps filling the current one, which is not emptied either.
So every batch received is that one buffer, with the first ticks ever added, and ticks
that find it full are lost.  The ticks are carried once just as long as nothing has been
sent (`carriesOnce_iff_nothingSent`).

A flush takes the capacity of the new buffer from a controller that reads the clock;
here it is an argument of the call.

### What is load-bearing

A batch is sent by cloning an `Arc`, which makes a second name for the buffer and no second
buffer. So the heap is in the model, and a batch in the channel is an address; what a consumer
reads through it is what the buffer holds *then*.  With values in the channel the defect would
not exist.

`OneBuffer` is the whole behaviour in four clauses: nothing but the first buffer is ever filled
or sent.  `Filling` adds how much has been sent, in terms of the calls alone, and the equivalence
reads it off: with something in the channel the same ticks are there at least twice, in the batch
that was sent and in the one being filled.

A call that the channel refuses is counted (`refused`), and the result is about runs in which there
is none: the tick of a refused call is in the buffer all the same, although its caller is told of an
error.
-/

namespace StopTrading.Dataflow

open ListSplits

universe u

variable {Tick : Type u}

/-- `MIN_BATCH_SIZE`. -/
def minBatchSize : Nat := 16

/-- `MAX_BATCH_SIZE`. -/
def maxBatchSize : Nat := 256

/-- The capacity of the first buffer, clamped between the two. -/
def initialCapacity (batchCapacity : Nat) : Nat :=
  max minBatchSize (min batchCapacity maxBatchSize)

/-- There is room for a tick. -/
theorem initialCapacity_pos (batchCapacity : Nat) : 0 < initialCapacity batchCapacity :=
  Nat.lt_of_lt_of_le (by decide) (Nat.le_max_left _ _)

/-- `BatchBuffer`: the initialised part of its storage, and its capacity. -/
structure BatchBuffer (Tick : Type u) where
  data : List Tick
  capacity : Nat
  deriving Repr, DecidableEq

namespace BatchBuffer

/-- `with_capacity`. -/
def withCapacity (capacity : Nat) : BatchBuffer Tick := ⟨[], capacity⟩

/-- `push`: whether the batch is full, also for a tick that is dropped. -/
def push (b : BatchBuffer Tick) (tick : Tick) : Bool × BatchBuffer Tick :=
  let idx := b.data.length
  if idx < b.capacity then (decide (idx + 1 ≥ b.capacity), { b with data := b.data ++ [tick] })
  else (true, b)

/-- `as_slice`. -/
def asSlice (b : BatchBuffer Tick) : List Tick := b.data

/-- `is_empty`. -/
def isEmpty (b : BatchBuffer Tick) : Bool := b.data.isEmpty

end BatchBuffer

/-- `MicroBatchCollector`, with the heap its buffers are in; `channel` holds the
addresses sent and not yet received. -/
structure MicroBatchCollector (Tick : Type u) where
  heap : List (BatchBuffer Tick)
  currentBatch : Nat
  channel : List Nat
  channelCapacity : Nat
  batchesSent : Nat
  ticksProcessed : Nat
  deriving Repr, DecidableEq

namespace MicroBatchCollector

/-- `MicroBatchCollector::new`. -/
def new (batchCapacity channelCapacity : Nat) : MicroBatchCollector Tick where
  heap := [.withCapacity (initialCapacity batchCapacity)]
  currentBatch := 0
  channel := []
  channelCapacity := channelCapacity
  batchesSent := 0
  ticksProcessed := 0

/-- The buffer at an address. -/
def batch (c : MicroBatchCollector Tick) (address : Nat) : BatchBuffer Tick :=
  c.heap[address]?.getD (.withCapacity 0)

/-- `flush_batch`. -/
def flushBatch (c : MicroBatchCollector Tick) (newBatchSize : Nat) :
    Except Unit Unit × MicroBatchCollector Tick :=
  if (c.batch c.currentBatch).isEmpty then (.ok (), c)
  else
    -- the new batch is allocated, and not used
    let allocated := { c with heap := c.heap ++ [.withCapacity newBatchSize] }
    let oldBatch := c.currentBatch
    if c.channel.length < c.channelCapacity then
      (.ok (),
        { allocated with
          channel := c.channel ++ [oldBatch]
          batchesSent := (c.batchesSent + 1) % 2 ^ 64 })
    else (.error (), allocated)

/-- `force_flush`. -/
def forceFlush (c : MicroBatchCollector Tick) (newBatchSize : Nat) :
    Except Unit Unit × MicroBatchCollector Tick :=
  c.flushBatch newBatchSize

/-- `add_tick`. -/
def addTick (c : MicroBatchCollector Tick) (tick : Tick) (newBatchSize : Nat) :
    Except Unit Unit × MicroBatchCollector Tick :=
  let pushed := (c.batch c.currentBatch).push tick
  let added :=
    { c with
      ticksProcessed := (c.ticksProcessed + 1) % 2 ^ 64
      heap := c.heap.set c.currentBatch pushed.2 }
  if pushed.1 then added.flushBatch newBatchSize else (.ok (), added)

end MicroBatchCollector

/-- A call on a collector. -/
inductive BatchCall (Tick : Type u) where
  | addTick (tick : Tick) (newBatchSize : Nat)
  | flushBatch (newBatchSize : Nat)
  | forceFlush (newBatchSize : Nat)
  deriving Repr, DecidableEq

namespace BatchCall

/-- The tick a call adds. -/
def tick? : BatchCall Tick → Option Tick
  | addTick tick _ => some tick
  | _ => none

/-- One call: its result, and the collector after it. -/
def perform (call : BatchCall Tick) (c : MicroBatchCollector Tick) :
    Except Unit Unit × MicroBatchCollector Tick :=
  match call with
  | addTick tick newBatchSize => c.addTick tick newBatchSize
  | flushBatch newBatchSize => c.flushBatch newBatchSize
  | forceFlush newBatchSize => c.forceFlush newBatchSize

end BatchCall

/-! ## Runs -/

/-- A collector, the ticks it has accepted, and the calls it has refused because the
channel was full. -/
structure Feed (Tick : Type u) where
  collector : MicroBatchCollector Tick
  accepted : List Tick
  refused : Nat
  deriving Repr, DecidableEq

namespace Feed

/-- One call. -/
def call (f : Feed Tick) (call : BatchCall Tick) : Feed Tick :=
  match call.perform f.collector with
  | (.ok _, collector) => ⟨collector, f.accepted ++ call.tick?.toList, f.refused⟩
  | (.error _, collector) => ⟨collector, f.accepted, f.refused + 1⟩

/-- A sequence of calls on a new collector. -/
def afterCalls (batchCapacity channelCapacity : Nat) (calls : List (BatchCall Tick)) : Feed Tick :=
  calls.foldl call ⟨.new batchCapacity channelCapacity, [], 0⟩

/-- The batches a consumer reads from the channel. -/
def received (f : Feed Tick) : List (List Tick) :=
  f.collector.channel.map fun address => (f.collector.batch address).asSlice

/-- **Every accepted tick is carried once**, in order: by the batches received, or by the
one being filled. -/
def CarriesOnce (f : Feed Tick) : Prop :=
  f.received.flatten ++ (f.collector.batch f.collector.currentBatch).asSlice = f.accepted

end Feed

/-- The ticks that are added. -/
def ticksAdded (calls : List (BatchCall Tick)) : List Tick := calls.filterMap BatchCall.tick?

/-- **Nothing is sent**: the ticks do not fill a batch, and every flush comes before the
first of them. -/
structure NothingSent (batchCapacity : Nat) (calls : List (BatchCall Tick)) : Prop where
  /-- no tick fills the batch -/
  few : (ticksAdded calls).length < initialCapacity batchCapacity
  /-- and a flush finds it empty -/
  flushes : ∀ before call after, calls = before ++ call :: after → call.tick? = none →
    ticksAdded before = []

/-- One call more. -/
theorem ticksAdded_concat (calls : List (BatchCall Tick)) (call : BatchCall Tick) :
    ticksAdded (calls ++ [call]) = ticksAdded calls ++ call.tick?.toList := by
  rw [ticksAdded, List.filterMap_append, List.filterMap_cons]
  cases call.tick? <;> rfl

/-- Nothing has been sent before the last call, and it sends nothing. -/
theorem nothingSent_concat {batchCapacity : Nat} {calls : List (BatchCall Tick)}
    {call : BatchCall Tick} :
    NothingSent batchCapacity (calls ++ [call]) ↔
      NothingSent batchCapacity calls ∧
        (ticksAdded (calls ++ [call])).length < initialCapacity batchCapacity ∧
        (call.tick? = none → ticksAdded calls = []) := by
  have hflushes := @forall_split_concat _
    (fun before (c : BatchCall Tick) => c.tick? = none → ticksAdded before = []) calls call
  constructor
  · intro h
    have hfew := h.few
    rw [ticksAdded_concat, List.length_append] at hfew
    obtain ⟨hbefore, hlast⟩ := hflushes.mp h.flushes
    exact ⟨⟨by omega, hbefore⟩, h.few, hlast⟩
  · rintro ⟨hbefore, hfew, hlast⟩
    exact ⟨hfew, hflushes.mpr ⟨hbefore.flushes, hlast⟩⟩

namespace MicroBatchCollector

/-- **What a flush does**, if it is not refused: it sends the address of the current
buffer, unless that is empty.  The buffers stay as they are, the current one stays the
current one. -/
theorem flushBatch_of_ok {c : MicroBatchCollector Tick} {newBatchSize : Nat}
    (hok : (c.flushBatch newBatchSize).1 = .ok ()) :
    (c.flushBatch newBatchSize).2.currentBatch = c.currentBatch ∧
      (∀ address < c.heap.length,
        (c.flushBatch newBatchSize).2.batch address = c.batch address) ∧
      c.heap.length ≤ (c.flushBatch newBatchSize).2.heap.length ∧
      (c.flushBatch newBatchSize).2.channel =
        if (c.batch c.currentBatch).isEmpty then c.channel
        else c.channel ++ [c.currentBatch] := by
  unfold flushBatch at hok ⊢
  by_cases hempty : (c.batch c.currentBatch).isEmpty = true
  · simp only [if_pos hempty]
    exact ⟨trivial, fun _ _ => trivial, Nat.le_refl _, trivial⟩
  · simp only [if_neg hempty] at hok ⊢
    by_cases hroom : c.channel.length < c.channelCapacity
    · simp only [if_pos hroom]
      refine ⟨trivial, fun address haddress => ?_, ?_, trivial⟩
      · unfold batch
        rw [List.getElem?_append_left haddress]
      · rw [List.length_append]
        exact Nat.le_add_right _ _
    · rw [if_neg hroom] at hok
      cases hok

/-- **Everything goes through one buffer**: it is the one being filled, and no other one
has been sent. -/
structure OneBuffer (c : MicroBatchCollector Tick) (b : BatchBuffer Tick) : Prop where
  /-- there is a buffer -/
  heap_ne : 0 < c.heap.length
  /-- it is the current one -/
  currentBatch : c.currentBatch = 0
  /-- which holds this -/
  batch : c.batch 0 = b
  /-- and nothing else was sent -/
  channel : ∀ address ∈ c.channel, address = 0

variable {c : MicroBatchCollector Tick} {b : BatchBuffer Tick}

/-- A flush that is not refused sends the buffer once more, unless it is empty. -/
theorem OneBuffer.flushBatch (h : c.OneBuffer b) {newBatchSize : Nat}
    (hok : (c.flushBatch newBatchSize).1 = .ok ()) :
    (c.flushBatch newBatchSize).2.OneBuffer b ∧
      (c.flushBatch newBatchSize).2.channel =
        if b.isEmpty then c.channel else c.channel ++ [0] := by
  obtain ⟨hcurrent, hbatch, hheap, hchannel⟩ := flushBatch_of_ok hok
  rw [h.currentBatch, h.batch] at hchannel
  refine ⟨⟨Nat.lt_of_lt_of_le h.heap_ne hheap, hcurrent.trans h.currentBatch,
    (hbatch 0 h.heap_ne).trans h.batch, ?_⟩, hchannel⟩
  rw [hchannel]
  split
  · exact h.channel
  · rw [List.forall_mem_append, List.forall_mem_singleton]
    exact ⟨h.channel, rfl⟩

/-- A tick that is not refused is pushed on the buffer, and a full buffer is flushed. -/
theorem OneBuffer.addTick (h : c.OneBuffer b) {tick : Tick} {newBatchSize : Nat}
    (hok : (c.addTick tick newBatchSize).1 = .ok ()) :
    (c.addTick tick newBatchSize).2.OneBuffer (b.push tick).2 ∧
      (c.addTick tick newBatchSize).2.channel =
        if (b.push tick).1 = true ∧ ¬ (b.push tick).2.isEmpty = true then c.channel ++ [0]
        else c.channel := by
  unfold MicroBatchCollector.addTick at hok ⊢
  simp only [h.currentBatch, h.batch] at hok ⊢
  have hadded : OneBuffer { c with
      heap := c.heap.set 0 (b.push tick).2
      currentBatch := 0
      ticksProcessed := (c.ticksProcessed + 1) % 2 ^ 64 } (b.push tick).2 := by
    refine ⟨?_, rfl, ?_, h.channel⟩
    · show 0 < (c.heap.set 0 (b.push tick).2).length
      rw [List.length_set]
      exact h.heap_ne
    · unfold MicroBatchCollector.batch
      rw [List.getElem?_set_self h.heap_ne, Option.getD_some]
  by_cases hfull : (b.push tick).1 = true
  · simp only [hfull, true_and] at hok ⊢
    obtain ⟨hone, hchannel⟩ := hadded.flushBatch hok
    rw [ite_not]
    exact ⟨hone, hchannel⟩
  · simp only [hfull] at hok ⊢
    exact ⟨hadded, rfl⟩

end MicroBatchCollector

namespace Feed

/-- **The collector after a sequence of calls none of which was refused.**  All that has
been sent is the address of the one buffer, which holds the first ticks; and every tick
from the one that fills it on has sent it once more. -/
structure Filling (batchCapacity : Nat) (calls : List (BatchCall Tick)) (f : Feed Tick) :
    Prop where
  /-- there is a buffer -/
  heap_ne : 0 < f.collector.heap.length
  /-- the first one is current -/
  currentBatch : f.collector.currentBatch = 0
  /-- it holds the first ticks -/
  batch : f.collector.batch 0 =
    ⟨(ticksAdded calls).take (initialCapacity batchCapacity), initialCapacity batchCapacity⟩
  /-- and is all that was sent -/
  channel : ∀ address ∈ f.collector.channel, address = 0
  /-- every tick was accepted -/
  accepted : f.accepted = ticksAdded calls
  /-- something was sent just when the calls say so -/
  sent : f.collector.channel = [] ↔ NothingSent batchCapacity calls
  /-- once more for every tick that found the buffer full -/
  many : initialCapacity batchCapacity ≤ (ticksAdded calls).length →
    (ticksAdded calls).length < initialCapacity batchCapacity + f.collector.channel.length

/-- A call that was not refused. -/
theorem call_of_refused_eq_zero {f : Feed Tick} {call : BatchCall Tick}
    (h : (f.call call).refused = 0) :
    f.refused = 0 ∧ (call.perform f.collector).1 = .ok () ∧
      f.call call =
        ⟨(call.perform f.collector).2, f.accepted ++ call.tick?.toList, f.refused⟩ := by
  unfold Feed.call at h ⊢
  split at h
  · rename_i heq
    rw [heq]
    exact ⟨h, rfl, rfl⟩
  · exact absurd h (Nat.succ_ne_zero _)

/-- A tick pushed on a buffer that holds the first ticks. -/
theorem push_take {capacity : Nat} (ticks : List Tick) (tick : Tick) :
    (⟨ticks.take capacity, capacity⟩ : BatchBuffer Tick).push tick =
      (decide (capacity ≤ ticks.length + 1), ⟨(ticks ++ [tick]).take capacity, capacity⟩) := by
  unfold BatchBuffer.push
  simp only [List.length_take]
  by_cases hroom : ticks.length < capacity
  · rw [Nat.min_eq_right hroom.le, if_pos hroom, List.take_of_length_le hroom.le,
      List.take_of_length_le (by rw [List.length_append, List.length_singleton]; omega)]
  · rw [not_lt] at hroom
    rw [Nat.min_eq_left hroom, if_neg (Nat.lt_irrefl _), List.take_append_of_le_length hroom,
      decide_eq_true (by omega)]

/-- Nothing has been added or sent. -/
theorem filling_new (batchCapacity channelCapacity : Nat) :
    Filling batchCapacity [] (⟨.new batchCapacity channelCapacity, [], 0⟩ : Feed Tick) where
  heap_ne := Nat.one_pos
  currentBatch := rfl
  batch := by
    rw [ticksAdded, List.filterMap_nil, List.take_nil]
    rfl
  channel := List.forall_mem_nil _
  accepted := rfl
  sent := iff_of_true rfl ⟨initialCapacity_pos batchCapacity, forall_split_nil⟩
  many h := absurd h (not_le.mpr (initialCapacity_pos batchCapacity))

section Step

variable {batchCapacity : Nat} {calls : List (BatchCall Tick)} {f : Feed Tick}

/-- Nothing but the first buffer is in use, -/
theorem Filling.oneBuffer (h : f.Filling batchCapacity calls) :
    f.collector.OneBuffer
      ⟨(ticksAdded calls).take (initialCapacity batchCapacity), initialCapacity batchCapacity⟩ :=
  ⟨h.heap_ne, h.currentBatch, h.batch, h.channel⟩

/-- A flush that is not refused. -/
theorem Filling.flush (h : f.Filling batchCapacity calls) {call : BatchCall Tick}
    (hflush : call.tick? = none) {newBatchSize : Nat}
    (hperform : call.perform f.collector = f.collector.flushBatch newBatchSize)
    (hroom : (f.call call).refused = 0) :
    (f.call call).Filling batchCapacity (calls ++ [call]) := by
  obtain ⟨-, hok, heq⟩ := call_of_refused_eq_zero hroom
  rw [hperform] at hok heq
  obtain ⟨hone, hchannel⟩ := h.oneBuffer.flushBatch hok
  have hticks : ticksAdded (calls ++ [call]) = ticksAdded calls := by
    rw [ticksAdded_concat, hflush]
    exact List.append_nil _
  have hempty : (⟨(ticksAdded calls).take (initialCapacity batchCapacity),
      initialCapacity batchCapacity⟩ : BatchBuffer Tick).isEmpty = true ↔
      ticksAdded calls = [] := by
    rw [BatchBuffer.isEmpty, List.isEmpty_iff, List.take_eq_nil_iff,
      or_iff_right (initialCapacity_pos batchCapacity).ne']
  rw [heq]
  refine ⟨hone.heap_ne, hone.currentBatch, ?_, hone.channel, ?_, ?_, ?_⟩
  · rw [hticks]
    exact hone.batch
  · show f.accepted ++ call.tick?.toList = _
    rw [hticks, hflush, ← h.accepted]
    exact List.append_nil _
  · show (f.collector.flushBatch newBatchSize).2.channel = [] ↔ _
    rw [nothingSent_concat, hticks, hchannel, ← h.sent]
    by_cases hnone : ticksAdded calls = []
    · rw [if_pos (hempty.mpr hnone), hnone]
      exact ⟨fun hsent => ⟨hsent, initialCapacity_pos batchCapacity, fun _ => rfl⟩, fun h => h.1⟩
    · rw [if_neg (mt hempty.mp hnone)]
      exact iff_of_false (List.append_ne_nil_of_right_ne_nil _ (List.cons_ne_nil _ _))
        fun h => hnone (h.2.2 hflush)
  · intro hmany
    rw [hticks] at hmany ⊢
    refine Nat.lt_of_lt_of_le (h.many hmany) (Nat.add_le_add_left ?_ _)
    show _ ≤ (f.collector.flushBatch newBatchSize).2.channel.length
    rw [hchannel]
    split
    · exact Nat.le_refl _
    · rw [List.length_append]
      exact Nat.le_add_right _ _

/-- A tick that is not refused. -/
theorem Filling.addTick (h : f.Filling batchCapacity calls) (tick : Tick) (newBatchSize : Nat)
    (hroom : (f.call (.addTick tick newBatchSize)).refused = 0) :
    (f.call (.addTick tick newBatchSize)).Filling batchCapacity
      (calls ++ [.addTick tick newBatchSize]) := by
  obtain ⟨-, hok, heq⟩ := call_of_refused_eq_zero hroom
  have hticks : ticksAdded (calls ++ [.addTick tick newBatchSize]) = ticksAdded calls ++ [tick] :=
    ticksAdded_concat calls _
  have hlength : (ticksAdded (calls ++ [.addTick tick newBatchSize])).length =
      (ticksAdded calls).length + 1 := by
    rw [hticks, List.length_append, List.length_singleton]
  have hnonempty : ¬ (⟨(ticksAdded calls ++ [tick]).take (initialCapacity batchCapacity),
      initialCapacity batchCapacity⟩ : BatchBuffer Tick).isEmpty = true := by
    rw [BatchBuffer.isEmpty, List.isEmpty_iff, List.take_eq_nil_iff,
      or_iff_right (initialCapacity_pos batchCapacity).ne']
    exact List.append_ne_nil_of_right_ne_nil _ (List.cons_ne_nil _ _)
  obtain ⟨hone, hchannel⟩ := h.oneBuffer.addTick hok
  rw [push_take] at hone hchannel
  simp only [decide_eq_true_eq, hnonempty, Bool.false_eq_true, not_false_eq_true,
    and_true] at hchannel
  rw [heq]
  refine ⟨hone.heap_ne, hone.currentBatch, ?_, hone.channel, ?_, ?_, ?_⟩
  · rw [hticks]
    exact hone.batch
  · show f.accepted ++ [tick] = _
    rw [hticks, h.accepted]
  · show (f.collector.addTick tick newBatchSize).2.channel = [] ↔ _
    rw [nothingSent_concat, hlength, hchannel]
    by_cases hfull : initialCapacity batchCapacity ≤ (ticksAdded calls).length + 1
    · rw [if_pos hfull]
      exact iff_of_false (List.append_ne_nil_of_right_ne_nil _ (List.cons_ne_nil _ _))
        fun h => absurd h.2.1 (not_lt.mpr hfull)
    · rw [if_neg hfull, h.sent]
      exact ⟨fun hsent => ⟨hsent, not_le.mp hfull, fun hnone => nomatch hnone⟩, fun h => h.1⟩
  · intro hmany
    show _ < _ + (f.collector.addTick tick newBatchSize).2.channel.length
    rw [hlength] at hmany ⊢
    rw [hchannel, if_pos hmany, List.length_append, List.length_singleton]
    -- the tick that fills the buffer is the first one to send it
    by_cases hbefore : initialCapacity batchCapacity ≤ (ticksAdded calls).length
    · have := h.many hbefore
      omega
    · omega

end Step

/-- and this after every sequence of calls that was not refused. -/
theorem filling_afterCalls (batchCapacity channelCapacity : Nat) (calls : List (BatchCall Tick))
    (hroom : (afterCalls batchCapacity channelCapacity calls).refused = 0) :
    (afterCalls batchCapacity channelCapacity calls).Filling batchCapacity calls := by
  induction calls using List.reverseRecOn with
  | nil => exact filling_new batchCapacity channelCapacity
  | append_singleton calls call ih =>
      have hcalls : afterCalls batchCapacity channelCapacity (calls ++ [call]) =
          (afterCalls batchCapacity channelCapacity calls).call call := by
        rw [afterCalls, List.foldl_concat]
        rfl
      rw [hcalls] at hroom ⊢
      have filling := ih (call_of_refused_eq_zero hroom).1
      cases call with
      | addTick tick newBatchSize => exact filling.addTick tick newBatchSize hroom
      | flushBatch newBatchSize => exact filling.flush rfl rfl hroom
      | forceFlush newBatchSize => exact filling.flush rfl rfl hroom

/-- Without ticks there is nothing to send. -/
theorem nothingSent_of_ticksAdded_eq_nil {batchCapacity : Nat} {calls : List (BatchCall Tick)}
    (h : ticksAdded calls = []) : NothingSent batchCapacity calls := by
  refine ⟨by rw [h]; exact initialCapacity_pos batchCapacity, fun before call after hsplit _ => ?_⟩
  rw [hsplit, ticksAdded, List.filterMap_append, List.append_eq_nil_iff] at h
  exact h.1

/-- **When every tick is carried once**: for all capacities and every sequence of calls
of which none is refused for want of room, just when nothing has been sent. -/
theorem carriesOnce_iff_nothingSent (batchCapacity channelCapacity : Nat)
    (calls : List (BatchCall Tick))
    (hroom : (afterCalls batchCapacity channelCapacity calls).refused = 0) :
    (afterCalls batchCapacity channelCapacity calls).CarriesOnce ↔
      NothingSent batchCapacity calls := by
  have h := filling_afterCalls batchCapacity channelCapacity calls hroom
  generalize afterCalls batchCapacity channelCapacity calls = f at h hroom
  have hchannel := List.eq_replicate_of_mem h.channel
  unfold CarriesOnce received BatchBuffer.asSlice
  rw [h.currentBatch, hchannel, List.map_replicate, h.batch, h.accepted]
  constructor
  · intro hcarried
    have hlength := congrArg List.length hcarried
    rw [List.length_append, List.length_flatten, List.map_replicate, List.sum_replicate_nat,
      List.length_take] at hlength
    rw [← h.sent]
    by_contra hsent
    have hpos : 0 < f.collector.channel.length := List.length_pos_iff.mpr hsent
    by_cases hmany : initialCapacity batchCapacity ≤ (ticksAdded calls).length
    · -- as many copies of a full buffer as ticks from the filling one on are too many
      rw [Nat.min_eq_left hmany] at hlength
      have hcopies := Nat.le_mul_of_pos_right f.collector.channel.length
        (initialCapacity_pos batchCapacity)
      have := h.many hmany
      omega
    · rw [Nat.min_eq_right (by omega)] at hlength
      have hcopies := Nat.le_mul_of_pos_left (ticksAdded calls).length hpos
      have hnil : ticksAdded calls = [] := List.length_eq_zero_iff.mp (by omega)
      exact hsent (h.sent.mpr (nothingSent_of_ticksAdded_eq_nil hnil))
  · intro hnothing
    rw [h.sent.mpr hnothing]
    exact List.take_of_length_le (Nat.le_of_lt hnothing.few)

/-- Three ticks and a flush: the consumer gets the buffer that is still being filled. -/
theorem not_forall_carriesOnce :
    ¬ ∀ (batchCapacity channelCapacity : Nat) (calls : List (BatchCall Nat)),
      (afterCalls batchCapacity channelCapacity calls).refused = 0 →
        (afterCalls batchCapacity channelCapacity calls).CarriesOnce := by
  intro h
  have hcarried := h 16 4 [.addTick 1 16, .addTick 2 16, .addTick 3 16, .forceFlush 16] (by decide)
  unfold CarriesOnce at hcarried
  revert hcarried
  decide

/-- Two ticks that stay in the buffer. -/
theorem carriesOnce_unsent :
    (afterCalls 16 4 [BatchCall.addTick 1 16, .addTick 2 16]).CarriesOnce ↔
      NothingSent 16 [BatchCall.addTick 1 16, .addTick 2 16] :=
  carriesOnce_iff_nothingSent 16 4 _ (by decide)

end Feed

end StopTrading.Dataflow
