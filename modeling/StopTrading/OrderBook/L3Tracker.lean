import StopTrading.Library.MachineInt
import StopTrading.Library.Transition
import Mathlib.Data.List.AList
import Mathlib.Tactic.NormNum

/-!
# The L3 order tracker

`L3Tracker` maps order ids to queue positions, keeps the ids of each price level in the
order they came, and counts the orders and the memory they take.  The concurrent maps are
`AList`s and the level queues lists: only single calls are considered, one after the other.
A call that reads the clock takes the reading as an argument.

`insert_order` counts an order whether or not its id is tracked already, and the map
replaces the entry.  So the counters are right exactly in the runs in which every order
that is let in is a new one (`accounted_iff_untracked`).  The memory limit keeps both
counters far away from the end of their range, so they never wrap.

### What is load-bearing

There are five kinds of call, and they come to three: a call lets an order in, clears, or reduces
(`apply_cases`).  `Reduced` says of the last what all of them have in common: orders go or change
their size, none moves to another level, and the queues stay as they are.  The queue positions
are then proved from these three as well.

The counters are words and wrap, and the proofs are about numbers.  The memory limit, given in
megabytes, keeps them so far from the end of their range that one insertion beyond it does no
harm; `Inv.limit` is what remains of this.
-/

namespace StopTrading.Book

open Transition MachineInt

/-- `Side`. -/
inductive Side where
  | bid
  | ask
  deriving Repr, DecidableEq

/-- The key of a price level: symbol, price and side. -/
abbrev LevelKey := String × Int × Side

/-- `QueuePosition`. -/
structure QueuePosition where
  orderId : Nat
  symbol : String
  side : Side
  price : Int
  originalSize : Nat
  remainingSize : Nat
  queuePosition : Nat
  estimatedAheadSize : Nat
  timestampNs : Nat
  lastUpdateNs : Nat
  deriving Repr, DecidableEq

/-- The level an order rests at. -/
def QueuePosition.level (q : QueuePosition) : LevelKey := (q.symbol, q.price, q.side)

/-- The times an order is let in with. -/
def QueuePosition.stamp (q : QueuePosition) (now : Nat) : QueuePosition :=
  { q with timestampNs := now, lastUpdateNs := now }

/-- A new remaining size. -/
def QueuePosition.resize (q : QueuePosition) (newRemaining now : Nat) : QueuePosition :=
  { q with remainingSize := newRemaining, lastUpdateNs := now }

/-- `size_of::<QueuePosition>() + 128`: eight words, a `String` and a `Side` make 96. -/
def estimatedSize : Nat := 96 + 128

/-- `L3Tracker`. -/
structure L3Tracker where
  orders : AList fun _ : Nat => QueuePosition
  levelOrders : AList fun _ : LevelKey => List Nat
  totalOrders : Nat
  memoryBytes : Nat
  maxMemoryBytes : Nat

namespace L3Tracker

/-- `new`. -/
def new (maxMemoryMb : Nat) : L3Tracker where
  orders := ∅
  levelOrders := ∅
  totalOrders := 0
  memoryBytes := 0
  maxMemoryBytes := maxMemoryMb * 1024 * 1024 % 2 ^ 64

/-- The ids in the queue of a level. -/
def queue (t : L3Tracker) (key : LevelKey) : List Nat := (t.levelOrders.lookup key).getD []

/-- The memory limit has room for one more order. -/
def HasRoom (t : L3Tracker) : Prop := (t.memoryBytes + estimatedSize) % 2 ^ 64 ≤ t.maxMemoryBytes

instance (t : L3Tracker) : Decidable t.HasRoom := inferInstanceAs (Decidable (_ ≤ _))

/-- `insert_order`. -/
def insertOrder (t : L3Tracker) (position : QueuePosition) (now : Nat) :
    L3Tracker × Except String Unit :=
  if ¬ t.HasRoom then (t, .error "L3 tracker memory limit exceeded")
  else
    ({ t with
        orders := t.orders.insert position.orderId (position.stamp now)
        levelOrders := t.levelOrders.insert position.level
          (t.queue position.level ++ [position.orderId])
        totalOrders := (t.totalOrders + 1) % 2 ^ 64
        memoryBytes := (t.memoryBytes + estimatedSize) % 2 ^ 64 },
      .ok ())

/-- `remove_order`.  The level queue keeps the id. -/
def removeOrder (t : L3Tracker) (orderId : Nat) : L3Tracker × Option QueuePosition :=
  match t.orders.lookup orderId with
  | none => (t, none)
  | some position =>
      ({ t with
          orders := t.orders.erase orderId
          totalOrders := u64 ((t.totalOrders : Int) - 1)
          memoryBytes := u64 ((t.memoryBytes : Int) - estimatedSize) },
        some position)

/-- `update_order_size`: an order of size zero goes. -/
def updateOrderSize (t : L3Tracker) (orderId newRemaining now : Nat) :
    L3Tracker × Option QueuePosition :=
  match t.orders.lookup orderId with
  | none => (t, none)
  | some position =>
      let position := position.resize newRemaining now
      let resized := { t with orders := t.orders.insert orderId position }
      if newRemaining = 0 then resized.removeOrder orderId else (resized, some position)

/-- The loop of `estimate_queue_position`, from a position on. -/
def positionLoop (orders : AList fun _ : Nat => QueuePosition) (orderId : Nat) :
    Nat → List Nat → Option Nat
  | _, [] => none
  | position, oid :: queue =>
      if oid = orderId then some position
      else
        match orders.lookup oid with
        | none => positionLoop orders orderId position queue
        | some q => positionLoop orders orderId ((position + q.remainingSize) % 2 ^ 64) queue

/-- `estimate_queue_position`. -/
def estimateQueuePosition (t : L3Tracker) (key : LevelKey) (orderId : Nat) : Nat :=
  match t.levelOrders.lookup key with
  | none => 0
  | some queue => (positionLoop t.orders orderId 0 queue).getD (2 ^ 64 - 1)

/-- `get_level_orders`. -/
def getLevelOrders (t : L3Tracker) (key : LevelKey) : List QueuePosition :=
  (t.queue key).filterMap t.orders.lookup

/-- The ids that `purge_stale` collects. -/
def staleIds (t : L3Tracker) (maxAgeNs now : Nat) : List Nat :=
  (t.orders.entries.filter fun e =>
    u64 ((now : Int) - e.2.lastUpdateNs) > maxAgeNs).map fun e => e.1

/-- `purge_stale`, without the number of orders it returns. -/
def purgeStale (t : L3Tracker) (maxAgeNs now : Nat) : L3Tracker :=
  (t.staleIds maxAgeNs now).foldl (fun t orderId => (t.removeOrder orderId).1) t

/-- `clear`. -/
def clear (t : L3Tracker) : L3Tracker :=
  { t with orders := ∅, levelOrders := ∅, totalOrders := 0, memoryBytes := 0 }

/-- The calls that write a tracker. -/
inductive Call where
  | insertOrder (position : QueuePosition) (now : Nat)
  | updateOrderSize (orderId newRemaining now : Nat)
  | removeOrder (orderId : Nat)
  | purgeStale (maxAgeNs now : Nat)
  | clear
  deriving Repr, DecidableEq

/-- What a call leaves behind. -/
def apply (t : L3Tracker) : Call → L3Tracker
  | .insertOrder position now => (t.insertOrder position now).1
  | .updateOrderSize orderId newRemaining now => (t.updateOrderSize orderId newRemaining now).1
  | .removeOrder orderId => (t.removeOrder orderId).1
  | .purgeStale maxAgeNs now => t.purgeStale maxAgeNs now
  | .clear => t.clear

/-- Every call is possible. -/
def step (t : L3Tracker) (c : Call) : Option L3Tracker := some (t.apply c)

/-! ## What a call does -/

/-- **An order is let in** as it is, but for the times. -/
structure Inserted (t : L3Tracker) (position : QueuePosition) (t' : L3Tracker) : Prop where
  /-- the order is found by its id -/
  stored : ∃ q : QueuePosition, q.orderId = position.orderId ∧ q.level = position.level ∧
    t'.orders = t.orders.insert position.orderId q
  /-- its id is the last at its level -/
  queue_self : t'.queue position.level = t.queue position.level ++ [position.orderId]
  /-- and at no other -/
  queue_of_ne : ∀ key, key ≠ position.level → t'.queue key = t.queue key
  /-- it is counted -/
  totalOrders : t'.totalOrders = (t.totalOrders + 1) % 2 ^ 64
  /-- with its memory -/
  memoryBytes : t'.memoryBytes = (t.memoryBytes + estimatedSize) % 2 ^ 64
  /-- below the same limit -/
  maxMemoryBytes : t'.maxMemoryBytes = t.maxMemoryBytes

/-- Without room nothing is let in, -/
theorem insertOrder_full {t : L3Tracker} (position : QueuePosition) (now : Nat)
    (h : ¬ t.HasRoom) : (t.insertOrder position now).1 = t := by
  rw [insertOrder, if_pos h]

/-- and with room the order is, whoever has its id. -/
theorem insertOrder_room {t : L3Tracker} (position : QueuePosition) (now : Nat)
    (h : t.HasRoom) : t.Inserted position (t.insertOrder position now).1 := by
  rw [insertOrder, if_neg (not_not_intro h)]
  refine ⟨⟨position.stamp now, rfl, rfl, rfl⟩, ?_, fun key hkey => ?_, rfl, rfl, rfl⟩
  · show ((t.levelOrders.insert _ _).lookup position.level).getD [] = _
    rw [AList.lookup_insert]
    rfl
  · show ((t.levelOrders.insert _ _).lookup key).getD [] = _
    rw [AList.lookup_insert_ne hkey]
    rfl

/-- **Taking orders out and changing their sizes**: what every call but an insertion or a
clearing does.  Orders stay at their level, and the queues stay as they are. -/
structure Reduced (t t' : L3Tracker) : Prop where
  /-- what is left was there -/
  from_tracked : ∀ id q', t'.orders.lookup id = some q' →
    ∃ q, t.orders.lookup id = some q ∧ q'.level = q.level ∧ q'.orderId = q.orderId
  /-- in the same queues -/
  levelOrders : t'.levelOrders = t.levelOrders
  /-- below the same limit -/
  maxMemoryBytes : t'.maxMemoryBytes = t.maxMemoryBytes

/-- Nothing has gone, -/
theorem Reduced.refl (t : L3Tracker) : t.Reduced t :=
  ⟨fun _ q h => ⟨q, h, rfl, rfl⟩, rfl, rfl⟩

/-- or something, and then something else; -/
theorem Reduced.trans {t t' t'' : L3Tracker} (h : t.Reduced t') (h' : t'.Reduced t'') :
    t.Reduced t'' := by
  refine ⟨fun id q'' hlookup => ?_, h'.levelOrders.trans h.levelOrders,
    h'.maxMemoryBytes.trans h.maxMemoryBytes⟩
  obtain ⟨q', hq', hlevel', hid'⟩ := h'.from_tracked id q'' hlookup
  obtain ⟨q, hq, hlevel, hid⟩ := h.from_tracked id q' hq'
  exact ⟨q, hq, hlevel'.trans hlevel, hid'.trans hid⟩

/-- the queues are as they were. -/
theorem Reduced.queue_eq {t t' : L3Tracker} (h : t.Reduced t') (key : LevelKey) :
    t'.queue key = t.queue key := by
  rw [queue, h.levelOrders]
  rfl

/-- Removing an order reduces, -/
theorem removeOrder_reduced (t : L3Tracker) (orderId : Nat) :
    t.Reduced (t.removeOrder orderId).1 := by
  unfold removeOrder
  cases hlookup : t.orders.lookup orderId with
  | none => exact .refl t
  | some position =>
      refine ⟨fun id q' hq' => ⟨q', ?_, rfl, rfl⟩, rfl, rfl⟩
      change (t.orders.erase orderId).lookup id = some q' at hq'
      by_cases hid : id = orderId
      · rw [hid, AList.lookup_erase] at hq'
        cases hq'
      · rwa [AList.lookup_erase_ne hid] at hq'

/-- Writing an order again with another size. -/
theorem resize_reduced {t : L3Tracker} {orderId : Nat} {position : QueuePosition}
    (hlookup : t.orders.lookup orderId = some position) (newRemaining now : Nat) :
    t.Reduced { t with orders := t.orders.insert orderId (position.resize newRemaining now) } := by
  refine ⟨fun id q' hq' => ?_, rfl, rfl⟩
  by_cases hid : id = orderId
  · subst hid
    rw [AList.lookup_insert] at hq'
    cases hq'
    exact ⟨position, hlookup, rfl, rfl⟩
  · rw [AList.lookup_insert_ne hid] at hq'
    exact ⟨q', hq', rfl, rfl⟩

/-- and so does changing its size, -/
theorem updateOrderSize_reduced (t : L3Tracker) (orderId newRemaining now : Nat) :
    t.Reduced (t.updateOrderSize orderId newRemaining now).1 := by
  unfold updateOrderSize
  cases hlookup : t.orders.lookup orderId with
  | none => exact .refl t
  | some position =>
      have hresized := resize_reduced hlookup newRemaining now
      dsimp only
      split
      · exact hresized.trans (removeOrder_reduced _ orderId)
      · exact hresized

/-- or removing many. -/
theorem foldl_removeOrder_reduced (ids : List Nat) (t : L3Tracker) :
    t.Reduced (ids.foldl (fun t orderId => (t.removeOrder orderId).1) t) := by
  induction ids generalizing t with
  | nil => exact .refl t
  | cons orderId ids ih => exact (removeOrder_reduced t orderId).trans (ih _)

/-- **Every call** lets an order in, is refused, clears or reduces. -/
theorem apply_cases (t : L3Tracker) (c : Call) :
    (∃ position now, c = .insertOrder position now ∧ t.HasRoom ∧ t.Inserted position (t.apply c)) ∨
      (∃ position now, c = .insertOrder position now ∧ ¬ t.HasRoom ∧ t.apply c = t) ∨
      (c = .clear ∧ t.apply c = t.clear) ∨
      ((∀ position now, c ≠ .insertOrder position now) ∧ c ≠ .clear ∧ t.Reduced (t.apply c)) := by
  cases c with
  | insertOrder position now =>
      by_cases hroom : t.HasRoom
      · exact .inl ⟨position, now, rfl, hroom, insertOrder_room position now hroom⟩
      · exact .inr (.inl ⟨position, now, rfl, hroom, insertOrder_full position now hroom⟩)
  | updateOrderSize orderId newRemaining now =>
      exact .inr (.inr (.inr ⟨nofun, nofun, updateOrderSize_reduced t orderId newRemaining now⟩))
  | removeOrder orderId => exact .inr (.inr (.inr ⟨nofun, nofun, removeOrder_reduced t orderId⟩))
  | purgeStale maxAgeNs now =>
      exact .inr (.inr (.inr ⟨nofun, nofun, foldl_removeOrder_reduced _ t⟩))
  | clear => exact .inr (.inr (.inl ⟨rfl, rfl⟩))

/-! ## The counters -/

/-- The number of orders in the map. -/
def orderCount (t : L3Tracker) : Nat := t.orders.keys.length

/-- A new order is one more, -/
theorem orderCount_insert_of_notMem {t t' : L3Tracker} {id : Nat} {q : QueuePosition}
    (horders : t'.orders = t.orders.insert id q) (h : id ∉ t.orders) :
    t'.orderCount = t.orderCount + 1 := by
  rw [orderCount, horders, AList.keys_insert, List.length_cons,
    List.erase_of_not_mem (fun hmem => h (AList.mem_keys.mpr hmem))]
  rfl

/-- and one that replaces another is not. -/
theorem orderCount_insert_of_mem {t t' : L3Tracker} {id : Nat} {q : QueuePosition}
    (horders : t'.orders = t.orders.insert id q) (h : id ∈ t.orders) :
    t'.orderCount = t.orderCount := by
  have hmem := AList.mem_keys.mp h
  have hpos := List.length_pos_of_mem hmem
  rw [orderCount, horders, AList.keys_insert, List.length_cons, List.length_erase_of_mem hmem,
    orderCount]
  omega

/-- **The counters are those of the map.** -/
structure Accounted (t : L3Tracker) : Prop where
  /-- orders are counted once -/
  totalOrders : t.totalOrders = t.orderCount
  /-- and so is their memory -/
  memoryBytes : t.memoryBytes = t.orderCount * estimatedSize

/-- **An order that is let in is a new one.** -/
def Untracked (t : L3Tracker) (c : Call) (_ : L3Tracker) : Prop :=
  ∀ position now, c = .insertOrder position now → t.HasRoom → position.orderId ∉ t.orders

/-- The invariant: the counters are right, within a limit that is far from `u64::MAX`. -/
structure Inv (t : L3Tracker) : Prop where
  /-- the counters are right -/
  accounted : t.Accounted
  /-- within the limit -/
  within : t.memoryBytes ≤ t.maxMemoryBytes
  /-- which is small -/
  limit : t.maxMemoryBytes ≤ 2 ^ 64 - 2 ^ 20

/-- A new tracker counts nothing. -/
theorem inv_new (maxMemoryMb : Nat) : (new maxMemoryMb).Inv := by
  refine ⟨⟨rfl, rfl⟩, Nat.zero_le _, ?_⟩
  show maxMemoryMb * 1024 * 1024 % 2 ^ 64 ≤ 2 ^ 64 - 2 ^ 20
  omega

/-- Removing an order keeps the invariant. -/
theorem Inv.removeOrder {t : L3Tracker} (inv : t.Inv) (orderId : Nat) :
    (t.removeOrder orderId).1.Inv := by
  unfold L3Tracker.removeOrder
  cases hlookup : t.orders.lookup orderId with
  | none => exact inv
  | some position =>
      have hmem : orderId ∈ t.orders.keys :=
        AList.mem_keys.mp (AList.lookup_isSome.mp (by rw [hlookup]; rfl))
      have hpos : 0 < t.orderCount := List.length_pos_of_mem hmem
      have hcount : (t.orders.erase orderId).keys.length = t.orderCount - 1 := by
        rw [AList.keys_erase, List.length_erase_of_mem hmem]
        rfl
      have hsize := inv.accounted.memoryBytes
      have htotal := inv.accounted.totalOrders
      have hwithin := inv.within
      have hlimit := inv.limit
      unfold estimatedSize at hsize
      have htotal' : u64 ((t.totalOrders : Int) - 1) = t.orderCount - 1 := by
        rw [u64_of_range (by omega) (by omega)]
        omega
      have hsize' : u64 ((t.memoryBytes : Int) - estimatedSize) =
          (t.orderCount - 1) * estimatedSize := by
        unfold estimatedSize
        rw [u64_of_range (by push_cast; omega) (by omega)]
        omega
      refine ⟨⟨htotal'.trans hcount.symm, ?_⟩, ?_, inv.limit⟩
      · exact hsize'.trans (congrArg (· * estimatedSize) hcount.symm)
      · show u64 ((t.memoryBytes : Int) - estimatedSize) ≤ t.maxMemoryBytes
        rw [hsize']
        unfold estimatedSize
        omega

/-- Changing the size of an order keeps the invariant. -/
theorem Inv.resize {t : L3Tracker} (inv : t.Inv) {orderId : Nat} (h : orderId ∈ t.orders)
    (q : QueuePosition) : Inv { t with orders := t.orders.insert orderId q } := by
  have hcount : orderCount { t with orders := t.orders.insert orderId q } = t.orderCount :=
    orderCount_insert_of_mem rfl h
  refine ⟨⟨?_, ?_⟩, inv.within, inv.limit⟩
  · rw [hcount]
    exact inv.accounted.totalOrders
  · rw [hcount]
    exact inv.accounted.memoryBytes

/-- Changing a size, or removing what has none left. -/
theorem Inv.updateOrderSize {t : L3Tracker} (inv : t.Inv) (orderId newRemaining now : Nat) :
    (t.updateOrderSize orderId newRemaining now).1.Inv := by
  unfold L3Tracker.updateOrderSize
  cases hlookup : t.orders.lookup orderId with
  | none => exact inv
  | some position =>
      have hresized := inv.resize (AList.lookup_isSome.mp (by rw [hlookup]; rfl))
        (position.resize newRemaining now)
      dsimp only
      split
      · exact hresized.removeOrder orderId
      · exact hresized

/-- **Letting a new order in** keeps the invariant. -/
theorem Inv.inserted {t t' : L3Tracker} (inv : t.Inv) {position : QueuePosition}
    (h : t.Inserted position t') (hroom : t.HasRoom) (hnew : position.orderId ∉ t.orders) :
    t'.Inv := by
  obtain ⟨q, -, -, horders⟩ := h.stored
  have hcount := orderCount_insert_of_notMem horders hnew
  have htotal := inv.accounted.totalOrders
  have hsize := inv.accounted.memoryBytes
  have hwithin := inv.within
  have hlimit := inv.limit
  unfold HasRoom at hroom
  unfold estimatedSize at hsize hroom
  refine ⟨⟨?_, ?_⟩, ?_, h.maxMemoryBytes ▸ inv.limit⟩
  · rw [h.totalOrders, hcount]
    omega
  · rw [h.memoryBytes, hcount]
    unfold estimatedSize
    omega
  · rw [h.memoryBytes, h.maxMemoryBytes]
    exact hroom

/-- A call that lets only new orders in keeps the invariant. -/
theorem Inv.step {t t' : L3Tracker} {c : Call} (inv : t.Inv) (hstep : t.step c = some t')
    (hnew : t.Untracked c t') : t'.Inv := by
  cases hstep
  cases c with
  | insertOrder position now =>
      by_cases hroom : t.HasRoom
      · exact inv.inserted (insertOrder_room position now hroom) hroom (hnew position now rfl hroom)
      · show (t.insertOrder position now).1.Inv
        rw [insertOrder_full position now hroom]
        exact inv
  | updateOrderSize orderId newRemaining now => exact inv.updateOrderSize orderId newRemaining now
  | removeOrder orderId => exact inv.removeOrder orderId
  | purgeStale maxAgeNs now =>
      show ((t.staleIds maxAgeNs now).foldl (fun t orderId => (t.removeOrder orderId).1) t).Inv
      generalize t.staleIds maxAgeNs now = ids
      induction ids generalizing t with
      | nil => exact inv
      | cons orderId ids ih => exact ih (inv.removeOrder orderId) (by rintro _ _ ⟨⟩)
  | clear => exact ⟨⟨rfl, (Nat.zero_mul _).symm⟩, Nat.zero_le _, inv.limit⟩

/-- **An order that is tracked already is counted twice.** -/
theorem untracked_of_accounted {t t' : L3Tracker} {c : Call} (inv : t.Inv)
    (hstep : t.step c = some t') (h : t'.Accounted) : t.Untracked c t' := by
  rintro position now rfl hroom htracked
  obtain rfl : (t.insertOrder position now).1 = t' := Option.some.inj hstep
  have hinserted := insertOrder_room position now hroom
  obtain ⟨q, -, -, horders⟩ := hinserted.stored
  have hcount := orderCount_insert_of_mem horders htracked
  have htotal' := h.totalOrders
  have htotal := inv.accounted.totalOrders
  have hsize := inv.accounted.memoryBytes
  have hwithin := inv.within
  have hlimit := inv.limit
  unfold estimatedSize at hsize
  rw [hinserted.totalOrders, hcount] at htotal'
  omega

/-- Right counters come of orders that are new. -/
theorem untracked_of_allStates {maxMemoryMb : Nat} {calls : List Call}
    (h : AllStates step Accounted (new maxMemoryMb) calls) :
    AllSteps step Untracked (new maxMemoryMb) calls :=
  h.allSteps (fun _ _ _ (inv : Inv _) hstep hnew => inv.step hstep hnew)
    (fun _ _ _ (inv : Inv _) hstep h => untracked_of_accounted inv hstep h) (inv_new maxMemoryMb)

/-- **The counters of the tracker** are right in every state of a run exactly when every
order that is let in is a new one. -/
theorem accounted_iff_untracked (maxMemoryMb : Nat) (calls : List Call) :
    AllSteps step Untracked (new maxMemoryMb) calls ↔
      AllStates step Accounted (new maxMemoryMb) calls :=
  ⟨AllStates.of_invariant (fun _ (inv : Inv _) => inv.accounted)
    (fun _ _ _ (inv : Inv _) hstep hnew => inv.step hstep hnew) (inv_new maxMemoryMb),
    untracked_of_allStates⟩

/-- A bid for one unit at a price. -/
def unitBid (orderId : Nat) (price : Int) : QueuePosition :=
  ⟨orderId, "BTCUSD", .bid, price, 1, 1, 0, 0, 0, 0⟩

/-- **An order sent again is counted twice.** -/
theorem not_forall_accounted :
    ¬ ∀ (maxMemoryMb : Nat) (calls : List Call),
      AllStates step Accounted (new maxMemoryMb) calls := by
  intro h
  have hsteps := untracked_of_allStates
    (h 100 [.insertOrder (unitBid 1 50000) 1, .insertOrder (unitBid 1 50000) 2])
  obtain ⟨-, hsecond, -⟩ := hsteps
  exact hsecond (unitBid 1 50000) 2 rfl (by decide) (AList.mem_keys.mpr (by decide))

end L3Tracker

end StopTrading.Book
