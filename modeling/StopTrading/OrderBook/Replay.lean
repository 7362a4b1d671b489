import StopTrading.Library.MachineInt
import Mathlib.Data.List.AList
import Mathlib.Data.List.Sort

/-!
# The order book, and deltas that come again

`OrderBook` is built from a snapshot and then follows a stream of deltas; a delta whose
sequence number is not above that of the book is ignored.  The ordered maps are `AList`s;
their order shows in the cached volume only.

Once a book holds a sequence number, deltas that come again do nothing, in whatever order
they come (`applyAll_stale`, `applyAll_fresh`).  But `from_snapshot` writes the update id
of the snapshot to a field that the test does not read, and leaves the sequence number at
zero.  So a stream that overlaps the snapshot is applied from its first delta on, and the
snapshot protects the book exactly against deltas with the number zero
(`overlapSafe_iff`).

### What is load-bearing

The number of an initialised book is the greatest number it has been given
(`sequence_applyDelta`), and a delta at or below it does nothing.  From these two everything
about repeated streams follows, without looking at a level: what was applied is at or below the
number, so it can come again, in any order.

The snapshot is what this does not cover.  It sets `last_update_id` and leaves `sequence` at
zero, so the test is against zero until the first delta.  A delta from the time before the
snapshot is therefore applied, and if it changes nothing else it still moves the number of the
book; this is why `Unchanged` has the number in it, and why the condition is on numbers only.
-/

namespace StopTrading.Book

open MachineInt

/-- `SymbolId`. -/
abbrev SymbolId := Vector UInt8 16

/-- `Level`: price, quantity and number of orders. -/
structure Level where
  price : Int
  quantity : Int
  orderCount : Nat
  deriving Repr, DecidableEq

/-- `PriceLevel`, without the padding and the hash that nothing here reads. -/
structure PriceLevel where
  price : Int
  quantity : Int
  orderCount : Nat
  deriving Repr, DecidableEq

/-- `OrderBookSide`. -/
structure OrderBookSide where
  levels : AList fun _ : Int => PriceLevel
  cachedVolume : Int
  isBid : Bool

namespace OrderBookSide

/-- `new`. -/
def new (isBid : Bool) : OrderBookSide := ⟨∅, 0, isBid⟩

/-- The sum of `update_cached_volume`: from the lowest price up, saturating. -/
def volume (levels : AList fun _ : Int => PriceLevel) : Int :=
  (levels.entries.insertionSort fun e e' => e.1 ≤ e'.1).foldl
    (fun total e => saturateI64 (total + e.2.quantity)) 0

/-- `upsert`. -/
def upsert (t : OrderBookSide) (price quantity : Int) (orderCount : Nat) : OrderBookSide :=
  let levels :=
    if quantity = 0 then t.levels.erase price
    else t.levels.insert price ⟨price, quantity, orderCount⟩
  { t with levels := levels, cachedVolume := volume levels }

/-- `apply_delta` of a side. -/
def applyDelta (t : OrderBookSide) (levels : List Level) : OrderBookSide :=
  levels.foldl (fun t level => t.upsert level.price level.quantity level.orderCount) t

/-- `clear`. -/
def clear (t : OrderBookSide) : OrderBookSide := { t with levels := ∅, cachedVolume := 0 }

/-- **A side is as it should be**: every level is stored at its price with a quantity, and
the cached volume is that of the levels. -/
structure WellFormed (t : OrderBookSide) : Prop where
  /-- levels are stored at their prices, and none is empty -/
  stored : ∀ price level, t.levels.lookup price = some level →
    level.price = price ∧ level.quantity ≠ 0
  /-- and the volume is that of the levels -/
  cachedVolume : t.cachedVolume = volume t.levels

/-- An empty side is as it should be, -/
theorem wellFormed_new (isBid : Bool) : (new isBid).WellFormed := ⟨nofun, rfl⟩

/-- and so is a side that was cleared; -/
theorem WellFormed.clear (t : OrderBookSide) : t.clear.WellFormed := ⟨nofun, rfl⟩

/-- writing or removing a level keeps it so, -/
theorem WellFormed.upsert {t : OrderBookSide} (h : t.WellFormed) (price quantity : Int)
    (orderCount : Nat) : (t.upsert price quantity orderCount).WellFormed := by
  refine ⟨fun p level hlevel => ?_, rfl⟩
  unfold OrderBookSide.upsert at hlevel
  dsimp only at hlevel
  split at hlevel
  · by_cases hp : p = price
    · rw [hp, AList.lookup_erase] at hlevel
      cases hlevel
    · rw [AList.lookup_erase_ne hp] at hlevel
      exact h.stored p level hlevel
  · rename_i hquantity
    by_cases hp : p = price
    · rw [hp, AList.lookup_insert] at hlevel
      cases hlevel
      exact ⟨hp.symm, hquantity⟩
    · rw [AList.lookup_insert_ne hp] at hlevel
      exact h.stored p level hlevel

/-- and so do the levels of a delta. -/
theorem WellFormed.applyDelta {t : OrderBookSide} (h : t.WellFormed) (levels : List Level) :
    (t.applyDelta levels).WellFormed := by
  induction levels generalizing t with
  | nil => exact h
  | cons level levels ih => exact ih (h.upsert level.price level.quantity level.orderCount)

end OrderBookSide

/-- `OrderBookDelta`. -/
structure OrderBookDelta where
  symbol : SymbolId
  sequence : Nat
  bids : List Level
  asks : List Level
  timestampNs : Int
  deriving DecidableEq

/-- `OrderBookSnapshot`. -/
structure OrderBookSnapshot where
  symbol : SymbolId
  lastUpdateId : Nat
  bids : List Level
  asks : List Level
  deriving DecidableEq

/-- `OrderBook`. -/
structure OrderBook where
  symbol : SymbolId
  bids : OrderBookSide
  asks : OrderBookSide
  lastUpdateId : Nat
  timestampNs : Int
  sequence : Nat
  isInitialized : Bool

namespace OrderBook

/-- `new`. -/
def new (symbol : SymbolId) : OrderBook := ⟨symbol, .new true, .new false, 0, 0, 0, false⟩

/-- `from_snapshot`. -/
def fromSnapshot (snapshot : OrderBookSnapshot) : OrderBook :=
  let book := { new snapshot.symbol with lastUpdateId := snapshot.lastUpdateId }
  { book with
    bids := book.bids.applyDelta snapshot.bids
    asks := book.asks.applyDelta snapshot.asks
    isInitialized := true }

/-- `apply_delta`, with its result. -/
def tryApplyDelta (b : OrderBook) (delta : OrderBookDelta) : OrderBook × Except String Unit :=
  if b.isInitialized = true ∧ delta.sequence ≤ b.sequence then
    -- Duplicate or old update.
    (b, .ok ())
  else
    ({ b with
        bids := b.bids.applyDelta delta.bids
        asks := b.asks.applyDelta delta.asks
        lastUpdateId := delta.sequence
        sequence := delta.sequence
        timestampNs := delta.timestampNs
        isInitialized := true }, .ok ())

/-- The book that `apply_delta` leaves. -/
def applyDelta (b : OrderBook) (delta : OrderBookDelta) : OrderBook := (b.tryApplyDelta delta).1

/-- `reset`. -/
def reset (b : OrderBook) : OrderBook :=
  { b with bids := b.bids.clear, asks := b.asks.clear, isInitialized := false, sequence := 0 }

/-- A stream of deltas. -/
def applyAll (b : OrderBook) (deltas : List OrderBookDelta) : OrderBook :=
  deltas.foldl applyDelta b

/-! ## The sides -/

/-- Both sides are as they should be. -/
structure WellFormed (b : OrderBook) : Prop where
  bids : b.bids.WellFormed
  asks : b.asks.WellFormed

/-- A snapshot is written level by level. -/
theorem wellFormed_fromSnapshot (snapshot : OrderBookSnapshot) :
    (fromSnapshot snapshot).WellFormed :=
  ⟨(OrderBookSide.wellFormed_new true).applyDelta snapshot.bids,
    (OrderBookSide.wellFormed_new false).applyDelta snapshot.asks⟩

/-- **A delta** is ignored by a book that has reached its number, and otherwise applied. -/
theorem applyDelta_eq (b : OrderBook) (delta : OrderBookDelta) :
    b.applyDelta delta =
      if b.isInitialized = true ∧ delta.sequence ≤ b.sequence then b
      else
        { b with
          bids := b.bids.applyDelta delta.bids
          asks := b.asks.applyDelta delta.asks
          lastUpdateId := delta.sequence
          sequence := delta.sequence
          timestampNs := delta.timestampNs
          isInitialized := true } := by
  unfold applyDelta tryApplyDelta
  split_ifs <;> rfl

theorem WellFormed.applyDelta {b : OrderBook} (h : b.WellFormed) (delta : OrderBookDelta) :
    (b.applyDelta delta).WellFormed := by
  rw [applyDelta_eq]
  split
  · exact h
  · exact ⟨h.bids.applyDelta delta.bids, h.asks.applyDelta delta.asks⟩

/-- **A book is well formed** after every stream, whatever it starts from. -/
theorem WellFormed.applyAll {b : OrderBook} (h : b.WellFormed) (deltas : List OrderBookDelta) :
    (b.applyAll deltas).WellFormed := by
  induction deltas generalizing b with
  | nil => exact h
  | cons delta deltas ih => exact ih (h.applyDelta delta)

/-- A book that was reset is empty. -/
theorem wellFormed_reset (b : OrderBook) : b.reset.WellFormed :=
  ⟨.clear b.bids, .clear b.asks⟩

/-! ## Deltas that come again -/

/-- An old delta does nothing. -/
theorem applyDelta_of_le {b : OrderBook} {delta : OrderBookDelta} (hinit : b.isInitialized = true)
    (hle : delta.sequence ≤ b.sequence) : b.applyDelta delta = b :=
  (applyDelta_eq b delta).trans (if_pos ⟨hinit, hle⟩)

/-- The number of a book is the greatest one applied, -/
theorem sequence_applyDelta {b : OrderBook} (hinit : b.isInitialized = true)
    (delta : OrderBookDelta) : (b.applyDelta delta).sequence = max b.sequence delta.sequence := by
  rw [applyDelta_eq]
  split
  · rename_i hle
    exact (max_eq_left hle.2).symm
  · rename_i hnew
    have hlt : b.sequence < delta.sequence := not_le.mp fun hle => hnew ⟨hinit, hle⟩
    exact (max_eq_right hlt.le).symm

/-- and after a delta it has one, -/
theorem isInitialized_applyDelta {b : OrderBook} (delta : OrderBookDelta) :
    (b.applyDelta delta).isInitialized = true := by
  rw [applyDelta_eq]
  split
  · rename_i hle
    exact hle.1
  · rfl

/-- and so after a stream. -/
theorem isInitialized_applyAll {b : OrderBook} (hinit : b.isInitialized = true)
    (deltas : List OrderBookDelta) : (b.applyAll deltas).isInitialized = true := by
  induction deltas generalizing b with
  | nil => exact hinit
  | cons delta deltas ih => exact ih (isInitialized_applyDelta delta)

/-- Every delta of a stream ends up at or below the number of the book. -/
theorem le_sequence_applyAll {b : OrderBook} (hinit : b.isInitialized = true)
    (deltas : List OrderBookDelta) :
    b.sequence ≤ (b.applyAll deltas).sequence ∧
      ∀ delta ∈ deltas, delta.sequence ≤ (b.applyAll deltas).sequence := by
  induction deltas generalizing b with
  | nil => exact ⟨le_rfl, fun _ h => absurd h List.not_mem_nil⟩
  | cons delta deltas ih =>
      obtain ⟨hbook, hrest⟩ := ih (b := b.applyDelta delta) (isInitialized_applyDelta delta)
      rw [sequence_applyDelta hinit] at hbook
      refine ⟨(le_max_left _ _).trans hbook, ?_⟩
      rw [List.forall_mem_cons]
      exact ⟨(le_max_right _ _).trans hbook, hrest⟩

/-- **Old deltas do nothing.** -/
theorem applyAll_stale {b : OrderBook} (hinit : b.isInitialized = true)
    {deltas : List OrderBookDelta} (hstale : ∀ delta ∈ deltas, delta.sequence ≤ b.sequence) :
    b.applyAll deltas = b := by
  induction deltas with
  | nil => rfl
  | cons delta deltas ih =>
      rw [List.forall_mem_cons] at hstale
      rw [applyAll, List.foldl_cons, applyDelta_of_le hinit hstale.1]
      exact ih hstale.2

/-- **A stream that has been applied can be sent again**, in part and in any order. -/
theorem applyAll_replay {b : OrderBook} (hinit : b.isInitialized = true)
    {deltas again : List OrderBookDelta} (hagain : ∀ delta ∈ again, delta ∈ deltas) :
    (b.applyAll deltas).applyAll again = b.applyAll deltas :=
  applyAll_stale (isInitialized_applyAll hinit deltas) fun delta hdelta =>
    (le_sequence_applyAll hinit deltas).2 delta (hagain delta hdelta)

/-- **Only the deltas above a number count**, for a book that has reached the number. -/
theorem applyAll_fresh {b : OrderBook} (hinit : b.isInitialized = true) {last : Nat}
    (hlast : last ≤ b.sequence) (deltas : List OrderBookDelta) :
    b.applyAll deltas = b.applyAll (deltas.filter fun delta => last < delta.sequence) := by
  induction deltas generalizing b with
  | nil => rfl
  | cons delta deltas ih =>
      by_cases hnew : last < delta.sequence
      · rw [List.filter_cons_of_pos (by simpa using hnew)]
        refine ih (isInitialized_applyDelta delta) ?_
        rw [sequence_applyDelta hinit]
        exact hlast.trans (le_max_left _ _)
      · rw [List.filter_cons_of_neg (by simpa using hnew), applyAll, List.foldl_cons,
          applyDelta_of_le hinit ((not_lt.mp hnew).trans hlast)]
        exact ih hinit hlast

/-! ## A stream that overlaps the snapshot -/

/-- Two books have the same levels. -/
structure SameLevels (b b' : OrderBook) : Prop where
  /-- the same bids -/
  bids : b.bids.levels = b'.bids.levels
  /-- and the same asks -/
  asks : b.asks.levels = b'.asks.levels

/-- Two books have the same levels, sequence number and timestamp. -/
structure Unchanged (b b' : OrderBook) : Prop extends SameLevels b b' where
  sequence : b.sequence = b'.sequence
  timestampNs : b.timestampNs = b'.timestampNs

/-- **A stream may overlap the snapshot**: the deltas up to the snapshot leave the book
unchanged, and the stream leads to the levels that its later deltas lead to. -/
structure OverlapSafe (snapshot : OrderBookSnapshot) (deltas : List OrderBookDelta) : Prop where
  /-- what the snapshot has is not applied again -/
  unchanged : ∀ delta ∈ deltas, delta.sequence ≤ snapshot.lastUpdateId →
    Unchanged ((fromSnapshot snapshot).applyDelta delta) (fromSnapshot snapshot)
  /-- and the rest leads to the same levels -/
  levels : SameLevels ((fromSnapshot snapshot).applyAll deltas)
    ((fromSnapshot snapshot).applyAll
      (deltas.filter fun delta => snapshot.lastUpdateId < delta.sequence))

/-- A delta that may overlap the snapshot has no number from one up to its update id. -/
theorem OverlapSafe.sequence {snapshot : OrderBookSnapshot} {deltas : List OrderBookDelta}
    (h : OverlapSafe snapshot deltas) :
    ∀ delta ∈ deltas, delta.sequence = 0 ∨ snapshot.lastUpdateId < delta.sequence := by
  have hinit : (fromSnapshot snapshot).isInitialized = true := rfl
  intro delta hdelta
  by_contra hnot
  rw [not_or, not_lt] at hnot
  have hsequence := (h.unchanged delta hdelta hnot.2).sequence
  rw [sequence_applyDelta hinit] at hsequence
  exact hnot.1 (Nat.le_zero.mp ((le_max_right _ _).trans hsequence.le))

/-- **When a stream may overlap the snapshot**: just when none of its deltas has a number
from one up to the update id of the snapshot. -/
theorem overlapSafe_iff (snapshot : OrderBookSnapshot) (deltas : List OrderBookDelta) :
    OverlapSafe snapshot deltas ↔
      ∀ delta ∈ deltas, delta.sequence = 0 ∨ snapshot.lastUpdateId < delta.sequence := by
  have hinit : (fromSnapshot snapshot).isInitialized = true := rfl
  constructor
  · exact OverlapSafe.sequence
  · intro h
    refine ⟨fun delta hdelta hle => ?_, ?_⟩
    · have hzero := (h delta hdelta).resolve_right (not_lt.mpr hle)
      rw [applyDelta_of_le hinit hzero.le]
      exact ⟨⟨rfl, rfl⟩, rfl, rfl⟩
    · have hsame : (deltas.filter fun delta => snapshot.lastUpdateId < delta.sequence) =
          deltas.filter fun delta => 0 < delta.sequence := by
        refine List.filter_congr fun delta hdelta => decide_eq_decide.mpr ?_
        have := h delta hdelta
        omega
      rw [hsame, ← applyAll_fresh hinit (Nat.zero_le _)]
      exact ⟨rfl, rfl⟩

/-- **A delta from before the snapshot** is applied to it. -/
theorem not_forall_overlapSafe :
    ¬ ∀ (snapshot : OrderBookSnapshot) (deltas : List OrderBookDelta),
      OverlapSafe snapshot deltas := by
  intro h
  have hnumbers := OverlapSafe.sequence
    (h ⟨Vector.replicate 16 0, 100, [⟨50000, 1, 1⟩], []⟩
      [⟨Vector.replicate 16 0, 90, [⟨50000, 0, 0⟩], [], 7⟩])
  exact absurd (hnumbers _ (List.mem_singleton_self _)) (by decide)

end OrderBook

end StopTrading.Book
