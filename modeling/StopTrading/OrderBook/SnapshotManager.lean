import StopTrading.Library.LastWrite
import Mathlib.Data.UInt
import Mathlib.Data.Vector.Basic

/-!
# Snapshots of many symbols

`SnapshotManager` keeps the last 256 snapshots in a ring and, for the detection of gaps, the
sequence last stored for each symbol.

- The ring is right for every symbol: `get_latest` finds the last snapshot of the symbol as
  long as the ring still has it (`getLatest_storeAll`).
- The sequences are kept by a hash of the symbol with 1024 values, and nothing tells the
  symbols of a hash apart.  `perSymbol_iff` says when a symbol is not disturbed: what was
  stored last under its hash has the sequence of its own last snapshot.

### Design decisions

The ring and the table of sequences are separate proofs, because they go wrong separately.  The
ring is searched by symbol, so that a hash plays no part in it: `searched` lists the ring in the
order of the search, and a store puts one snapshot in front of that list (`searched_store`).  The
arithmetic of the write index is confined to `searchSlot`.

The table is described for every symbol by what was stored last under its hash
(`lastSequences_storeAll`), whether or not that was the symbol's own.  So the theorem needs no
assumption about the hash, and its condition compares two sequences of the history.
-/

namespace StopTrading.Book.Snapshots

/-- `PriceLevel`. -/
structure PriceLevel where
  price : Int
  quantity : Int
  orderCount : UInt32

/-- `empty`. -/
def PriceLevel.empty : PriceLevel := ⟨0, 0, 0⟩

/-- `MAX_LEVELS`. -/
def maxLevels : Nat := 50000

/-- `OrderBookSnapshot`. -/
structure OrderBookSnapshot where
  symbolId : UInt64
  sequence : UInt64
  timestampNs : UInt64
  bidCount : UInt32
  askCount : UInt32
  valid : Bool
  checksum : UInt32
  bids : List PriceLevel
  asks : List PriceLevel

/-- `empty`. -/
def OrderBookSnapshot.empty : OrderBookSnapshot where
  symbolId := 0
  sequence := 0
  timestampNs := 0
  bidCount := 0
  askCount := 0
  valid := false
  checksum := 0
  bids := List.replicate maxLevels PriceLevel.empty
  asks := List.replicate maxLevels PriceLevel.empty

/-- The snapshot as the manager keeps it. -/
def OrderBookSnapshot.kept (snapshot : OrderBookSnapshot) : OrderBookSnapshot :=
  { snapshot with valid := true }

/-- `GapInfo`. -/
structure GapInfo where
  expected : UInt64
  lastSeen : UInt64
  gapSize : UInt64
  hasGap : Bool
  deriving Repr, DecidableEq

/-- `SnapshotManager`, as far as `store` and the searches use it. -/
structure SnapshotManager where
  snapshots : Vector OrderBookSnapshot 256
  writeIdx : UInt64
  totalStored : UInt64
  lastSequences : Vector UInt64 1024

namespace SnapshotManager

/-- `new`. -/
def new : SnapshotManager where
  snapshots := Vector.replicate 256 OrderBookSnapshot.empty
  writeIdx := 0
  totalStored := 0
  lastSequences := Vector.replicate 1024 0

/-- `hash_symbol`. -/
def hashSymbol (symbolId : UInt64) : Fin 1024 :=
  ⟨((symbolId * 0x9e3779b97f4a7c15) >>> 32).toNat &&& 0x3FF,
    Nat.lt_of_le_of_lt Nat.and_le_right (by decide)⟩

/-- The slot of the ring that a store writes. -/
def writeSlot (m : SnapshotManager) : Fin 256 :=
  ⟨m.writeIdx.toNat % 256, Nat.mod_lt _ (by decide)⟩

/-- `store`. -/
def store (m : SnapshotManager) (snapshot : OrderBookSnapshot) : UInt64 × SnapshotManager :=
  (m.writeIdx % 256,
    { snapshots := m.snapshots.set m.writeSlot snapshot.kept
      writeIdx := m.writeIdx + 1
      totalStored := m.totalStored + 1
      lastSequences := m.lastSequences.set (hashSymbol snapshot.symbolId) snapshot.sequence })

/-- The manager after some stores. -/
def storeAll (m : SnapshotManager) (snapshots : List OrderBookSnapshot) : SnapshotManager :=
  snapshots.foldl (fun m snapshot => (m.store snapshot).2) m

/-- The slot of a round of the backward search. -/
def searchSlot (m : SnapshotManager) (i : Nat) : Fin 256 :=
  ⟨(m.writeIdx - 1 - UInt64.ofNat i).toNat &&& 0xFF,
    Nat.lt_of_le_of_lt Nat.and_le_right (by decide)⟩

/-- The snapshots in the order of the backward search. -/
def searched (m : SnapshotManager) : List OrderBookSnapshot :=
  (List.range 256).map fun i => m.snapshots[m.searchSlot i]

/-- `get_latest`. -/
def getLatest (m : SnapshotManager) (symbolId : UInt64) : Option OrderBookSnapshot :=
  m.searched.find? fun snap => snap.valid && snap.symbolId == symbolId

/-- `detect_gap`. -/
def detectGap (m : SnapshotManager) (symbolId expectedSeq : UInt64) : GapInfo :=
  let lastSeq := m.lastSequences[hashSymbol symbolId]
  let hasGap := expectedSeq != lastSeq + 1 && expectedSeq > lastSeq
  { expected := expectedSeq
    lastSeen := lastSeq
    gapSize := if hasGap then UInt64.ofNat (expectedSeq.toNat - lastSeq.toNat - 1) else 0
    hasGap := hasGap }

/-! ## The ring -/

/-- The search looks at every slot of the ring once. -/
theorem length_searched (m : SnapshotManager) : m.searched.length = 256 := by
  rw [searched, List.length_map, List.length_range]

/-- In each round it finds what is in the slot of that round. -/
theorem getElem_searched (m : SnapshotManager) {i : Nat} (hi : i < m.searched.length) :
    m.searched[i] = m.snapshots[m.searchSlot i] := by
  simp only [searched, List.getElem_map, List.getElem_range]

/-- The slots go down from the one before the write index, and around. -/
theorem val_searchSlot (m : SnapshotManager) {i : Nat} (hi : i < 256) :
    (m.searchSlot i).val = (m.writeIdx.toNat + (255 - i)) % 256 := by
  have hofNat : (UInt64.ofNat i).toNat = i := Nat.mod_eq_of_lt (by omega)
  have hone : (1 : UInt64).toNat = 1 := rfl
  have hlt := m.writeIdx.toNat_lt
  calc (m.searchSlot i).val
      = (m.writeIdx - 1 - UInt64.ofNat i).toNat % 256 := Nat.and_two_pow_sub_one_eq_mod _ 8
    _ = (m.writeIdx.toNat + (255 - i)) % 256 := by
        rw [UInt64.toNat_sub, UInt64.toNat_sub, hofNat, hone]
        omega

/-- The search after a store begins with the slot that was written. -/
theorem searchSlot_store_zero (m : SnapshotManager) (snapshot : OrderBookSnapshot) :
    (m.store snapshot).2.searchSlot 0 = m.writeSlot := by
  have hnext : (m.store snapshot).2.writeIdx.toNat = (m.writeIdx.toNat + 1) % 2 ^ 64 :=
    UInt64.toNat_add _ _
  refine Fin.ext ?_
  rw [val_searchSlot _ (by decide), hnext, writeSlot]
  dsimp only
  omega

/-- It goes on with the slots of the search before. -/
theorem searchSlot_store_succ (m : SnapshotManager) (snapshot : OrderBookSnapshot) {i : Nat}
    (hi : i + 1 < 256) :
    (m.store snapshot).2.searchSlot (i + 1) = m.searchSlot i ∧ m.searchSlot i ≠ m.writeSlot := by
  have hnext : (m.store snapshot).2.writeIdx.toNat = (m.writeIdx.toNat + 1) % 2 ^ 64 :=
    UInt64.toNat_add _ _
  have hslot := val_searchSlot m (show i < 256 by omega)
  constructor
  · refine Fin.ext ?_
    rw [val_searchSlot _ hi, hslot, hnext]
    omega
  · intro heq
    have hval : (m.searchSlot i).val = m.writeIdx.toNat % 256 := congrArg Fin.val heq
    omega

/-- A store writes one slot of the ring, -/
theorem snapshots_store (m : SnapshotManager) (snapshot : OrderBookSnapshot) (i : Fin 256) :
    (m.store snapshot).2.snapshots[i] =
      if m.writeSlot = i then snapshot.kept else m.snapshots[i] := by
  refine (Vector.getElem_set m.writeSlot.isLt i.isLt).trans ?_
  simp only [Fin.ext_iff]
  rfl

/-- **A store** puts the snapshot in front of those searched, and the oldest one goes. -/
theorem searched_store (m : SnapshotManager) (snapshot : OrderBookSnapshot) :
    (m.store snapshot).2.searched = snapshot.kept :: m.searched.dropLast := by
  refine List.ext_getElem ?_ fun i hi _ => ?_
  · simp only [length_searched, List.length_cons, List.length_dropLast]
  have hlt : i < 256 := hi.trans_eq (length_searched _)
  rw [getElem_searched, snapshots_store]
  cases i with
  | zero => exact if_pos (searchSlot_store_zero m snapshot).symm
  | succ i =>
      obtain ⟨hslot, hne⟩ := searchSlot_store_succ m snapshot hlt
      rw [List.getElem_cons_succ, List.getElem_dropLast, getElem_searched, hslot, if_neg hne.symm]

/-- **The search** comes to what was stored behind a snapshot, the last one first, and then to
the snapshot, as long as the ring has it. -/
theorem exists_searched_eq (before : List OrderBookSnapshot) (snapshot : OrderBookSnapshot)
    {behind : List OrderBookSnapshot} (hlen : behind.length < 256) :
    ∃ older, (new.storeAll (before ++ snapshot :: behind)).searched =
      behind.reverse.map OrderBookSnapshot.kept ++ snapshot.kept :: older := by
  induction behind using List.reverseRecOn with
  | nil =>
      have hlast : new.storeAll (before ++ [snapshot]) = ((new.storeAll before).store snapshot).2 :=
        List.foldl_concat _ _ _ _
      exact ⟨_, hlast ▸ searched_store _ snapshot⟩
  | append_singleton behind s ih =>
      rw [List.length_append, List.length_singleton] at hlen
      obtain ⟨older, holder⟩ := ih (by omega)
      have hlast : new.storeAll (before ++ snapshot :: (behind ++ [s])) =
          ((new.storeAll (before ++ snapshot :: behind)).store s).2 := by
        rw [← List.cons_append, ← List.append_assoc]
        exact List.foldl_concat _ _ _ _
      have hfull := congrArg List.length holder
      rw [length_searched, List.length_append, List.length_map, List.length_reverse,
        List.length_cons] at hfull
      have hmore : older ≠ [] := List.ne_nil_of_length_pos (by omega)
      refine ⟨older.dropLast, ?_⟩
      rw [hlast, searched_store, holder, List.dropLast_append_cons,
        List.dropLast_cons_of_ne_nil hmore, List.reverse_concat, List.map_cons, List.cons_append]

/-- **`get_latest` finds the last snapshot** of a symbol that the ring still has. -/
theorem getLatest_storeAll (before : List OrderBookSnapshot) (snapshot : OrderBookSnapshot)
    {behind : List OrderBookSnapshot} (hother : ∀ s ∈ behind, s.symbolId ≠ snapshot.symbolId)
    (hlen : behind.length < 256) :
    (new.storeAll (before ++ snapshot :: behind)).getLatest snapshot.symbolId =
      some snapshot.kept := by
  obtain ⟨older, holder⟩ := exists_searched_eq before snapshot hlen
  rw [getLatest, holder, List.find?_append, List.find?_eq_none.mpr, Option.none_or,
    List.find?_cons_of_pos]
  · simp [OrderBookSnapshot.kept]
  · intro s hs
    obtain ⟨t, ht, rfl⟩ := List.mem_map.mp hs
    have hne := hother t (List.mem_reverse.mp ht)
    simp [OrderBookSnapshot.kept, hne]

/-! ## The sequences -/

/-- The sequence of the last snapshot of a symbol, or zero. -/
def lastSequence (snapshots : List OrderBookSnapshot) (symbolId : UInt64) : UInt64 :=
  ((LastWrite.last (fun s => s.symbolId = symbolId) snapshots).map (·.sequence)).getD 0

/-- The sequence of the last snapshot stored under the hash of a symbol, or zero. -/
def slotSequence (snapshots : List OrderBookSnapshot) (symbolId : UInt64) : UInt64 :=
  ((LastWrite.last (fun s => hashSymbol s.symbolId = hashSymbol symbolId) snapshots).map
    (·.sequence)).getD 0

/-- and one entry of the table. -/
theorem lastSequences_store (m : SnapshotManager) (snapshot : OrderBookSnapshot) (i : Fin 1024) :
    (m.store snapshot).2.lastSequences[i] =
      if hashSymbol snapshot.symbolId = i then snapshot.sequence else m.lastSequences[i] := by
  refine (Vector.getElem_set (hashSymbol snapshot.symbolId).isLt i.isLt).trans ?_
  simp only [Fin.ext_iff]
  rfl

/-- **The slot of a symbol** holds what was stored last under its hash. -/
theorem lastSequences_storeAll (snapshots : List OrderBookSnapshot) (symbolId : UInt64) :
    (new.storeAll snapshots).lastSequences[hashSymbol symbolId] =
      slotSequence snapshots symbolId := by
  have hslot := LastWrite.read_foldl
    (fun m : SnapshotManager => m.lastSequences[hashSymbol symbolId])
    (fun m snapshot => (m.store snapshot).2) (·.sequence)
    (fun s => hashSymbol s.symbolId = hashSymbol symbolId)
    (fun m s hhash => (lastSequences_store m s _).trans (if_pos (of_decide_eq_true hhash)))
    (fun m s hhash => (lastSequences_store m s _).trans (if_neg (of_decide_eq_false hhash)))
    snapshots new
  have hnew : new.lastSequences[hashSymbol symbolId] = 0 := Vector.getElem_replicate _
  rw [hnew] at hslot
  exact hslot

/-- A gap is reported when more than one sequence number is missing. -/
theorem hasGap_detectGap (m : SnapshotManager) (symbolId expectedSeq : UInt64) :
    (m.detectGap symbolId expectedSeq).hasGap = true ↔
      (m.detectGap symbolId expectedSeq).lastSeen.toNat + 1 < expectedSeq.toNat := by
  have hnext : (m.lastSequences[hashSymbol symbolId] + 1).toNat =
      (m.lastSequences[hashSymbol symbolId].toNat + 1) % 2 ^ 64 := UInt64.toNat_add _ _
  have hlt := expectedSeq.toNat_lt
  simp only [detectGap, Bool.and_eq_true, bne_iff_ne, decide_eq_true_eq, gt_iff_lt, ne_eq,
    UInt64.lt_iff_toNat_lt, ← UInt64.toNat_inj, hnext]
  omega

/-- **A symbol is kept apart from the others**: the last sequence seen and the gaps are those
of its own last snapshot, which is also found while the ring has it. -/
structure PerSymbol (snapshots : List OrderBookSnapshot) (symbolId : UInt64) : Prop where
  /-- The sequence last seen is that of the symbol's last snapshot, -/
  lastSeen : ∀ e, ((new.storeAll snapshots).detectGap symbolId e).lastSeen =
    lastSequence snapshots symbolId
  /-- so that a gap is a gap in the sequences of the symbol. -/
  hasGap : ∀ e, ((new.storeAll snapshots).detectGap symbolId e).hasGap = true ↔
    (lastSequence snapshots symbolId).toNat + 1 < e.toNat
  /-- The last snapshot is found while fewer than 256 were stored behind it. -/
  latest : ∀ (before : List OrderBookSnapshot) (snapshot : OrderBookSnapshot)
    (behind : List OrderBookSnapshot), snapshots = before ++ snapshot :: behind →
    snapshot.symbolId = symbolId → (∀ s ∈ behind, s.symbolId ≠ symbolId) →
    behind.length < 256 →
    (new.storeAll snapshots).getLatest symbolId = some snapshot.kept

/-- **A symbol is kept apart from the others** exactly if what was stored last under its hash
has the sequence of its own last snapshot. -/
theorem perSymbol_iff (snapshots : List OrderBookSnapshot) (symbolId : UInt64) :
    PerSymbol snapshots symbolId ↔
      slotSequence snapshots symbolId = lastSequence snapshots symbolId := by
  constructor
  · intro h
    exact (lastSequences_storeAll snapshots symbolId).symm.trans (h.lastSeen 0)
  · intro h
    have hseen : ∀ e, ((new.storeAll snapshots).detectGap symbolId e).lastSeen =
        lastSequence snapshots symbolId :=
      fun e => (lastSequences_storeAll snapshots symbolId).trans h
    refine ⟨hseen, fun e => ?_, ?_⟩
    · rw [hasGap_detectGap, hseen]
    · rintro before snapshot behind rfl rfl hother hlen
      exact getLatest_storeAll before snapshot hother hlen

/-- A snapshot of a symbol without levels. -/
def bare (symbolId sequence : UInt64) : OrderBookSnapshot :=
  { OrderBookSnapshot.empty with symbolId := symbolId, sequence := sequence }

/-- The symbols 2 and 445 have the same hash. -/
theorem not_forall_perSymbol :
    ¬ ∀ (snapshots : List OrderBookSnapshot) (symbolId : UInt64),
      PerSymbol snapshots symbolId := by
  intro h
  have hseen := (h [bare 2 100] 445).lastSeen 101
  have hslot : slotSequence [bare 2 100] 445 = lastSequence [bare 2 100] 445 :=
    (lastSequences_storeAll _ _).symm.trans hseen
  exact absurd hslot (by decide)

end SnapshotManager

end StopTrading.Book.Snapshots
