import StopTrading.Library.ByteMemory
import StopTrading.Library.Transition

/-!
# The shared-memory exchange

`write_features` puts a block, which is a header of a cache line and the features, into the
data area of a region, and `read_features` takes it out again.  The region is modelled byte
by byte, with the fields of the two headers at their `repr(C)` offsets; the header of the
region is longer than the cache line reserved for it, so its last two fields lie in the data
area.  An access outside the region is undefined, and a writer that waits for an
acknowledgement does not return: there a call has no outcome (`none`).

The flags of the region make the calls alternate, and both position counters advance together
(`Inv`).  But each side computes the offset of a block from its own length, the writer from
the number of its features and the reader from the length of its buffer.  When the two offsets
agree the reader finds the block that was written (`exchanges_of_agrees`); a buffer that is
longer than the features makes them differ, and the reader may then take the features
themselves for a block (`not_forall_exchanges`).

### Design decisions

The region is a function from addresses to bytes.  It has to be, since the two sides disagree
about where a block is, and what a reader finds at a wrong place is whatever bytes are there.
Fields are loads and stores at their offsets, little-endian, and that they do not overlap where
they should not is decided by arithmetic on addresses.

The header of the region is 80 bytes long and a line of 64 is reserved for it.  So its last two
fields, both timestamps, lie in the data area, on the first two words of a block at position zero.
A write changes the first of them, which is an `id` that nobody looks at (`Block.announce`), and a
read the second, when it has been read.

### What is load-bearing

`Block` is what a reader needs of a written block, and nothing about the rest of the region.  A
write leaves one (`block_putBlock`), the updates of the header keep it, and a read at its address
returns it. The flags make writes and reads alternate, so there is at most one block to keep.
-/

namespace StopTrading.Ipc

open ByteFile ByteMemory Transition

/-! ## The region -/

/-- `CACHE_LINE_SIZE`. -/
def cacheLineSize : Nat := 64

/-- `SHARED_MEMORY_SIZE`. -/
def sharedMemorySize : Nat := 512 * 1024 * 1024

/-- `SHMEM_MAGIC`. -/
def shmemMagic : Nat := 0x48465453484D454D

/-- `MAX_FEATURES_PER_BLOCK`. -/
def maxFeaturesPerBlock : Nat := 1024

namespace SharedMemoryHeader

/-! The offsets of the fields of `SharedMemoryHeader`. -/

def magic : Nat := 0
def version : Nat := 8
def totalSize : Nat := 16
def dataOffset : Nat := 24
def blockCount : Nat := 32
def writePos : Nat := 40
def readPos : Nat := 48
def dataReady : Nat := 56
def dataAcknowledged : Nat := 57
def lastWriteTs : Nat := 64
def lastReadTs : Nat := 72

end SharedMemoryHeader

open SharedMemoryHeader

/-- `fetch_add(1)` of a counter in the region. -/
def fetchAdd (addr : Nat) (m : Memory) : Memory := storeLE addr 8 (loadLE m addr 8 + 1) m

/-- The region that `create` leaves: zeros, and the default header. -/
def create : Memory :=
  (fun _ => 0 : Memory)
    |> storeLE magic 8 shmemMagic
    |> storeLE version 8 1
    |> storeLE totalSize 8 sharedMemorySize
    |> storeLE dataOffset 8 cacheLineSize
    |> storeLE blockCount 8 0
    |> storeLE writePos 8 0
    |> storeLE readPos 8 0
    |> storeLE dataReady 1 0
    |> storeLE dataAcknowledged 1 1
    |> storeLE lastWriteTs 8 0
    |> storeLE lastReadTs 8 0

/-- `FeatureBlockHeader`. -/
structure FeatureBlockHeader where
  id : UInt64
  featureCount : UInt64
  dataSize : UInt64
  timestampNs : UInt64
  symbolId : UInt64
  featureFlags : UInt64
  valid : Bool
  deriving Repr, DecidableEq

/-- Write a block header, with the seven zeros of its field `_padding`.  It ends there, eight
bytes before the features, which a write leaves as they are. -/
def FeatureBlockHeader.write (h : FeatureBlockHeader) (addr : Nat) (m : Memory) : Memory :=
  m |> storeLE addr 8 h.id.toNat
    |> storeLE (addr + 8) 8 h.featureCount.toNat
    |> storeLE (addr + 16) 8 h.dataSize.toNat
    |> storeLE (addr + 24) 8 h.timestampNs.toNat
    |> storeLE (addr + 32) 8 h.symbolId.toNat
    |> storeLE (addr + 40) 8 h.featureFlags.toNat
    |> storeLE (addr + 48) 1 (if h.valid then 1 else 0)
    |> storeLE (addr + 49) 7 0

/-- Read a block header. -/
def FeatureBlockHeader.read (m : Memory) (addr : Nat) : FeatureBlockHeader where
  id := UInt64.ofNat (loadLE m addr 8)
  featureCount := UInt64.ofNat (loadLE m (addr + 8) 8)
  dataSize := UInt64.ofNat (loadLE m (addr + 16) 8)
  timestampNs := UInt64.ofNat (loadLE m (addr + 24) 8)
  symbolId := UInt64.ofNat (loadLE m (addr + 32) 8)
  featureFlags := UInt64.ofNat (loadLE m (addr + 40) 8)
  valid := loadLE m (addr + 48) 1 ≠ 0

/-- The bytes of features.  A feature is the bit pattern of an `f32`. -/
def featureBytes (features : List UInt32) : List UInt8 := features.flatMap fun f => toLE 4 f.toNat

/-- The features in the first `4 * n` bytes. -/
def featuresOf : Nat → List UInt8 → List UInt32
  | 0, _ => []
  | n + 1, bytes => UInt32.ofNat (ofLE (bytes.take 4)) :: featuresOf n (bytes.drop 4)

/-! ## The calls -/

/-- The `io::Error`s of the two calls. -/
inductive ShmError where
  | invalidInput (message : String)
  | wouldBlock (message : String)
  | invalidData (message : String)
  deriving Repr, DecidableEq

/-- `data_start`: the offset of a block in the data area, for a position and a length. -/
def dataStart (pos len : Nat) : Nat :=
  pos * (cacheLineSize + len * 4) % 2 ^ 64 % (sharedMemorySize - cacheLineSize)

/-- The address of a block. -/
def blockAddr (pos len : Nat) : Nat := cacheLineSize + dataStart pos len

/-- The header of a new block. -/
def blockHeader (pos : Nat) (symbolId : UInt64) (features : List UInt32)
    (timestampNs featureFlags : UInt64) : FeatureBlockHeader where
  id := UInt64.ofNat pos
  featureCount := UInt64.ofNat features.length
  dataSize := UInt64.ofNat (features.length * 4)
  timestampNs := timestampNs
  symbolId := symbolId
  featureFlags := featureFlags
  valid := true

/-- The header and the features of a block, written at an address. -/
def putBlock (addr : Nat) (header : FeatureBlockHeader) (features : List UInt32) (m : Memory) :
    Memory :=
  m |> header.write addr
    |> store (addr + cacheLineSize) (featureBytes features)

/-- The updates of the header at the end of a write. -/
def announce (timestampNs : UInt64) (m : Memory) : Memory :=
  m |> fetchAdd blockCount
    |> fetchAdd writePos
    |> storeLE lastWriteTs 8 timestampNs.toNat
    |> storeLE dataAcknowledged 1 0
    |> storeLE dataReady 1 1

/-- `write_features`. -/
def writeFeatures (symbolId : UInt64) (features : List UInt32) (timestampNs featureFlags : UInt64)
    (m : Memory) : Option (Except ShmError UInt64 × Memory) :=
  if features.isEmpty ∨ features.length > maxFeaturesPerBlock then
    some (.error (.invalidInput "Feature count out of range"), m)
  -- the writer spins until the last block is acknowledged
  else if loadLE m dataAcknowledged 1 = 0 then none
  else
    let pos := loadLE m writePos 8
    let addr := blockAddr pos features.length
    if addr + cacheLineSize + features.length * 4 > sharedMemorySize then none
    else
      some (.ok (UInt64.ofNat pos),
        m |> putBlock addr (blockHeader pos symbolId features timestampNs featureFlags) features
          |> announce timestampNs)

/-- What `read_features` answers: the symbol, the timestamp and the count. -/
abbrev ReadAnswer := UInt64 × UInt64 × UInt64

/-- The updates of the header at the end of a read. -/
def acknowledge (now : UInt64) (m : Memory) : Memory :=
  m |> fetchAdd readPos
    |> storeLE lastReadTs 8 now.toNat
    |> storeLE dataReady 1 0
    |> storeLE dataAcknowledged 1 1

/-- `read_features`, with the time of its clock; the second result is the buffer. -/
def readFeatures (buffer : List UInt32) (now : UInt64) (m : Memory) :
    Option (Except ShmError ReadAnswer × List UInt32 × Memory) :=
  if loadLE m dataReady 1 = 0 then
    some (.error (.wouldBlock "No data available"), buffer, m)
  else
    -- the length of the buffer, not of the features, places the block
    let addr := blockAddr (loadLE m readPos 8) buffer.length
    if addr + cacheLineSize > sharedMemorySize then none
    else if (FeatureBlockHeader.read m addr).valid = false then
      some (.error (.invalidData "Invalid block header"), buffer, m)
    else
      let count := (FeatureBlockHeader.read m addr).featureCount.toNat
      if count > buffer.length then
        some (.error (.invalidInput "Buffer too small"), buffer, m)
      else if addr + cacheLineSize + count * 4 > sharedMemorySize then none
      else
        let features := featuresOf count (load m (addr + cacheLineSize) (count * 4))
        -- symbol and timestamp are loaded after the region's header has been updated
        let header := FeatureBlockHeader.read (acknowledge now m) addr
        some (.ok (header.symbolId, header.timestampNs, UInt64.ofNat count),
          features ++ buffer.drop count, acknowledge now m)

/-! ## Runs -/

/-- What a write has put into the region. -/
structure Written where
  position : Nat
  symbolId : UInt64
  features : List UInt32
  timestampNs : UInt64
  deriving Repr, DecidableEq

/-- A region, and what was written since the last read. -/
structure Exchange where
  region : Memory
  pending : Option Written

/-- A call. -/
inductive ShmCall where
  | write (symbolId : UInt64) (features : List UInt32) (timestampNs featureFlags : UInt64)
  | read (buffer : List UInt32) (now : UInt64)
  deriving Repr, DecidableEq

/-- The buffer of a read. -/
def ShmCall.buffer? : ShmCall → Option (List UInt32)
  | .write .. => none
  | .read buffer _ => some buffer

namespace Exchange

/-- A region that has just been created. -/
def init : Exchange := ⟨create, none⟩

/-- One successful call; `none` for the others. -/
def step (s : Exchange) : ShmCall → Option Exchange
  | .write symbolId features timestampNs featureFlags =>
      match writeFeatures symbolId features timestampNs featureFlags s.region with
      | some (.ok position, m) =>
          some ⟨m, some ⟨position.toNat, symbolId, features, timestampNs⟩⟩
      | _ => none
  | .read buffer now =>
      match readFeatures buffer now s.region with
      | some (.ok _, _, m) => some ⟨m, none⟩
      | _ => none

/-- The answer of a read and the buffer it leaves. -/
def answer (s : Exchange) (buffer : List UInt32) (now : UInt64) :
    Option (Except ShmError ReadAnswer × List UInt32) :=
  (readFeatures buffer now s.region).map fun r => (r.1, r.2.1)

/-- **A read returns what was written last**: its symbol, its timestamp, the number of its
features, and the features themselves at the start of the buffer. -/
def Exchanges (s : Exchange) (call : ShmCall) (_ : Exchange) : Prop :=
  match call, s.pending with
  | .write .., _ => True
  | .read .., none => False
  | .read buffer now, some w =>
      s.answer buffer now =
        some (.ok (w.symbolId, w.timestampNs, UInt64.ofNat w.features.length),
          w.features ++ buffer.drop w.features.length)

/-- A read brings a buffer that the pending features fit into. -/
def Fits (s : Exchange) (call : ShmCall) (_ : Exchange) : Prop :=
  ∀ buffer ∈ call.buffer?, ∀ w ∈ s.pending, w.features.length ≤ buffer.length

/-- **A read looks for the block where it was written.** -/
def Agrees (s : Exchange) (call : ShmCall) (_ : Exchange) : Prop :=
  ∀ buffer ∈ call.buffer?, ∀ w ∈ s.pending,
    dataStart (loadLE s.region readPos 8) buffer.length = dataStart w.position w.features.length

/-- A read brings a buffer exactly as long as the pending features. -/
def Exact (s : Exchange) (call : ShmCall) (_ : Exchange) : Prop :=
  ∀ buffer ∈ call.buffer?, ∀ w ∈ s.pending, buffer.length = w.features.length

instance (s : Exchange) (call : ShmCall) (s' : Exchange) : Decidable (s.Fits call s') :=
  inferInstanceAs (Decidable (∀ _ ∈ _, _))

instance (s : Exchange) (call : ShmCall) (s' : Exchange) : Decidable (s.Agrees call s') :=
  inferInstanceAs (Decidable (∀ _ ∈ _, _))

instance (s : Exchange) (call : ShmCall) (s' : Exchange) : Decidable (s.Exchanges call s') :=
  match call, hp : s.pending with
  | .write .., _ => isTrue trivial
  | .read .., none => isFalse (by simp only [Exchanges, hp, not_false_eq_true])
  | .read buffer now, some w => decidable_of_iff
      (s.answer buffer now =
        some (.ok (w.symbolId, w.timestampNs, UInt64.ofNat w.features.length),
          w.features ++ buffer.drop w.features.length)) (by simp only [Exchanges, hp])

end Exchange

/-! ## Blocks in the region -/

/-- A feature has four bytes. -/
theorem length_featureBytes (features : List UInt32) :
    (featureBytes features).length = features.length * 4 := by
  induction features with
  | nil => rfl
  | cons f features ih =>
      rw [featureBytes, List.flatMap_cons, List.length_append, length_toLE, List.length_cons,
        ← featureBytes, ih]
      omega

/-- Features are read from their bytes as they were. -/
theorem featuresOf_featureBytes (features : List UInt32) :
    featuresOf features.length (featureBytes features) = features := by
  induction features with
  | nil => rfl
  | cons f features ih =>
      have hlength : (toLE 4 f.toNat).length = 4 := length_toLE 4 _
      have hlt : f.toNat < 256 ^ 4 := f.toNat_lt
      rw [featureBytes, List.flatMap_cons, ← featureBytes, List.length_cons, featuresOf,
        List.take_left' hlength, List.drop_left' hlength, ih, ofLE_toLE_of_lt hlt,
        UInt32.ofNat_toNat]

/-- What a reader finds of a block that was written at an address. -/
structure Block (m : Memory) (addr : Nat) (w : Written) : Prop where
  /-- the count -/
  count_eq : loadLE m (addr + 8) 8 = w.features.length
  /-- the time -/
  timestamp_eq : loadLE m (addr + 24) 8 = w.timestampNs.toNat
  /-- the symbol -/
  symbol_eq : loadLE m (addr + 32) 8 = w.symbolId.toNat
  /-- that it is valid -/
  valid_eq : loadLE m (addr + 48) 1 = 1
  /-- and the features behind the header -/
  features_eq : load m (addr + cacheLineSize) (w.features.length * 4) = featureBytes w.features

/-- A store below the second word of a block does not change what a reader finds. -/
theorem Block.storeLE {m : Memory} {addr : Nat} {w : Written} (h : Block m addr w)
    {at_ width value : Nat} (hbelow : at_ + width ≤ addr + 8) :
    Block (ByteMemory.storeLE at_ width value m) addr w where
  count_eq := (loadLE_storeLE_of_disjoint (Or.inr hbelow)).trans h.count_eq
  timestamp_eq := (loadLE_storeLE_of_disjoint (Or.inr (by omega))).trans h.timestamp_eq
  symbol_eq := (loadLE_storeLE_of_disjoint (Or.inr (by omega))).trans h.symbol_eq
  valid_eq := (loadLE_storeLE_of_disjoint (Or.inr (by omega))).trans h.valid_eq
  features_eq := (load_storeLE_of_disjoint (Or.inr (by unfold cacheLineSize; omega))).trans
    h.features_eq

section Write

variable {m : Memory} {addr pos : Nat} {symbolId timestampNs featureFlags : UInt64}
variable {features : List UInt32}

/-- **The writer leaves a block.** -/
theorem block_putBlock (hlength : features.length ≤ maxFeaturesPerBlock) (position : Nat) :
    Block (putBlock addr (blockHeader pos symbolId features timestampNs featureFlags) features m)
      addr ⟨position, symbolId, features, timestampNs⟩ := by
  have hcount : features.length < 2 ^ 64 := lt_of_le_of_lt hlength (by decide)
  unfold putBlock FeatureBlockHeader.write cacheLineSize blockHeader
  constructor
  · simp (disch := omega) only [loadLE_store_of_disjoint, loadLE_storeLE_of_disjoint,
      loadLE_storeLE]
    rw [UInt64.toNat_ofNat_of_lt' hcount]
    exact Nat.mod_eq_of_lt hcount
  · simp (disch := omega) only [loadLE_store_of_disjoint, loadLE_storeLE_of_disjoint,
      loadLE_storeLE]
    exact Nat.mod_eq_of_lt timestampNs.toNat_lt
  · simp (disch := omega) only [loadLE_store_of_disjoint, loadLE_storeLE_of_disjoint,
      loadLE_storeLE]
    exact Nat.mod_eq_of_lt symbolId.toNat_lt
  · simp (disch := omega) only [loadLE_store_of_disjoint, loadLE_storeLE_of_disjoint,
      loadLE_storeLE]
    rfl
  · rw [← length_featureBytes]
    exact load_store _ _ _

/-- A block does not change what lies in front of it. -/
theorem loadLE_putBlock {header : FeatureBlockHeader} {field width : Nat}
    (hfield : field + width ≤ addr) :
    loadLE (putBlock addr header features m) field width = loadLE m field width := by
  unfold putBlock FeatureBlockHeader.write cacheLineSize
  simp (disch := omega) only [loadLE_store_of_disjoint, loadLE_storeLE_of_disjoint]

/-- A block is behind the line of the header. -/
theorem le_blockAddr (pos len : Nat) : 64 ≤ blockAddr pos len := Nat.le_add_right _ _

/-- The updates of a write leave its block alone, except for its `id`. -/
theorem Block.announce {w : Written} (h : Block m (blockAddr pos features.length) w) :
    Block (Ipc.announce timestampNs m) (blockAddr pos features.length) w := by
  have haddr := le_blockAddr pos features.length
  have hbelow {field width : Nat} (hfield : field + width ≤ 72) :
      field + width ≤ blockAddr pos features.length + 8 := by omega
  exact ((((h.storeLE (hbelow (by decide))).storeLE (hbelow (by decide))).storeLE
    (hbelow (by decide))).storeLE (hbelow (by decide))).storeLE (hbelow (by decide))

end Write

section Header

variable {m : Memory} {timestampNs now : UInt64}

/-- A write that is announced is not acknowledged yet, -/
theorem announce_unacknowledged : loadLE (announce timestampNs m) dataAcknowledged 1 = 0 := by
  unfold announce fetchAdd dataAcknowledged dataReady
  simp (disch := decide) only [loadLE_storeLE_of_disjoint, loadLE_storeLE]
  rfl

/-- and ready to be read; -/
theorem announce_ready : loadLE (announce timestampNs m) dataReady 1 = 1 := by
  unfold announce
  rw [loadLE_storeLE]
  rfl

/-- the position of the reader stays, -/
theorem loadLE_announce_readPos :
    loadLE (announce timestampNs m) readPos 8 = loadLE m readPos 8 := by
  unfold announce fetchAdd
  simp (disch := decide) only [loadLE_storeLE_of_disjoint]

/-- and that of the writer moves on. -/
theorem loadLE_announce_writePos :
    loadLE (announce timestampNs m) writePos 8 = (loadLE m writePos 8 + 1) % 2 ^ 64 := by
  unfold announce fetchAdd
  simp (disch := decide) only [loadLE_storeLE_of_disjoint, loadLE_storeLE]
  rfl

/-- What was read is not ready to be read, -/
theorem acknowledge_not_ready : loadLE (acknowledge now m) dataReady 1 = 0 := by
  unfold acknowledge fetchAdd
  simp (disch := decide) only [loadLE_storeLE_of_disjoint, loadLE_storeLE]
  rfl

/-- the position of the reader moves on, -/
theorem loadLE_acknowledge_readPos :
    loadLE (acknowledge now m) readPos 8 = (loadLE m readPos 8 + 1) % 2 ^ 64 := by
  unfold acknowledge fetchAdd
  simp (disch := decide) only [loadLE_storeLE_of_disjoint, loadLE_storeLE]
  rfl

/-- and that of the writer stays. -/
theorem loadLE_acknowledge_writePos :
    loadLE (acknowledge now m) writePos 8 = loadLE m writePos 8 := by
  unfold acknowledge fetchAdd
  simp (disch := decide) only [loadLE_storeLE_of_disjoint]

/-- The updates of a read stay in front of the timestamp of any block. -/
theorem loadLE_acknowledge {field width : Nat} (hfield : 80 ≤ field) :
    loadLE (acknowledge now m) field width = loadLE m field width := by
  unfold acknowledge fetchAdd readPos lastReadTs dataReady dataAcknowledged
  simp (disch := omega) only [loadLE_storeLE_of_disjoint]

end Header

/-- A region in which a written block waits for the reader. -/
structure Waiting (m : Memory) (w : Written) : Prop where
  /-- the block is announced -/
  ready : loadLE m dataReady 1 = 1
  /-- and not acknowledged -/
  unacknowledged : loadLE m dataAcknowledged 1 = 0
  /-- the reader is at its position -/
  readPos_eq : loadLE m readPos 8 = w.position
  /-- the writer is past it -/
  writePos_eq : loadLE m writePos 8 = (w.position + 1) % 2 ^ 64
  /-- it is where the writer has put it -/
  block : Block m (blockAddr w.position w.features.length) w
  /-- not too long -/
  length_le : w.features.length ≤ maxFeaturesPerBlock
  /-- and inside of the region -/
  inside : blockAddr w.position w.features.length + cacheLineSize + w.features.length * 4 ≤
    sharedMemorySize

/-- `write_features` answers `Ok` only when the last block has been acknowledged. -/
theorem ne_zero_of_writeFeatures {symbolId timestampNs featureFlags position : UInt64}
    {features : List UInt32} {m m' : Memory}
    (hwrite : writeFeatures symbolId features timestampNs featureFlags m =
      some (.ok position, m')) : loadLE m dataAcknowledged 1 ≠ 0 := by
  intro hack
  unfold writeFeatures at hwrite
  split at hwrite
  · cases hwrite
  · cases hwrite

/-- What `write_features` has done when it answers `Ok`. -/
theorem waiting_of_writeFeatures {symbolId timestampNs featureFlags position : UInt64}
    {features : List UInt32} {m m' : Memory}
    (hwrite : writeFeatures symbolId features timestampNs featureFlags m =
      some (.ok position, m'))
    (hpositions : loadLE m readPos 8 = loadLE m writePos 8) :
    Waiting m' ⟨position.toNat, symbolId, features, timestampNs⟩ := by
  unfold writeFeatures at hwrite
  split at hwrite
  · cases hwrite
  · rename_i hrange
    split at hwrite
    · cases hwrite
    · simp only at hwrite
      split at hwrite
      · cases hwrite
      · rename_i hinside
        obtain ⟨hposition, rfl⟩ := Prod.mk.inj (Option.some.inj hwrite)
        have hpos : position.toNat = loadLE m writePos 8 := by
          rw [← Except.ok.inj hposition]
          exact UInt64.toNat_ofNat_of_lt' (loadLE_lt m writePos 8)
        have haddr := le_blockAddr (loadLE m writePos 8) features.length
        have hlength : features.length ≤ maxFeaturesPerBlock := not_lt.mp fun h => hrange (.inr h)
        refine ⟨announce_ready, ?_, ?_, ?_, ?_, hlength, ?_⟩
        · exact announce_unacknowledged
        · rw [hpos, loadLE_announce_readPos, loadLE_putBlock (le_trans (by decide) haddr),
            hpositions]
        · rw [hpos, loadLE_announce_writePos, loadLE_putBlock (le_trans (by decide) haddr)]
        · rw [hpos]
          exact (block_putBlock hlength _).announce
        · rw [hpos]
          exact not_lt.mp hinside

/-- **A read that looks where the block was written returns it.** -/
theorem Waiting.readFeatures_eq {m : Memory} {w : Written} (h : Waiting m w)
    {buffer : List UInt32} (now : UInt64) (hfits : w.features.length ≤ buffer.length)
    (hagrees : dataStart (loadLE m readPos 8) buffer.length =
      dataStart w.position w.features.length) :
    readFeatures buffer now m =
      some (.ok (w.symbolId, w.timestampNs, UInt64.ofNat w.features.length),
        w.features ++ buffer.drop w.features.length, acknowledge now m) := by
  have haddr : blockAddr (loadLE m readPos 8) buffer.length =
      blockAddr w.position w.features.length := congrArg (cacheLineSize + ·) hagrees
  have hlow := le_blockAddr w.position w.features.length
  have hlength : w.features.length < 2 ^ 64 := lt_of_le_of_lt h.length_le (by decide)
  have hcount : (FeatureBlockHeader.read m
      (blockAddr w.position w.features.length)).featureCount.toNat = w.features.length := by
    show (UInt64.ofNat (loadLE m _ 8)).toNat = _
    rw [h.block.count_eq, UInt64.toNat_ofNat_of_lt' hlength]
  have hvalid : (FeatureBlockHeader.read m (blockAddr w.position w.features.length)).valid =
      true := by
    show decide (loadLE m _ 1 ≠ 0) = true
    rw [h.block.valid_eq]
    rfl
  have hsymbol : (FeatureBlockHeader.read (acknowledge now m)
      (blockAddr w.position w.features.length)).symbolId = w.symbolId := by
    show UInt64.ofNat (loadLE (acknowledge now m) _ 8) = _
    rw [loadLE_acknowledge (by omega), h.block.symbol_eq, UInt64.ofNat_toNat]
  have htimestamp : (FeatureBlockHeader.read (acknowledge now m)
      (blockAddr w.position w.features.length)).timestampNs = w.timestampNs := by
    show UInt64.ofNat (loadLE (acknowledge now m) _ 8) = _
    rw [loadLE_acknowledge (by omega), h.block.timestamp_eq, UInt64.ofNat_toNat]
  have hinside := h.inside
  unfold readFeatures
  simp only [haddr, hcount, hvalid, hsymbol, htimestamp, h.ready, h.block.features_eq,
    featuresOf_featureBytes]
  rw [if_neg (by decide), if_neg (not_lt.mpr (le_trans (Nat.le_add_right _ _) hinside)),
    if_neg (by decide), if_neg (not_lt.mpr hfits), if_neg (not_lt.mpr hinside)]

namespace Exchange

/-- What holds between the calls: with nothing to read the two positions are the same, and
otherwise the block waits for its reader. -/
def Inv (s : Exchange) : Prop :=
  match s.pending with
  | none => loadLE s.region dataReady 1 = 0 ∧ loadLE s.region readPos 8 = loadLE s.region writePos 8
  | some w => Waiting s.region w

/-- A new region has nothing to read. -/
theorem inv_init : Inv init := ⟨rfl, rfl⟩

/-- A write finds the region acknowledged, and leaves a block that waits. -/
theorem Inv.write {s s' : Exchange} (inv : Inv s) {symbolId timestampNs featureFlags : UInt64}
    {features : List UInt32}
    (hstep : s.step (.write symbolId features timestampNs featureFlags) = some s') : Inv s' := by
  obtain ⟨region, pending⟩ := s
  simp only [Exchange.step] at hstep
  split at hstep
  · rename_i position m hwrite
    obtain rfl := Option.some.inj hstep
    cases pending with
    | none => exact waiting_of_writeFeatures hwrite inv.2
    | some w =>
        have waiting : Waiting region w := inv
        exact absurd waiting.unacknowledged (ne_zero_of_writeFeatures hwrite)
  · cases hstep

/-- A read finds a block that waits. -/
theorem Inv.read {s s' : Exchange} (inv : Inv s) {buffer : List UInt32} {now : UInt64}
    (hstep : s.step (.read buffer now) = some s') (hfits : s.Fits (.read buffer now) s')
    (hagrees : s.Agrees (.read buffer now) s') :
    Inv s' ∧ s.Exchanges (.read buffer now) s' := by
  obtain ⟨region, pending⟩ := s
  cases pending with
  | none =>
      have hempty : loadLE region dataReady 1 = 0 := inv.1
      simp only [Exchange.step, readFeatures, if_pos hempty] at hstep
      cases hstep
  | some w =>
      have waiting : Waiting region w := inv
      have hread := waiting.readFeatures_eq now (hfits buffer rfl w rfl) (hagrees buffer rfl w rfl)
      constructor
      · simp only [Exchange.step, hread] at hstep
        obtain rfl := Option.some.inj hstep
        refine ⟨acknowledge_not_ready, ?_⟩
        rw [loadLE_acknowledge_readPos, loadLE_acknowledge_writePos, waiting.readPos_eq,
          waiting.writePos_eq]
      · simp only [Exchanges, answer, hread, Option.map_some]

/-- **A call that agrees** keeps the invariant and exchanges what was written. -/
theorem Inv.step {s s' : Exchange} (inv : Inv s) {call : ShmCall}
    (hstep : s.step call = some s') (hfits : s.Fits call s') (hagrees : s.Agrees call s') :
    Inv s' ∧ s.Exchanges call s' := by
  cases call with
  | write symbolId features timestampNs featureFlags =>
      exact ⟨inv.write hstep, trivial⟩
  | read buffer now => exact inv.read hstep hfits hagrees

/-- A buffer that is exactly as long as the features makes the offsets agree. -/
theorem Inv.agrees_of_exact {s s' : Exchange} (inv : Inv s) {call : ShmCall}
    (hexact : s.Exact call s') : s.Fits call s' ∧ s.Agrees call s' := by
  refine ⟨fun buffer hbuffer w hw => (hexact buffer hbuffer w hw).ge, fun buffer hbuffer w hw => ?_⟩
  have waiting : Waiting s.region w := by
    unfold Inv at inv
    rwa [hw] at inv
  rw [waiting.readPos_eq, hexact buffer hbuffer w hw]

/-- The exchange is faithful when every reader knows how many features to expect. -/
theorem exchanges_of_exact (calls : List ShmCall) (hexact : AllSteps step Exact init calls) :
    AllSteps step Exchanges init calls :=
  AllSteps.of_invariant
    (fun s call s' (inv : Inv s) (hstep : s.step call = some s') (hguard : s.Exact call s') =>
      have hagrees := inv.agrees_of_exact hguard
      inv.step hstep hagrees.1 hagrees.2)
    calls init inv_init hexact

/-- Sixteen features that read as a block of one feature. -/
def blockInFeatures : List UInt32 := [0, 0, 1, 0, 0, 0, 7, 0, 9, 0, 0, 0, 1, 0, 0, 0]

/-- Two exchanges, the second read with a buffer of `n` features. -/
def twoExchanges (n : Nat) : List ShmCall :=
  [.write 5 [11] 100 0, .read [0] 101, .write 6 blockInFeatures 200 0,
    .read (List.replicate n 0) 201]

/-- **The exchange is faithful** in every run in which each read computes the offset of its
block as the write before it did. -/
theorem exchanges_of_agrees (calls : List ShmCall) (hfits : AllSteps step Fits init calls)
    (hagrees : AllSteps step Agrees init calls) : AllSteps step Exchanges init calls :=
  AllSteps.of_invariant
    (fun s call s' (inv : Inv s) (hstep : s.step call = some s')
      (hguard : s.Fits call s' ∧ s.Agrees call s') => inv.step hstep hguard.1 hguard.2)
    calls init inv_init (allSteps_and.mpr ⟨hfits, hagrees⟩)

/-- Two exchanges with buffers of the right length. -/
theorem exchanges_of_agrees_twoExchanges :
    AllSteps step Fits init (twoExchanges 16) ∧ AllSteps step Agrees init (twoExchanges 16) ∧
      AllSteps step Exchanges init (twoExchanges 16) :=
  have hfits : AllSteps step Fits init (twoExchanges 16) := by decide +kernel
  have hagrees : AllSteps step Agrees init (twoExchanges 16) := by decide +kernel
  ⟨hfits, hagrees, exchanges_of_agrees _ hfits hagrees⟩

/-- **A longer buffer reads a block that was never written**: the reader computes an offset in
the middle of the features, and takes them for a header. -/
theorem not_forall_exchanges : ¬ ∀ calls : List ShmCall, AllSteps step Fits init calls →
    AllSteps step Exchanges init calls := by
  intro h
  have hfits : AllSteps step Fits init (twoExchanges 32) := by decide +kernel
  exact absurd (h _ hfits) (by decide +kernel)

end Exchange

end StopTrading.Ipc
