import Mathlib.Data.List.AList
import Mathlib.Data.List.Sort
import StopTrading.Library.ByteFile
import StopTrading.Library.Decimal

/-!
# Snapshots of the engine state

`create_snapshot` writes a header of 40 bytes and the serialized state into a file,
`load_snapshot` reads both back and compares a checksum.  The serializer and the checksum
come from crates and are parameters here; what the operating system answers is an argument.
A call either panics (`none`) or returns a `Result`.

The two sides do not fit together.  `to_bytes` copies the four bytes of the last field into a
range of eight, which panics (`toBytes_eq_none`), so no snapshot is ever created
(`createSnapshot_ne_ok`).  And the checksum is never put into the header: from a file with
that header and the right payload the state would be recovered just when the checksum of the
payload is zero (`loadSnapshot_created`).

### What is load-bearing

Everything before the header is written may go right, and then `to_bytes` panics for *every*
header (`toBytes_eq_none`).  The rest of `create_snapshot` is therefore never reached, and no
property of the crates can matter.  The parameters are kept so that this is a theorem and not an
assumption.

`loadSnapshot_created` goes past the panic on purpose.  It supposes a file as `create_snapshot`
would have written it, and shows the second defect, which the first one hides.

### Design decisions

* A panic is `none` and an error is a value, so that "fails or panics" can be told apart.
* The answers of the operating system are arguments, with the part of the data that a failed
  write leaves.
-/

namespace StopTrading.Snapshot

open ByteFile Decimal

/-! ## The header -/

/-- `SnapshotHeader`. -/
structure SnapshotHeader where
  magic : Nat
  version : Nat
  timestampNs : Nat
  payloadSize : Nat
  checksum : Nat
  orderCount : Nat
  positionCount : Nat
  deriving Repr, DecidableEq

namespace SnapshotHeader

/-- `MAGIC`. -/
def magicNumber : Nat := 0x48465453

/-- `VERSION`. -/
def currentVersion : Nat := 1

/-- `new`. -/
def new (timestampNs payloadSize orderCount positionCount : Nat) : SnapshotHeader where
  magic := magicNumber
  version := currentVersion
  timestampNs := timestampNs
  payloadSize := payloadSize
  checksum := 0
  orderCount := orderCount
  positionCount := positionCount

/-- `bytes[lo..hi].copy_from_slice(source)`, which panics when the lengths differ. -/
def copyFromSlice (lo hi : Nat) (source bytes : List UInt8) : Option (List UInt8) :=
  if source.length = hi - lo then some (splice bytes lo source) else none

/-- `to_bytes`. -/
def toBytes (h : SnapshotHeader) : Option (List UInt8) :=
  (copyFromSlice 0 4 (toLE 4 h.magic) (List.replicate 40 0)).bind fun bytes =>
  (copyFromSlice 4 8 (toLE 4 h.version) bytes).bind fun bytes =>
  (copyFromSlice 8 16 (toLE 8 h.timestampNs) bytes).bind fun bytes =>
  (copyFromSlice 16 24 (toLE 8 h.payloadSize) bytes).bind fun bytes =>
  (copyFromSlice 24 28 (toLE 4 h.checksum) bytes).bind fun bytes =>
  (copyFromSlice 28 32 (toLE 4 h.orderCount) bytes).bind fun bytes =>
  copyFromSlice 32 40 (toLE 4 h.positionCount) bytes

/-- The number in the bytes from `lo` to `hi`. -/
def fromLE (lo hi : Nat) (bytes : List UInt8) : Nat := ofLE (window bytes lo (hi - lo))

/-- `from_bytes`.  The last field is built from all of the last eight bytes. -/
def fromBytes (bytes : List UInt8) : Option SnapshotHeader :=
  if bytes.length < 40 then none
  else if fromLE 0 4 bytes ≠ magicNumber then none
  else some {
    magic := fromLE 0 4 bytes
    version := fromLE 4 8 bytes
    timestampNs := fromLE 8 16 bytes
    payloadSize := fromLE 16 24 bytes
    checksum := fromLE 24 28 bytes
    orderCount := fromLE 28 32 bytes
    positionCount := fromLE 32 40 bytes }

/-- `validate`. -/
def validate (h : SnapshotHeader) : Bool := h.magic = magicNumber ∧ h.version = currentVersion

/-- A slice of the right length is copied. -/
theorem copyFromSlice_of_length {lo hi : Nat} {source : List UInt8} (h : source.length = hi - lo)
    (bytes : List UInt8) : copyFromSlice lo hi source bytes = some (splice bytes lo source) :=
  if_pos h

/-- **`to_bytes` always panics**: its last source has four bytes, and the range eight. -/
theorem toBytes_eq_none (h : SnapshotHeader) : h.toBytes = none := by
  unfold toBytes
  rw [copyFromSlice_of_length (length_toLE 4 _), Option.bind_some,
    copyFromSlice_of_length (length_toLE 4 _), Option.bind_some,
    copyFromSlice_of_length (length_toLE 8 _), Option.bind_some,
    copyFromSlice_of_length (length_toLE 8 _), Option.bind_some,
    copyFromSlice_of_length (length_toLE 4 _), Option.bind_some,
    copyFromSlice_of_length (length_toLE 4 _), Option.bind_some]
  exact if_neg (by rw [length_toLE]; decide)

end SnapshotHeader

/-! ## The state of the engine -/

/-- `SerializableOrder`.  An `f64` is its bit pattern. -/
structure SerializableOrder where
  orderId : UInt64
  assetId : String
  side : UInt8
  price : UInt64
  quantity : UInt64
  filledQuantity : UInt64
  status : UInt8
  timestampNs : UInt64
  strategyId : UInt32
  deriving Repr, DecidableEq

/-- `SerializablePosition`. -/
structure SerializablePosition where
  assetId : String
  quantity : UInt64
  entryPrice : UInt64
  currentPrice : UInt64
  unrealizedPnl : UInt64
  timestampNs : UInt64
  deriving Repr, DecidableEq

/-- `SerializableOrderBook`. -/
structure SerializableOrderBook where
  assetId : String
  bids : List (UInt64 × UInt64)
  asks : List (UInt64 × UInt64)
  timestampNs : UInt64
  deriving Repr, DecidableEq

/-- `SerializableRiskState`. -/
structure SerializableRiskState where
  peakValue : UInt64
  maxDrawdown : UInt64
  var : UInt64
  cvar : UInt64
  circuitBreakerActive : Bool
  sizeMultiplier : UInt64
  deriving Repr, DecidableEq

/-- `SerializableStrategyState`. -/
structure SerializableStrategyState where
  strategyId : UInt32
  strategyName : String
  isActive : Bool
  serializedData : List UInt8
  deriving Repr, DecidableEq

/-- `EngineState`. -/
structure EngineState where
  openOrders : List SerializableOrder
  positions : List SerializablePosition
  orderBooks : List SerializableOrderBook
  riskState : SerializableRiskState
  strategyStates : List SerializableStrategyState
  lastSequence : UInt64
  portfolioValue : UInt64
  deriving Repr, DecidableEq

/-- `EngineState::empty`. -/
def EngineState.empty : EngineState where
  openOrders := []
  positions := []
  orderBooks := []
  riskState := ⟨0, 0, 0, 0, false, 0⟩
  strategyStates := []
  lastSequence := 0
  portfolioValue := 0

/-! ## The file -/

/-- `std::io::Error`: a kind, or the number of an error of the operating system. -/
inductive IoError where
  | notFound
  | unexpectedEof
  | os (code : Nat)
  deriving Repr, DecidableEq

/-- `SnapshotError`. -/
inductive SnapshotError where
  | io (error : IoError)
  | serialization (message : String)
  | deserialization (message : String)
  | invalidHeader
  | checksumMismatch
  | noSnapshotsFound
  deriving Repr, DecidableEq

/-- What is used of the crates: the serializer and the checksum. -/
structure Crates where
  serialize : EngineState → Except String (List UInt8)
  deserialize : List UInt8 → Except String EngineState
  hash : List UInt8 → Nat

/-- **The serializer loses nothing.** -/
def Crates.RoundTrips (crates : Crates) : Prop :=
  ∀ state payload, crates.serialize state = .ok payload → crates.deserialize payload = .ok state

/-- The name of a file. -/
abbrev FileName := List UInt8

/-- The files of the snapshot directory. -/
abbrev Directory := AList fun _ : FileName => List UInt8

/-- `StateSnapshotter`, without its directory and the compression flag nothing reads. -/
structure StateSnapshotter where
  maxSnapshots : Nat
  deriving Repr, DecidableEq

/-- The errors of the requests of `create_snapshot` to the operating system, if any.  A failed
write leaves a part of the data; a file of which `removed` says no is not removed. -/
structure CreateAnswers where
  createDirAll : Option IoError
  create : Option IoError
  writeHeader : Option (IoError × Nat)
  writePayload : Option (IoError × Nat)
  syncAll : Option IoError
  readDir : Option IoError
  removed : FileName → Bool

/-- The errors of the requests of `load_snapshot`, for a file that is there. -/
structure LoadAnswers where
  openFile : Option IoError
  readHeader : Option IoError
  readPayload : Option IoError
  deriving Repr, DecidableEq

namespace StateSnapshotter

/-- `"snapshot_"`. -/
def namePrefix : FileName := [115, 110, 97, 112, 115, 104, 111, 116, 95]

/-- `".hft"`. -/
def nameSuffix : FileName := [46, 104, 102, 116]

/-- `generate_filename`. -/
def generateFilename (timestampNs : Nat) : FileName :=
  namePrefix ++ (numeral timestampNs).leftpad 20 zero ++ nameSuffix

/-- `trim_start_matches`: the pattern is taken off as often as it is there. -/
def trimStartMatches (pattern : FileName) : Nat → FileName → FileName
  | 0, name => name
  | rounds + 1, name =>
      if pattern.isPrefixOf name then
        trimStartMatches pattern rounds (name.drop pattern.length)
      else name

/-- `str::parse::<u64>`. -/
def parseU64 (digits : List UInt8) : Option Nat :=
  let digits := if digits.head? = some 43 then digits.tail else digits
  if digits ≠ [] ∧ digits.all (IsDigit ·) ∧ value digits < 2 ^ 64 then some (value digits)
  else none

/-- `parse_timestamp`. -/
def parseTimestamp (name : FileName) : Option Nat :=
  if namePrefix.isPrefixOf name ∧ nameSuffix.isSuffixOf name then
    let name := trimStartMatches namePrefix name.length name
    let name := (trimStartMatches nameSuffix.reverse name.length name.reverse).reverse
    parseU64 name
  else none

/-- The snapshots of a directory, the newest first. -/
def newestFirst (names : List FileName) : List (Nat × FileName) :=
  (names.filterMap fun name => (parseTimestamp name).map fun ts => (ts, name)).mergeSort
    fun a b => b.1 ≤ a.1

/-- `cleanup_old_snapshots`, in a directory that can be read. -/
def cleanupOldSnapshots (s : StateSnapshotter) (removed : FileName → Bool)
    (directory : Directory) : Directory :=
  ((newestFirst directory.keys).drop s.maxSnapshots).foldl
    (fun directory old => if removed old.2 then directory.erase old.2 else directory) directory

/-- The header `create_snapshot` builds. -/
def createdHeader (timestamp : Nat) (payload : List UInt8) (state : EngineState) :
    SnapshotHeader :=
  .new timestamp payload.length (state.openOrders.length % 2 ^ 32)
    (state.positions.length % 2 ^ 32)

/-- `create_snapshot`: the result and the directory it leaves. -/
def createSnapshot (s : StateSnapshotter) (crates : Crates) (answers : CreateAnswers)
    (timestamp : Nat) (state : EngineState) (directory : Directory) :
    Option (Except SnapshotError FileName × Directory) :=
  match answers.createDirAll with
  | some e => some (.error (.io e), directory)
  | none =>
      match crates.serialize state with
      | .error message => some (.error (.serialization message), directory)
      | .ok payload =>
          match answers.create with
          | some e => some (.error (.io e), directory)
          | none =>
              let name := generateFilename timestamp
              (createdHeader timestamp payload state).toBytes.bind fun header =>
                match answers.writeHeader with
                | some (e, n) => some (.error (.io e), directory.insert name (header.take n))
                | none =>
                    match answers.writePayload with
                    | some (e, n) =>
                        some (.error (.io e), directory.insert name (header ++ payload.take n))
                    | none =>
                        let directory := directory.insert name (header ++ payload)
                        match answers.syncAll with
                        | some e => some (.error (.io e), directory)
                        | none =>
                            match answers.readDir with
                            | some e => some (.error (.io e), directory)
                            | none =>
                                some (.ok name, s.cleanupOldSnapshots answers.removed directory)

/-- `load_snapshot`.  A vector of more than `isize::MAX` bytes panics. -/
def loadSnapshot (crates : Crates) (answers : LoadAnswers) (directory : Directory)
    (name : FileName) : Option (Except SnapshotError EngineState) :=
  match directory.lookup name with
  | none => some (.error (.io .notFound))
  | some file =>
      match answers.openFile, answers.readHeader with
      | some e, _ | none, some e => some (.error (.io e))
      | none, none =>
          if file.length < 40 then some (.error (.io .unexpectedEof))
          else
            match SnapshotHeader.fromBytes (file.take 40) with
            | none => some (.error .invalidHeader)
            | some header =>
                if header.validate = false then some (.error .invalidHeader)
                else if header.payloadSize ≥ 2 ^ 63 then none
                else
                  match answers.readPayload with
                  | some e => some (.error (.io e))
                  | none =>
                      if (file.drop 40).length < header.payloadSize then
                        some (.error (.io .unexpectedEof))
                      else
                        let payload := (file.drop 40).take header.payloadSize
                        if crates.hash payload ≠ header.checksum then
                          some (.error .checksumMismatch)
                        else
                          match crates.deserialize payload with
                          | .error message => some (.error (.deserialization message))
                          | .ok state => some (.ok state)

/-! ## What becomes of a snapshot -/

/-- **No snapshot is ever created**: every call fails or panics. -/
theorem createSnapshot_ne_ok (s : StateSnapshotter) (crates : Crates) (answers : CreateAnswers)
    (timestamp : Nat) (state : EngineState) (directory directory' : Directory)
    (name : FileName) :
    s.createSnapshot crates answers timestamp state directory ≠ some (.ok name, directory') := by
  unfold createSnapshot
  split
  · simp
  · split
    · simp
    · split
      · simp
      · rw [SnapshotHeader.toBytes_eq_none, Option.bind_none]
        simp

/-- **The checksum is never put into the header.**  Whatever bytes read back as the header of
a snapshot, behind them its payload is recovered just when its checksum is zero. -/
theorem loadSnapshot_created {crates : Crates} (hcrates : crates.RoundTrips) {timestamp : Nat}
    {state : EngineState} {header payload : List UInt8} {directory : Directory} {name : FileName}
    (hpayload : crates.serialize state = .ok payload) (hsize : payload.length < 2 ^ 63)
    (hlength : header.length = 40)
    (hheader : SnapshotHeader.fromBytes header = some (createdHeader timestamp payload state))
    (hfile : directory.lookup name = some (header ++ payload)) :
    loadSnapshot crates ⟨none, none, none⟩ directory name =
      if crates.hash payload = 0 then some (.ok state)
      else some (.error .checksumMismatch) := by
  have htake : (header ++ payload).take 40 = header := by
    rw [← hlength, List.take_left]
  have hdrop : (header ++ payload).drop 40 = payload := by
    rw [← hlength, List.drop_left]
  have hfits : ¬ (header ++ payload).length < 40 := by
    rw [List.length_append]
    omega
  have hvalid : (createdHeader timestamp payload state).validate = true := rfl
  have hlarge : ¬ (createdHeader timestamp payload state).payloadSize ≥ 2 ^ 63 := not_le.mpr hsize
  have hall : payload.take (createdHeader timestamp payload state).payloadSize = payload :=
    List.take_length
  have hshort : ¬ payload.length < (createdHeader timestamp payload state).payloadSize :=
    lt_irrefl _
  unfold loadSnapshot
  simp only [hfile, if_neg hfits, htake, hheader, hvalid, if_neg hlarge, hdrop, if_neg hshort,
    hall, hcrates state payload hpayload, Bool.true_eq_false, if_false]
  by_cases hzero : crates.hash payload = 0
  · rw [if_pos hzero]
    exact if_neg (not_not.mpr hzero)
  · rw [if_neg hzero]
    exact if_pos hzero

/-- **The round trip of a snapshot**: a created snapshot is loaded as the state it was made
from, a header is read as it was written, and the header of a snapshot holds the checksum of
its payload. -/
structure RoundTrips (s : StateSnapshotter) (crates : Crates) (answers : CreateAnswers)
    (timestamp : Nat) (state : EngineState) (directory : Directory) (header : SnapshotHeader) :
    Prop where
  /-- What was created is loaded as it was. -/
  recovers : ∀ name directory',
    s.createSnapshot crates answers timestamp state directory = some (.ok name, directory') →
      loadSnapshot crates ⟨none, none, none⟩ directory' name = some (.ok state)
  /-- A header is read as it was written. -/
  header : header.toBytes.bind SnapshotHeader.fromBytes = some header
  /-- The header holds the checksum of its payload. -/
  checksum : ∀ payload, crates.serialize state = .ok payload →
    (createdHeader timestamp payload state).checksum = crates.hash payload

/-- **No snapshot makes the round trip**, whatever the serializer and the checksum are. -/
theorem not_roundTrips (s : StateSnapshotter) (crates : Crates) (answers : CreateAnswers)
    (timestamp : Nat) (state : EngineState) (directory : Directory) (header : SnapshotHeader) :
    ¬ s.RoundTrips crates answers timestamp state directory header := by
  intro h
  have hheader := h.header
  rw [SnapshotHeader.toBytes_eq_none] at hheader
  exact Option.some_ne_none header hheader.symm

/-- The crates on the empty state, of which the serializer makes 89 zeros. -/
def emptyStateCrates : Crates where
  serialize state :=
    if state = .empty then .ok (List.replicate 89 0) else .error "not the empty state"
  deserialize payload :=
    if payload = List.replicate 89 0 then .ok .empty else .error "not the empty state"
  hash payload := if payload = List.replicate 89 0 then 0xda9490f8 else 0

/-- **The empty state is not recovered**: its header cannot be written. -/
theorem not_forall_roundTrips :
    ¬ ∀ crates : Crates, crates.RoundTrips → ∀ s answers timestamp state directory header,
      RoundTrips s crates answers timestamp state directory header := by
  intro h
  have hcrates : emptyStateCrates.RoundTrips := by
    intro state payload hserialize
    by_cases hempty : state = .empty
    · subst hempty
      obtain rfl : List.replicate 89 0 = payload := Except.ok.inj hserialize
      rfl
    · have herror : emptyStateCrates.serialize state = .error "not the empty state" :=
        if_neg hempty
      rw [herror] at hserialize
      cases hserialize
  have hheader := (h emptyStateCrates hcrates ⟨5⟩
    ⟨none, none, none, none, none, none, fun _ => true⟩ 1 .empty ∅ (.new 1 89 0 0)).header
  revert hheader
  decide

end StateSnapshotter

end StopTrading.Snapshot
