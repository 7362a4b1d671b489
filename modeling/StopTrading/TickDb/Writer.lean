import StopTrading.Library.ByteFile

/-!
# The writer of the tick store

`TickDbWriter` appends records of 33 bytes behind a header of 40 to a file that it maps into
memory.  A new file gets its full length, `initial_capacity`, at once; the header is brought
up to date by `flush` and `close` only.

The mapping is shared, so what is written to it is in the file; a mapping is as long as its
file.  Prices and volumes are their bits.  What the operating system answers is an argument
(`Io`).

### What is taken from elsewhere

Records are encoded by `bincode`, which is no part of this repository.  `Bincode` stands for its
two functions, and `Bincode.FixedWidth` for what is used of its documentation: a record has the
width of its fields, it is read back whatever follows, and zeros are written as zeros.  Nothing
else about the bytes of a record matters to the writer or to its reader.  `LittleEndian` is the
encoding as the documentation describes it, for runs on given ticks.

### Design decisions

* A writer and its file are one state (`MappedWriter`), because every claim about the writer is
  about what is in the file.  What is written and not flushed is in it too, as with a shared
  mapping.
* `Admits` is the guard of both calls, so that each of them has two lemmas, one where the ticks
  are let in and one where they are not.
-/

namespace StopTrading.TickDb

open ByteFile

/-- `TickDbError`. -/
inductive TickDbError where
  | io
  | sizeLimitExceeded
  | invalidTickData (reason : String)
  | corruption (reason : String)
  | databaseClosed
  deriving Repr, DecidableEq

/-- How a call that opens a file fails. -/
inductive Fault where
  | error (e : TickDbError)
  | panic
  deriving Repr, DecidableEq

/-- What the operating system answers during a call: the time, what is in the padding of a
header, and which requests succeed. -/
structure Io where
  now : UInt64
  padding : UInt32
  opens : Bool
  resizes : Bool
  maps : Bool
  flushes : Bool
  syncs : Bool
  deriving Repr, DecidableEq

/-- Every request succeeds. -/
def Io.fine (now : UInt64) : Io := ⟨now, 0, true, true, true, true, true⟩

/-! ## Records -/

/-- `StoredTick`. -/
structure StoredTick where
  timestampNs : UInt64
  price : BitVec 64
  volume : BitVec 64
  isBuyerMaker : Bool
  sequence : UInt64
  deriving Repr, DecidableEq

/-- `x <= 0.0`, which is false of NaN. -/
def notPositive (x : BitVec 64) : Bool :=
  (x &&& 0x7fffffffffffffff).ule 0x7ff0000000000000 && (x.msb || x == 0)

namespace StoredTick

/-- `SERIALIZE_SIZE`. -/
def serializeSize : Nat := 8 + 8 + 8 + 1 + 8

/-- The record of which the unused part of a file looks full. -/
def blank : StoredTick := ⟨0, 0, 0, false, 0⟩

/-- What `append` and `append_batch` ask of a tick. -/
def Valid (t : StoredTick) : Prop := ¬ (notPositive t.price ∨ notPositive t.volume)

instance (t : StoredTick) : Decidable t.Valid := inferInstanceAs (Decidable (¬ _))

end StoredTick

/-! ## The encoding of records -/

/-- `bincode`, as far as ticks go.  `serialize` stands for `serialize_into` as well, and its
length for `serialized_size`. -/
class Bincode where
  serialize : StoredTick → List UInt8
  deserialize : List UInt8 → Option StoredTick

namespace StoredTick

section Encoding

variable [Bincode]

/-- `bincode::serialize`; there is nothing in a record that it could fail on. -/
def serialize (t : StoredTick) : List UInt8 := Bincode.serialize t

/-- `bincode::deserialize`, which does not look at what follows. -/
def deserialize (bytes : List UInt8) : Option StoredTick := Bincode.deserialize bytes

end Encoding

end StoredTick

/-- **What the documentation of `bincode` says** of the encoding that its functions use: numbers
have the width of their type, a flag is a byte, and nothing stands between the fields. -/
class Bincode.FixedWidth [Bincode] : Prop where
  /-- a record is as long as its fields -/
  length_eq : ∀ t : StoredTick, t.serialize.length = StoredTick.serializeSize
  /-- it is read as it was written, whatever follows -/
  round_trip : ∀ (t : StoredTick) (rest : List UInt8),
    StoredTick.deserialize (t.serialize ++ rest) = some t
  /-- zeros are written as zeros -/
  zeros : StoredTick.blank.serialize = List.replicate StoredTick.serializeSize 0

namespace StoredTick

variable [Bincode] [Bincode.FixedWidth]

/-- A record has 33 bytes, -/
@[simp]
theorem length_serialize (t : StoredTick) : t.serialize.length = serializeSize :=
  Bincode.FixedWidth.length_eq t

/-- and so have any number of them each. -/
theorem length_flatMap_serialize (ticks : List StoredTick) :
    (ticks.flatMap serialize).length = serializeSize * ticks.length := by
  induction ticks with
  | nil => rfl
  | cons t ticks ih =>
      rw [List.flatMap_cons, List.length_append, length_serialize, ih, List.length_cons,
        Nat.mul_succ, Nat.add_comm]

/-- **A record is read as it was written.** -/
theorem deserialize_serialize (t : StoredTick) (rest : List UInt8) :
    deserialize (t.serialize ++ rest) = some t :=
  Bincode.FixedWidth.round_trip t rest

/-- A blank record is zeros. -/
theorem serialize_blank : blank.serialize = List.replicate serializeSize 0 :=
  Bincode.FixedWidth.zeros

end StoredTick

namespace LittleEndian

/-- The fields of a record, the least byte of a number first. -/
def serialize (t : StoredTick) : List UInt8 :=
  toLE 8 t.timestampNs.toNat ++ toLE 8 t.price.toNat ++ toLE 8 t.volume.toNat ++
    [if t.isBuyerMaker then 1 else 0] ++ toLE 8 t.sequence.toNat

/-- The fields are read off one after another; a flag is zero or one. -/
def deserialize (bytes : List UInt8) : Option StoredTick := do
  let (timestampNs, bytes) ← readLE 8 bytes
  let (price, bytes) ← readLE 8 bytes
  let (volume, bytes) ← readLE 8 bytes
  let (flag, bytes) ← readLE 1 bytes
  let (sequence, _) ← readLE 8 bytes
  if flag ≤ 1 then
    some ⟨.ofNat timestampNs, .ofNat 64 price, .ofNat 64 volume, flag = 1, .ofNat sequence⟩
  else
    none

/-- The little-endian encoding is read back. -/
theorem deserialize_serialize (t : StoredTick) (rest : List UInt8) :
    deserialize (serialize t ++ rest) = some t := by
  have hflag : [if t.isBuyerMaker then (1 : UInt8) else 0] =
      toLE 1 (if t.isBuyerMaker then 1 else 0) := by
    cases t.isBuyerMaker <;> rfl
  have hflag_lt : (if t.isBuyerMaker then 1 else 0) < 256 ^ 1 := by
    cases t.isBuyerMaker <;> decide
  have h64 : (256 : Nat) ^ 8 = 2 ^ 64 := rfl
  simp only [deserialize, serialize, hflag, List.append_assoc]
  rw [readLE_toLE_of_lt (h64 ▸ t.timestampNs.toNat_lt)]
  simp only [Option.bind_eq_bind, Option.bind_some]
  rw [readLE_toLE_of_lt (h64 ▸ t.price.isLt)]
  simp only [Option.bind_some]
  rw [readLE_toLE_of_lt (h64 ▸ t.volume.isLt)]
  simp only [Option.bind_some]
  rw [readLE_toLE_of_lt hflag_lt]
  simp only [Option.bind_some]
  rw [readLE_toLE_of_lt (h64 ▸ t.sequence.toNat_lt)]
  cases t with
  | mk timestampNs price volume isBuyerMaker sequence => cases isBuyerMaker <;> simp

/-- The encoding takes the place of the crate where this namespace is open. -/
scoped instance bincode : Bincode := ⟨serialize, deserialize⟩

/-- It keeps to the documentation. -/
scoped instance fixedWidth : Bincode.FixedWidth where
  length_eq t := by
    show (serialize t).length = _
    simp [serialize, StoredTick.serializeSize]
  round_trip := deserialize_serialize
  zeros := rfl

end LittleEndian

/-! ## The header -/

/-- `FileHeader`. -/
structure FileHeader where
  magic : UInt32
  version : UInt32
  tickCount : UInt64
  fileSize : UInt64
  createdTimestamp : UInt64
  checksum : UInt32
  deriving Repr, DecidableEq

namespace FileHeader

/-- `MAGIC`. -/
def magicNumber : UInt32 := 0x5449434B

/-- `VERSION`. -/
def versionNumber : UInt32 := 1

/-- `SIZE`: the fields, and four bytes of padding. -/
def size : Nat := 40

/-- `new`. -/
def new : FileHeader := ⟨magicNumber, versionNumber, 0, 0, 0, 0⟩

/-- `calculate_checksum`. -/
def calculateChecksum (h : FileHeader) : UInt32 :=
  h.magic ^^^ h.version ^^^ h.tickCount.toUInt32 ^^^ (h.tickCount >>> 32).toUInt32 ^^^
    h.fileSize.toUInt32 ^^^ (h.fileSize >>> 32).toUInt32 ^^^
    h.createdTimestamp.toUInt32 ^^^ (h.createdTimestamp >>> 32).toUInt32

/-- `validate`. -/
def validate (h : FileHeader) : Except TickDbError Unit :=
  if h.magic ≠ magicNumber then .error (.corruption "Invalid magic number")
  else if h.version ≠ versionNumber then .error (.corruption "Unsupported version")
  else if h.checksum ≠ h.calculateChecksum then .error (.corruption "Checksum mismatch")
  else .ok ()

/-- The bytes of a header. -/
def toBytes (h : FileHeader) (padding : UInt32) : List UInt8 :=
  toLE 4 h.magic.toNat ++ toLE 4 h.version.toNat ++ toLE 8 h.tickCount.toNat ++
    toLE 8 h.fileSize.toNat ++ toLE 8 h.createdTimestamp.toNat ++ toLE 4 h.checksum.toNat ++
    toLE 4 padding.toNat

/-- The header at the front of a file; `none` if the file is too short for one. -/
def ofBytes (file : List UInt8) : Option FileHeader := do
  let (magic, bytes) ← readLE 4 file
  let (version, bytes) ← readLE 4 bytes
  let (tickCount, bytes) ← readLE 8 bytes
  let (fileSize, bytes) ← readLE 8 bytes
  let (createdTimestamp, bytes) ← readLE 8 bytes
  let (checksum, bytes) ← readLE 4 bytes
  let _ ← readLE 4 bytes
  some ⟨.ofNat magic, .ofNat version, .ofNat tickCount, .ofNat fileSize,
    .ofNat createdTimestamp, .ofNat checksum⟩

/-- The header that is written for so many ticks. -/
def current (tickCount fileSize : Nat) (now : UInt64) : FileHeader :=
  let header :=
    { new with
      tickCount := .ofNat tickCount
      fileSize := .ofNat fileSize
      createdTimestamp := now }
  { header with checksum := header.calculateChecksum }

/-- A header has 40 bytes. -/
@[simp]
theorem length_toBytes (h : FileHeader) (padding : UInt32) :
    (h.toBytes padding).length = size := by
  simp [toBytes, size]

/-- **A header is read as it was written.** -/
theorem ofBytes_toBytes (h : FileHeader) (padding : UInt32) (rest : List UInt8) :
    ofBytes (h.toBytes padding ++ rest) = some h := by
  have h32 : (256 : Nat) ^ 4 = 2 ^ 32 := rfl
  have h64 : (256 : Nat) ^ 8 = 2 ^ 64 := rfl
  simp only [ofBytes, toBytes, List.append_assoc]
  rw [readLE_toLE_of_lt (h32 ▸ h.magic.toNat_lt)]
  simp only [Option.bind_eq_bind, Option.bind_some]
  rw [readLE_toLE_of_lt (h32 ▸ h.version.toNat_lt)]
  simp only [Option.bind_some]
  rw [readLE_toLE_of_lt (h64 ▸ h.tickCount.toNat_lt)]
  simp only [Option.bind_some]
  rw [readLE_toLE_of_lt (h64 ▸ h.fileSize.toNat_lt)]
  simp only [Option.bind_some]
  rw [readLE_toLE_of_lt (h64 ▸ h.createdTimestamp.toNat_lt)]
  simp only [Option.bind_some]
  rw [readLE_toLE_of_lt (h32 ▸ h.checksum.toNat_lt)]
  simp only [Option.bind_some]
  rw [readLE_toLE_of_lt (h32 ▸ padding.toNat_lt)]
  simp

/-- A header that is written passes its own checks. -/
theorem validate_current (tickCount fileSize : Nat) (now : UInt64) :
    (current tickCount fileSize now).validate = .ok () := by
  simp [validate, current, new, calculateChecksum]

end FileHeader

/-! ## The writer -/

/-- `TickDbConfig`. -/
structure TickDbConfig where
  maxFileSize : Nat
  initialCapacity : Nat
  syncOnWrite : Bool
  deriving Repr, DecidableEq

/-- `TickDbWriter`.  `mapped` says whether it has a mapping and the file. -/
structure TickDbWriter where
  mapped : Bool
  writePos : Nat
  tickCount : Nat
  sequence : Nat
  config : TickDbConfig
  closed : Bool
  fileSize : Nat
  deriving Repr, DecidableEq

/-- `TickDbWriter::new` and `initialize`, on the file of the path, which is empty if there is
none. -/
def TickDbWriter.new (config : TickDbConfig) (io : Io) (file : List UInt8) :
    List UInt8 × Except Fault TickDbWriter :=
  let failed := Except.error (Fault.error .io)
  if !io.opens then (file, failed)
  else if file.length = 0 then
    if !io.resizes then (file, failed)
    else
      let file := List.replicate config.initialCapacity 0
      if !io.maps then (file, failed)
      else if file.length < FileHeader.size then (file, .error .panic)
      else
        let file := splice file 0 ((FileHeader.current 0 0 io.now).toBytes io.padding)
        if !io.flushes then (file, failed)
        else (file, .ok ⟨true, FileHeader.size, 0, 0, config, false, FileHeader.size⟩)
  else if !io.maps then (file, failed)
  else
    match FileHeader.ofBytes file with
    | none => (file, .error .panic)
    | some header =>
        match header.validate with
        | .error e => (file, .error (.error e))
        | .ok () =>
            (file, .ok ⟨true, file.length, header.tickCount.toNat, header.tickCount.toNat, config,
              false, file.length⟩)

/-- A writer and its file. -/
structure MappedWriter where
  writer : TickDbWriter
  file : List UInt8
  deriving Repr, DecidableEq

namespace MappedWriter

section Appending

variable [Bincode]

/-- The counters and the file after ticks have been written; `append` has yet to advance
`sequence`. -/
def written (db : MappedWriter) (ticks : List StoredTick) (newPos : Nat) : MappedWriter :=
  ⟨{ db.writer with
      writePos := newPos
      tickCount := (db.writer.tickCount + ticks.length) % 2 ^ 64
      fileSize := newPos },
    splice db.file db.writer.writePos (ticks.flatMap StoredTick.serialize)⟩

/-- `append`. -/
def append (db : MappedWriter) (tick : StoredTick) (io : Io) :
    MappedWriter × Except TickDbError Nat :=
  let w := db.writer
  if w.closed then (db, .error .databaseClosed)
  else if notPositive tick.price ∨ notPositive tick.volume then
    (db, .error (.invalidTickData "Price and volume must be positive"))
  else
    let newPos := w.writePos + tick.serialize.length
    if 2 ^ 64 ≤ newPos then (db, .error .sizeLimitExceeded)
    else if w.config.maxFileSize < newPos then (db, .error .sizeLimitExceeded)
    else if !w.mapped then (db, .error .databaseClosed)
    -- `expand_and_write`
    else if db.file.length < newPos then (db, .error .sizeLimitExceeded)
    else
      let db := db.written [tick] newPos
      if w.config.syncOnWrite && !io.flushes then (db, .error .io)
      else
        (⟨{ db.writer with sequence := (w.sequence + 1) % 2 ^ 64 }, db.file⟩, .ok w.sequence)

/-- `append_batch`. -/
def appendBatch (db : MappedWriter) (ticks : List StoredTick) :
    MappedWriter × Except TickDbError Nat :=
  let w := db.writer
  if w.closed then (db, .error .databaseClosed)
  else if ticks.any fun tick => notPositive tick.price ∨ notPositive tick.volume then
    (db, .error (.invalidTickData "All ticks must have positive price and volume"))
  else
    let newPos := w.writePos + (ticks.flatMap StoredTick.serialize).length
    if 2 ^ 64 ≤ newPos then (db, .error .sizeLimitExceeded)
    else if w.config.maxFileSize < newPos then (db, .error .sizeLimitExceeded)
    else if w.mapped then
      if db.file.length < newPos then (db, .error .sizeLimitExceeded)
      else (db.written ticks newPos, .ok w.sequence)
    else (⟨(db.written ticks newPos).writer, db.file⟩, .ok w.sequence)

end Appending

/-- `update_header`. -/
def updateHeader (db : MappedWriter) (io : Io) : MappedWriter :=
  if db.writer.mapped then
    let header := FileHeader.current db.writer.tickCount db.writer.fileSize io.now
    { db with file := splice db.file 0 (header.toBytes io.padding) }
  else db

/-- `flush`. -/
def flush (db : MappedWriter) (io : Io) : MappedWriter × Except TickDbError Unit :=
  if db.writer.mapped && !io.flushes then (db, .error .io)
  else if db.writer.mapped && !io.syncs then (db.updateHeader io, .error .io)
  else (db.updateHeader io, .ok ())

/-- `close`. -/
def close (db : MappedWriter) (io : Io) : MappedWriter × Except TickDbError Unit :=
  let flushed := flush ⟨{ db.writer with closed := true }, db.file⟩ io
  match flushed.2 with
  | .error e => (flushed.1, .error e)
  | .ok () => (⟨{ flushed.1.writer with mapped := false }, flushed.1.file⟩, .ok ())

/-- `drop`: the file that is left. -/
def drop (db : MappedWriter) (io : Io) : List UInt8 := (db.close io).1.file

/-! ## What is let in -/

/-- **Ticks are let in**: the writer is open, the ticks are positive, and there is room for
them. -/
def Admits (db : MappedWriter) (ticks : List StoredTick) : Prop :=
  db.writer.closed = false ∧ (∀ tick ∈ ticks, tick.Valid) ∧
    db.writer.writePos + StoredTick.serializeSize * ticks.length <
      min (2 ^ 64) (min db.writer.config.maxFileSize db.file.length + 1)

instance (db : MappedWriter) (ticks : List StoredTick) : Decidable (db.Admits ticks) :=
  inferInstanceAs (Decidable (_ ∧ _))

/-- Where the next record goes after so many ticks. -/
def posAfter (db : MappedWriter) (ticks : List StoredTick) : Nat :=
  db.writer.writePos + StoredTick.serializeSize * ticks.length

/-- A writer that is not closed has its mapping. -/
def Open (db : MappedWriter) : Prop := db.writer.closed = false → db.writer.mapped = true

section Admitted

variable [Bincode] [Bincode.FixedWidth]

/-- A tick that is let in is written and, where that is asked for, synchronised. -/
theorem append_of_admits {db : MappedWriter} {tick : StoredTick} (io : Io) (hopen : db.Open)
    (h : db.Admits [tick]) :
    db.append tick io =
      if db.writer.config.syncOnWrite && !io.flushes then
        (db.written [tick] (db.posAfter [tick]), .error .io)
      else
        (⟨{ (db.written [tick] (db.posAfter [tick])).writer with
              sequence := (db.writer.sequence + 1) % 2 ^ 64 },
            (db.written [tick] (db.posAfter [tick])).file⟩, .ok db.writer.sequence) := by
  obtain ⟨hclosed, hvalid, hroom⟩ := h
  have htick : ¬ (notPositive tick.price ∨ notPositive tick.volume) :=
    hvalid tick (List.mem_singleton_self tick)
  rw [List.length_singleton, Nat.mul_one] at hroom
  rw [append, if_neg (by rw [hclosed]; nofun), if_neg htick]
  simp only [StoredTick.length_serialize]
  rw [if_neg (by omega), if_neg (by omega), if_neg (by rw [hopen hclosed]; nofun),
    if_neg (by omega)]
  rfl

/-- One that is not is an error, and changes nothing. -/
theorem append_of_not_admits {db : MappedWriter} {tick : StoredTick} (io : Io)
    (h : ¬ db.Admits [tick]) : ∃ e, db.append tick io = (db, .error e) := by
  rw [append]
  simp only [StoredTick.length_serialize]
  by_cases hclosed : db.writer.closed = true
  · exact ⟨_, if_pos hclosed⟩
  by_cases hvalid : notPositive tick.price ∨ notPositive tick.volume
  · exact ⟨_, (if_neg hclosed).trans (if_pos hvalid)⟩
  rw [if_neg hclosed, if_neg hvalid]
  have hroom : ¬ db.writer.writePos + StoredTick.serializeSize <
      min (2 ^ 64) (min db.writer.config.maxFileSize db.file.length + 1) := fun hroom =>
    h ⟨Bool.eq_false_of_not_eq_true hclosed, fun t ht => List.mem_singleton.mp ht ▸ hvalid, hroom⟩
  split_ifs
  all_goals first
    | exact ⟨_, rfl⟩
    | omega

/-- A batch that is let in is written, -/
theorem appendBatch_of_admits {db : MappedWriter} {ticks : List StoredTick} (hopen : db.Open)
    (h : db.Admits ticks) :
    db.appendBatch ticks = (db.written ticks (db.posAfter ticks), .ok db.writer.sequence) := by
  obtain ⟨hclosed, hvalid, hroom⟩ := h
  have hticks : (ticks.any fun t => notPositive t.price ∨ notPositive t.volume) = false := by
    rw [List.any_eq_false]
    intro t ht hpositive
    exact hvalid t ht (of_decide_eq_true hpositive)
  rw [appendBatch, if_neg (by rw [hclosed]; nofun), if_neg (by rw [hticks]; nofun)]
  simp only [StoredTick.length_flatMap_serialize]
  rw [if_neg (by omega), if_neg (by omega), if_pos (hopen hclosed), if_neg (by omega)]
  rfl

/-- and one that is not changes nothing. -/
theorem appendBatch_of_not_admits {db : MappedWriter} {ticks : List StoredTick} (hopen : db.Open)
    (h : ¬ db.Admits ticks) : ∃ e, db.appendBatch ticks = (db, .error e) := by
  rw [appendBatch]
  simp only [StoredTick.length_flatMap_serialize]
  by_cases hclosed : db.writer.closed = true
  · exact ⟨_, if_pos hclosed⟩
  by_cases hvalid : (ticks.any fun t => notPositive t.price ∨ notPositive t.volume) = true
  · exact ⟨_, (if_neg hclosed).trans (if_pos hvalid)⟩
  have hopened : db.writer.closed = false := Bool.eq_false_of_not_eq_true hclosed
  rw [if_neg hclosed, if_neg hvalid, if_pos (hopen hopened)]
  have hroom : ¬ db.writer.writePos + StoredTick.serializeSize * ticks.length <
      min (2 ^ 64) (min db.writer.config.maxFileSize db.file.length + 1) := fun hroom =>
    h ⟨hopened,
      fun t ht hpositive => hvalid (List.any_eq_true.mpr ⟨t, ht, decide_eq_true hpositive⟩), hroom⟩
  split_ifs
  all_goals first
    | exact ⟨_, rfl⟩
    | omega

end Admitted

/-! ## Flushing and closing -/

/-- The header that is written now, over the old one. -/
theorem updateHeader_of_mapped {db : MappedWriter} (h : db.writer.mapped = true) (io : Io) :
    db.updateHeader io = ⟨db.writer, splice db.file 0
      ((FileHeader.current db.writer.tickCount db.writer.fileSize io.now).toBytes io.padding)⟩ := by
  rw [updateHeader, if_pos h]

/-- Writing the header leaves the counters alone. -/
theorem updateHeader_writer (db : MappedWriter) (io : Io) :
    (db.updateHeader io).writer = db.writer := by
  unfold updateHeader
  split <;> rfl

/-- Flushing leaves the counters alone. -/
theorem flush_writer (db : MappedWriter) (io : Io) : (db.flush io).1.writer = db.writer := by
  rw [flush]
  split
  · rfl
  · split <;> exact db.updateHeader_writer io

/-- **A flush that succeeds** has written the header. -/
theorem flush_ok {db : MappedWriter} {io : Io} (h : (db.flush io).2 = .ok ()) :
    db.flush io = (db.updateHeader io, .ok ()) := by
  revert h
  rw [flush]
  split
  · nofun
  · split
    · nofun
    · exact fun _ => rfl

/-- Closing leaves the counters alone. -/
theorem close_writer (db : MappedWriter) (io : Io) :
    ∃ mapped, (db.close io).1.writer = { db.writer with closed := true, mapped := mapped } := by
  have hflush := flush_writer ⟨{ db.writer with closed := true }, db.file⟩ io
  rw [close]
  cases hresult : (flush ⟨{ db.writer with closed := true }, db.file⟩ io).2 with
  | error e => exact ⟨db.writer.mapped, hflush⟩
  | ok _ => exact ⟨false, by simp only [hflush]⟩

/-- **A close that succeeds** has written the header. -/
theorem close_ok {db : MappedWriter} {io : Io} (h : (db.close io).2 = .ok ()) :
    (db.close io).1.file = (db.updateHeader io).file := by
  revert h
  rw [close]
  cases hresult : (flush ⟨{ db.writer with closed := true }, db.file⟩ io).2 with
  | error e => nofun
  | ok _ =>
      intro _
      have hwritten := flush_ok hresult
      simp only [hwritten]
      rw [updateHeader, updateHeader]
      split <;> rfl

end MappedWriter

end StopTrading.TickDb
