import StopTrading.Library.ByteFile
import StopTrading.Library.FoldedChecksum
import StopTrading.Library.Transition
import Mathlib.Algebra.BigOperators.Group.List.Basic
import Mathlib.Logic.Function.Basic

/-!
# The segmented write-ahead log

A writer of the log appends its entries to a segment file and goes on to another one when
`segment_size` is reached.  Some writers, each created with a base path and a segment size of
its own, append in any order.

`separate_iff` says when no call aborts, no file has more than one entry that ends beyond the
segment size, and no file has entries of two writers.  Three things stand against it: the
rotation divides by a hundredth of the segment size, which is zero for sizes below 100; it
opens no file, so that a segment grows on; and the first segment is looked for beside the
empty path, wherever the base path is.

### What is load-bearing

Because the rotation opens no file, a writer that was created stays at the segment that it was
created with, and that segment is the same for all of them.  `After` says so: all entries are in
one file, in the order of the calls, and the offset of a writer is the length of its own entries.
Everything else about the files is then a question about one list of entries with their writers.

`beyond` counts the entries of a writer that end beyond a size in such a list.  Where the list
has one writer only, the count is at most one exactly if all entries but the last fit
(`beyond_le_one_iff`).  That is the rotation rule as the interface states it.

### Design decisions

* A call that would divide by zero has no world after it.  `Returns` states the condition for
  that on the history, and `aborts_iff` connects it to the arithmetic of the writer, whose offset
  is a machine integer; a size below 100 is reached long before the offset can go round.
* Writers are indexed by an arbitrary type.  Nothing depends on how many there are.
-/

namespace StopTrading.Persistence

open ByteFile Checksum Transition

/-! ## Entries -/

/-- `WalEntryHeader`. -/
structure WalEntryHeader where
  length : Nat
  entryType : UInt8
  flags : UInt8
  checksum : BitVec 32
  sequence : Nat
  timestampNs : Nat

namespace WalEntryHeader

/-- `SIZE`. -/
def size : Nat := 32

/-- `new`. -/
def new (entryType : UInt8) (sequence : Nat) : WalEntryHeader :=
  ⟨0, entryType, 0, 0#32, sequence, 0⟩

/-- `serialize`, into a buffer of zeros. -/
def serialize (h : WalEntryHeader) : List UInt8 :=
  toLE 4 h.length ++ [h.entryType, h.flags] ++ toLE 4 h.checksum.toNat ++ toLE 8 h.sequence ++
    toLE 8 h.timestampNs ++ List.replicate 6 0

/-- A header has 32 bytes. -/
@[simp] theorem length_serialize (h : WalEntryHeader) : h.serialize.length = size := rfl

end WalEntryHeader

/-- The data of an entry: a slice has less than `2 ^ 63` bytes. -/
structure Payload where
  bytes : List UInt8
  bound : bytes.length < 2 ^ 63

/-- `calculate_crc`. -/
def calculateCrc (data : List UInt8) : BitVec 32 :=
  ~~~(data.foldl (byteStep 0xEDB88320#32) 0xFFFFFFFF#32)

/-! ## Writers -/

/-- A path by its components. -/
abbrev Path := List String

/-- `Path::parent`. -/
def parent (path : Path) : Option Path := if path = [] then none else some path.dropLast

/-- The name of a segment file. -/
def segmentName (segmentNum : Nat) : String :=
  let digits := Nat.toDigits 10 segmentNum
  "wal_" ++ String.ofList (List.replicate (10 - digits.length) '0' ++ digits) ++ ".log"

/-- The errors of `append`. -/
inductive WalError where
  | notActive
  | noFileHandle
  deriving Repr, DecidableEq

/-- `WalWriter`; the open file is given by its path. -/
structure WalWriter where
  file : Option Path
  currentPath : Path
  writeOffset : Nat
  sequence : Nat
  bytesWritten : Nat
  entriesWritten : Nat
  segmentSize : Nat
  syncInterval : Nat
  entriesSinceSync : Nat
  active : Bool

namespace WalWriter

/-- `open_segment`. -/
def openSegment (w : WalWriter) (segmentNum : Nat) : WalWriter :=
  let segmentPath := (parent w.currentPath).getD ["."] ++ [segmentName segmentNum]
  { w with currentPath := segmentPath, file := some segmentPath, writeOffset := 0 }

/-- `new`: the directory that is created, and the writer. -/
def new (basePath : Path) (segmentSize : Nat) : Path × WalWriter :=
  (basePath,
    openSegment
      { file := none
        currentPath := []
        writeOffset := 0
        sequence := 1
        bytesWritten := 0
        entriesWritten := 0
        segmentSize := segmentSize
        syncInterval := 100
        entriesSinceSync := 0
        active := true } 0)

/-- `rotate_segment`: the number of the next segment, which is not opened, or an abort. -/
def rotateSegment (w : WalWriter) : Option Nat :=
  if w.segmentSize / 100 = 0 then none else some (w.sequence / (w.segmentSize / 100))

/-- An entry that was written is counted, and the file is synchronised in time. -/
def countEntry (w : WalWriter) (totalBytes : Nat) : WalWriter :=
  let entriesCount := (w.entriesSinceSync + 1) % 2 ^ 64
  { w with
    writeOffset := (w.writeOffset + totalBytes) % 2 ^ 64
    bytesWritten := (w.bytesWritten + totalBytes) % 2 ^ 64
    entriesWritten := (w.entriesWritten + 1) % 2 ^ 64
    entriesSinceSync := if entriesCount ≥ w.syncInterval then 0 else entriesCount }

/-- What `append` returns, the writer it leaves, and what it has written to which file. -/
structure Appended where
  result : Except WalError Nat
  writer : WalWriter
  output : Option (Path × List UInt8)

/-- `append`, or an abort. -/
def append (w : WalWriter) (data : Payload) (timestampNs : Nat) : Option Appended :=
  if w.active = false then some ⟨.error .notActive, w, none⟩
  else
    let sequence := w.sequence
    let w := { w with sequence := (w.sequence + 1) % 2 ^ 64 }
    let header := { WalEntryHeader.new 1 sequence with
      length := data.bytes.length % 2 ^ 32
      timestampNs := timestampNs
      checksum := calculateCrc data.bytes }
    match w.file with
    | none => some ⟨.error .noFileHandle, w, none⟩
    | some path =>
        let w := w.countEntry (WalEntryHeader.size + data.bytes.length)
        let appended := ⟨.ok sequence, w, some (path, header.serialize ++ data.bytes)⟩
        if w.writeOffset ≥ w.segmentSize then w.rotateSegment.map fun _ => appended
        else some appended

/-- **An append to an open segment** aborts if the size is reached and is below 100; else it
writes the entry to the same file. -/
theorem append_of_open {w : WalWriter} {path : Path} (hactive : w.active = true)
    (hfile : w.file = some path) (data : Payload) (timestampNs : Nat) :
    ∃ w' bytes, w.append data timestampNs =
        (if (w.writeOffset + (WalEntryHeader.size + data.bytes.length)) % 2 ^ 64 ≥ w.segmentSize ∧
          w.segmentSize < 100 then none else some ⟨.ok w.sequence, w', some (path, bytes)⟩) ∧
      w'.active = true ∧ w'.file = some path ∧ w'.segmentSize = w.segmentSize ∧
      w'.writeOffset = (w.writeOffset + (WalEntryHeader.size + data.bytes.length)) % 2 ^ 64 ∧
      bytes.length = WalEntryHeader.size + data.bytes.length := by
  obtain ⟨header, hheader⟩ : ∃ header, header = { WalEntryHeader.new 1 w.sequence with
      length := data.bytes.length % 2 ^ 32
      timestampNs := timestampNs
      checksum := calculateCrc data.bytes } := ⟨_, rfl⟩
  obtain ⟨w', hw'⟩ : ∃ w',
      w' = countEntry { w with file := some path, sequence := (w.sequence + 1) % 2 ^ 64 }
        (WalEntryHeader.size + data.bytes.length) := ⟨_, rfl⟩
  have hsize : w'.segmentSize = w.segmentSize := hw' ▸ rfl
  have hoffset : w'.writeOffset =
      (w.writeOffset + (WalEntryHeader.size + data.bytes.length)) % 2 ^ 64 := hw' ▸ rfl
  refine ⟨w', header.serialize ++ data.bytes, ?_, hw' ▸ hactive, hw' ▸ rfl, hsize, hoffset, ?_⟩
  · have hzero : w.segmentSize / 100 = 0 ↔ w.segmentSize < 100 := by omega
    unfold append
    rw [if_neg (by rw [hactive]; decide)]
    dsimp only
    rw [hfile]
    dsimp only
    rw [← hheader, ← hw', ← hoffset, rotateSegment, hsize]
    by_cases hfull : w'.writeOffset ≥ w.segmentSize
    · by_cases hsmall : w.segmentSize < 100
      · rw [if_pos hfull, if_pos (hzero.mpr hsmall), if_pos ⟨hfull, hsmall⟩]
        rfl
      · rw [if_pos hfull, if_neg (mt hzero.mp hsmall), if_neg (not_and_of_not_right _ hsmall)]
        rfl
    · rw [if_neg hfull, if_neg (not_and_of_not_left _ hfull)]
  · rw [List.length_append, WalEntryHeader.length_serialize]

end WalWriter

/-! ## Entries that end beyond a size -/

section Beyond

variable {W : Type*} [DecidableEq W]

/-- How many entries of a writer end beyond a size, in a file that begins at a position: the
entries are given by their writers and lengths. -/
def beyond (w : W) (size : Nat) : Nat → List (W × Nat) → Nat
  | _, [] => 0
  | start, (w', n) :: rest =>
      (if w' = w ∧ size < start + n then 1 else 0) + beyond w size (start + n) rest

/-- The length of some entries. -/
def extent (entries : List (W × Nat)) : Nat := (entries.map Prod.snd).sum

/-- One entry more counts if it is the writer's own and ends beyond the size. -/
theorem beyond_concat (w : W) (size : Nat) (e : W × Nat) (entries : List (W × Nat)) (start : Nat) :
    beyond w size start (entries ++ [e]) = beyond w size start entries +
      if e.1 = w ∧ size < start + extent entries + e.2 then 1 else 0 := by
  induction entries generalizing start with
  | nil =>
      rw [List.nil_append, beyond, beyond, beyond, extent, List.map_nil, List.sum_nil]
      exact Nat.add_comm _ _
  | cons e' entries ih =>
      have hextent : extent (e' :: entries) = e'.2 + extent entries := by
        rw [extent, List.map_cons, List.sum_cons, extent]
      rw [List.cons_append, beyond, beyond, ih, hextent, ← Nat.add_assoc start, ← Nat.add_assoc]

omit [DecidableEq W] in
/-- It makes the file longer by its length. -/
theorem extent_concat (e : W × Nat) (entries : List (W × Nat)) :
    extent (entries ++ [e]) = extent entries + e.2 := by
  rw [extent, List.map_append, List.sum_append, List.map_singleton, List.sum_singleton, extent]

/-- No entry of the only writer ends beyond a size exactly if all of them fit in it. -/
theorem beyond_eq_zero_iff {w : W} {entries : List (W × Nat)} (hw : ∀ e ∈ entries, e.1 = w)
    (size : Nat) : beyond w size 0 entries = 0 ↔ extent entries ≤ size := by
  induction entries using List.reverseRecOn with
  | nil => exact iff_of_true rfl (Nat.zero_le size)
  | append_singleton entries e ih =>
      have hrest := ih fun e' he' => hw e' (List.mem_append_left _ he')
      have hlast : e.1 = w := hw e (List.mem_append_right _ (List.mem_singleton_self e))
      rw [beyond_concat, extent_concat, Nat.zero_add, Nat.add_eq_zero_iff, hrest]
      split_ifs with h
      · exact iff_of_false (fun hboth => absurd hboth.2 (by decide)) (by omega)
      · have hfits : ¬ size < extent entries + e.2 := fun hlt => h ⟨hlast, hlt⟩
        exact iff_of_true ⟨by omega, rfl⟩ (by omega)

/-- **At most one entry of the only writer ends beyond a size** exactly if all but the last
fit in it. -/
theorem beyond_le_one_iff {w : W} {entries : List (W × Nat)} (hw : ∀ e ∈ entries, e.1 = w)
    (size : Nat) : beyond w size 0 entries ≤ 1 ↔ extent entries.dropLast ≤ size := by
  rcases entries.eq_nil_or_concat' with rfl | ⟨before, e, rfl⟩
  · exact iff_of_true (Nat.zero_le 1) (Nat.zero_le size)
  · have hrest := beyond_eq_zero_iff (fun e' he' => hw e' (List.mem_append_left _ he')) size
    have hlast : e.1 = w := hw e (List.mem_append_right _ (List.mem_singleton_self e))
    rw [beyond_concat, List.dropLast_concat, Nat.zero_add]
    split_ifs with h
    · omega
    · have hfits : ¬ size < extent before + e.2 := fun hlt => h ⟨hlast, hlt⟩
      exact iff_of_true (by omega) (by omega)

/-- Another writer has no entries. -/
theorem beyond_eq_zero_of_other {w : W} {entries : List (W × Nat)}
    (hw : ∀ e ∈ entries, e.1 ≠ w) (size start : Nat) : beyond w size start entries = 0 := by
  induction entries generalizing start with
  | nil => rfl
  | cons e entries ih =>
      obtain ⟨hhead, hrest⟩ := List.forall_mem_cons.mp hw
      rw [beyond, if_neg fun h => hhead h.1, ih hrest]

end Beyond

/-! ## Some writers -/

section Writers

variable {W : Type*} [DecidableEq W]

/-- What a writer has written. -/
structure Written (W : Type*) where
  writer : W
  bytes : List UInt8

/-- The writer of an entry, and its length. -/
def Written.entry (written : Written W) : W × Nat := (written.writer, written.bytes.length)

/-- The files, and the writers with the directories that were created for them. -/
structure World (W : Type*) where
  files : Path → List (Written W)
  directories : W → Path
  writers : W → WalWriter

/-- A call of `append`. -/
structure AppendCall (W : Type*) where
  writer : W
  data : Payload
  timestampNs : Nat

/-- The length of the entry. -/
def AppendCall.size (call : AppendCall W) : Nat := WalEntryHeader.size + call.data.bytes.length

/-- The writer of the entry, and its length. -/
def AppendCall.entry (call : AppendCall W) : W × Nat := (call.writer, call.size)

namespace World

/-- The writers have been created, each with its base path and segment size. -/
def start (basePath : W → Path) (segmentSize : W → Nat) : World W where
  files := fun _ => []
  directories := fun w => (WalWriter.new (basePath w) (segmentSize w)).1
  writers := fun w => (WalWriter.new (basePath w) (segmentSize w)).2

/-- A call of `append`, or an abort. -/
def append (world : World W) (call : AppendCall W) : Option (World W) :=
  ((world.writers call.writer).append call.data call.timestampNs).map fun appended =>
    { world with
      writers := Function.update world.writers call.writer appended.writer
      files :=
        match appended.output with
        | none => world.files
        | some (path, bytes) =>
            Function.update world.files path (world.files path ++ [⟨call.writer, bytes⟩]) }

/-- **The logs are kept apart**: no call aborts, at most one entry of a file ends beyond the
segment size of its writer, and writers with different base paths write to different files. -/
def Separate (basePath : W → Path) (segmentSize : W → Nat) (calls : List (AppendCall W)) : Prop :=
  ∃ world, run append (start basePath segmentSize) calls = some world ∧
    (∀ path w, beyond w (segmentSize w) 0 ((world.files path).map Written.entry) ≤ 1) ∧
    ∀ path, ∀ x ∈ world.files path, ∀ y ∈ world.files path, x.writer ≠ y.writer →
      basePath x.writer = basePath y.writer

/-- The entries that a writer appends. -/
def own (w : W) (calls : List (AppendCall W)) : List (W × Nat) :=
  (calls.filter fun call => call.writer = w).map AppendCall.entry

/-- The first segment, which all writers open. -/
def firstSegment : Path := [".", segmentName 0]

/-- **The world after some calls**: the entries are all in the first segment, and the offset of
each writer is the length of its own ones. -/
structure After (segmentSize : W → Nat) (calls : List (AppendCall W)) (world : World W) :
    Prop where
  /-- Every writer goes on. -/
  active : ∀ w, (world.writers w).active = true
  /-- All of them write to the first segment. -/
  file : ∀ w, (world.writers w).file = some firstSegment
  size : ∀ w, (world.writers w).segmentSize = segmentSize w
  /-- The position is counted in 64 bits. -/
  offset : ∀ w, (world.writers w).writeOffset = extent (own w calls) % 2 ^ 64
  /-- The first segment has the entries of all calls, -/
  entries : (world.files firstSegment).map Written.entry = calls.map AppendCall.entry
  /-- and there is no other file. -/
  others : ∀ path, path ≠ firstSegment → world.files path = []

/-- Before the first call the first segment is open and empty. -/
theorem after_start (basePath : W → Path) (segmentSize : W → Nat) :
    After segmentSize [] (start basePath segmentSize) :=
  ⟨fun _ => rfl, fun _ => rfl, fun _ => rfl, fun _ => rfl, rfl, fun _ _ => rfl⟩

/-- A call adds to the entries of its own writer, -/
theorem own_concat_self (calls : List (AppendCall W)) (call : AppendCall W) :
    own call.writer (calls ++ [call]) = own call.writer calls ++ [call.entry] := by
  rw [own, List.filter_append, List.filter_singleton, decide_eq_true rfl, List.map_append]
  rfl

/-- and to those of no other one. -/
theorem own_concat_of_ne {w : W} {call : AppendCall W} (h : w ≠ call.writer)
    (calls : List (AppendCall W)) : own w (calls ++ [call]) = own w calls := by
  rw [own, List.filter_append, List.filter_singleton, decide_eq_false h.symm, cond_false,
    List.append_nil, own]

/-- **A call** aborts if its writer reaches its size and that is below 100; else it adds its
entry. -/
theorem append_after {segmentSize : W → Nat} {calls : List (AppendCall W)} {world : World W}
    (h : After segmentSize calls world) (call : AppendCall W) :
    ∃ world', world.append call =
        (if (extent (own call.writer calls) + call.size) % 2 ^ 64 ≥ segmentSize call.writer ∧
          segmentSize call.writer < 100 then none else some world') ∧
      After segmentSize (calls ++ [call]) world' := by
  obtain ⟨w', bytes, happend, hactive, hfile, hsize, hoffset, hlength⟩ :=
    WalWriter.append_of_open (h.active call.writer) (h.file call.writer) call.data call.timestampNs
  rw [h.offset, h.size, Nat.mod_add_mod] at happend
  rw [h.offset, Nat.mod_add_mod] at hoffset
  let world' : World W :=
    { world with
      writers := Function.update world.writers call.writer w'
      files := Function.update world.files firstSegment
        (world.files firstSegment ++ [⟨call.writer, bytes⟩]) }
  have hwriter : ∀ w, world'.writers w = if w = call.writer then w' else world.writers w :=
    fun w => Function.update_apply _ _ _ _
  -- one writer moves on, and only the first segment is written
  refine ⟨world', ?_, fun w => ?_, fun w => ?_, fun w => ?_, fun w => ?_, ?_, fun path hpath => ?_⟩
  · have hsame : call.size = WalEntryHeader.size + call.data.bytes.length := rfl
    rw [append, happend, hsame]
    split <;> rfl
  · rw [hwriter]
    split_ifs
    · exact hactive
    · exact h.active w
  · rw [hwriter]
    split_ifs
    · exact hfile
    · exact h.file w
  · rw [hwriter]
    split_ifs with hw
    · rw [hsize, hw, h.size]
    · exact h.size w
  · rw [hwriter]
    split_ifs with hw
    · rw [hoffset, hw, own_concat_self, extent_concat]
      rfl
    · rw [own_concat_of_ne hw, h.offset]
  · have hfirst : world'.files firstSegment =
        world.files firstSegment ++ [⟨call.writer, bytes⟩] := by
      simp only [world', Function.update_self]
    rw [hfirst, List.map_append, h.entries, List.map_append, List.map_singleton,
      List.map_singleton, Written.entry, hlength]
    rfl
  · exact (Function.update_of_ne hpath _ _).trans (h.others path hpath)

/-- No call aborts: every writer has a size of at least 100, or does not reach it. -/
def Returns (segmentSize : W → Nat) (calls : List (AppendCall W)) : Prop :=
  ∀ w, 100 ≤ segmentSize w ∨ extent (own w calls) < segmentSize w

/-- The last call of a run returns if its writer has a large size or does not reach it. -/
theorem returns_concat_iff {segmentSize : W → Nat} (calls : List (AppendCall W))
    (call : AppendCall W) :
    Returns segmentSize (calls ++ [call]) ↔ Returns segmentSize calls ∧
      (100 ≤ segmentSize call.writer ∨
        extent (own call.writer calls) + call.size < segmentSize call.writer) := by
  have hown : extent (own call.writer (calls ++ [call])) =
      extent (own call.writer calls) + call.size := by
    rw [own_concat_self, extent_concat]
    rfl
  constructor
  · intro h
    refine ⟨fun w => ?_, hown ▸ h call.writer⟩
    by_cases hw : w = call.writer
    · subst hw
      exact (h call.writer).imp_right fun hlt => (Nat.le_add_right _ _).trans_lt (hown ▸ hlt)
    · exact own_concat_of_ne hw calls ▸ h w
  · rintro ⟨h, hlast⟩ w
    by_cases hw : w = call.writer
    · rw [hw, hown]
      exact hlast
    · rw [own_concat_of_ne hw]
      exact h w

/-- Before a size below 100 is reached, the offset has not gone round. -/
theorem aborts_iff {segmentSize : W → Nat} {calls : List (AppendCall W)} {call : AppendCall W}
    (h : Returns segmentSize calls) :
    ((extent (own call.writer calls) + call.size) % 2 ^ 64 ≥ segmentSize call.writer ∧
        segmentSize call.writer < 100) ↔
      ¬ (100 ≤ segmentSize call.writer ∨
        extent (own call.writer calls) + call.size < segmentSize call.writer) := by
  rw [not_or, not_le, not_lt, and_comm]
  refine and_congr_right fun hsmall => ?_
  have hlt := (h call.writer).resolve_left (not_le.mpr hsmall)
  have hbound := call.data.bound
  have hcall : call.size = 32 + call.data.bytes.length := rfl
  have hnowrap : (extent (own call.writer calls) + call.size) % 2 ^ 64 =
      extent (own call.writer calls) + call.size := Nat.mod_eq_of_lt (by omega)
  rw [hnowrap]

/-- **A run** returns exactly then; by induction on the calls from the last one on. -/
theorem run_after (basePath : W → Path) {segmentSize : W → Nat} (hsize : ∀ w, 1 ≤ segmentSize w)
    (calls : List (AppendCall W)) :
    (run append (start basePath segmentSize) calls = none ∧ ¬ Returns segmentSize calls) ∨
      ∃ world, run append (start basePath segmentSize) calls = some world ∧
        After segmentSize calls world ∧ Returns segmentSize calls := by
  induction calls using List.reverseRecOn with
  | nil => exact .inr ⟨_, rfl, after_start basePath segmentSize, fun w => .inr (hsize w)⟩
  | append_singleton calls call ih =>
      rw [run_concat, returns_concat_iff]
      rcases ih with ⟨hnone, hnot⟩ | ⟨world, hrun, hafter, hreturns⟩
      · rw [hnone]
        exact .inl ⟨rfl, fun h => hnot h.1⟩
      · obtain ⟨world', happend, hafter'⟩ := append_after hafter call
        rw [hrun, Option.bind_some, happend]
        split_ifs with habort
        · exact .inl ⟨rfl, fun h => (aborts_iff hreturns).mp habort h.2⟩
        · have hlast := not_not.mp (mt (aborts_iff hreturns).mpr habort)
          exact .inr ⟨world', rfl, hafter', hreturns, hlast⟩

/-- All calls are of one writer. -/
def OneWriter (calls : List (AppendCall W)) : Prop :=
  ∀ c ∈ calls, ∀ c' ∈ calls, c.writer = c'.writer

/-- The entries of a writer end beyond a size as they would alone, if there is no other one. -/
theorem beyond_of_oneWriter {calls : List (AppendCall W)} (h : OneWriter calls) (w : W)
    (size : Nat) : beyond w size 0 (calls.map AppendCall.entry) ≤ 1 ↔
      extent (own w calls).dropLast ≤ size := by
  by_cases hw : ∃ c ∈ calls, c.writer = w
  · obtain ⟨c, hc, rfl⟩ := hw
    have hall : ∀ c' ∈ calls, c'.writer = c.writer := fun c' hc' => h c' hc' c hc
    have hown : own c.writer calls = calls.map AppendCall.entry := by
      rw [own, List.filter_eq_self.mpr fun c' hc' => decide_eq_true (hall c' hc')]
    rw [hown]
    refine beyond_le_one_iff (fun e he => ?_) size
    obtain ⟨c', hc', rfl⟩ := List.mem_map.mp he
    exact hall c' hc'
  · have hnone : own w calls = [] := by
      rw [own, List.filter_eq_nil_iff.mpr fun c hc hcw => hw ⟨c, hc, of_decide_eq_true hcw⟩,
        List.map_nil]
    have hzero : beyond w size 0 (calls.map AppendCall.entry) = 0 :=
      beyond_eq_zero_of_other (fun e he hew => by
        obtain ⟨c, hc, rfl⟩ := List.mem_map.mp he
        exact hw ⟨c, hc, hew⟩) size 0
    rw [hnone, hzero]
    exact iff_of_true (Nat.zero_le 1) (Nat.zero_le size)

/-- No file has entries of two writers exactly if there is only one. -/
theorem oneWriter_iff {segmentSize : W → Nat} {calls : List (AppendCall W)} {world : World W}
    (h : After segmentSize calls world) :
    (∀ path, ∀ x ∈ world.files path, ∀ y ∈ world.files path, x.writer = y.writer) ↔
      OneWriter calls := by
  have hwriters : (world.files firstSegment).map Written.writer =
      calls.map AppendCall.writer := by
    have hfst := congrArg (List.map Prod.fst) h.entries
    rwa [List.map_map, List.map_map] at hfst
  constructor
  · intro hall c hc c' hc'
    obtain ⟨x, hx, hxc⟩ := List.mem_map.mp (hwriters ▸ List.mem_map_of_mem hc)
    obtain ⟨y, hy, hyc⟩ := List.mem_map.mp (hwriters ▸ List.mem_map_of_mem hc')
    rw [← hxc, ← hyc]
    exact hall firstSegment x hx y hy
  · intro hone path x hx y hy
    by_cases hpath : path = firstSegment
    · subst hpath
      obtain ⟨c, hc, hcx⟩ := List.mem_map.mp (hwriters ▸ List.mem_map_of_mem hx)
      obtain ⟨c', hc', hcy⟩ := List.mem_map.mp (hwriters ▸ List.mem_map_of_mem hy)
      rw [← hcx, ← hcy]
      exact hone c hc c' hc'
    · rw [h.others path hpath] at hx
      exact absurd hx nofun

/-- **The logs are kept apart** exactly if one writer makes all the calls, all its entries but
the last fit in its segment size, and that is at least 100 or is not reached. -/
theorem separate_iff {basePath : W → Path} (hbase : Function.Injective basePath)
    {segmentSize : W → Nat} (hsize : ∀ w, 1 ≤ segmentSize w) (calls : List (AppendCall W)) :
    Separate basePath segmentSize calls ↔ OneWriter calls ∧
      (∀ w, extent (own w calls).dropLast ≤ segmentSize w) ∧ Returns segmentSize calls := by
  rcases run_after basePath hsize calls with ⟨hnone, hnot⟩ | ⟨world, hrun, hafter, hreturns⟩
  · refine iff_of_false ?_ fun h => hnot h.2.2
    rintro ⟨world, hrun, -⟩
    exact absurd (hrun.symm.trans hnone) nofun
  · have hmix : (∀ path, ∀ x ∈ world.files path, ∀ y ∈ world.files path,
        x.writer ≠ y.writer → basePath x.writer = basePath y.writer) ↔ OneWriter calls := by
      refine Iff.trans ?_ (oneWriter_iff hafter)
      refine forall_congr' fun path => forall₂_congr fun x _ => forall₂_congr fun y _ => ?_
      exact ⟨fun hxy => by_contra fun hne => hne (hbase (hxy hne)), fun heq hne => absurd heq hne⟩
    have hbeyond : OneWriter calls →
        ((∀ path w, beyond w (segmentSize w) 0 ((world.files path).map Written.entry) ≤ 1) ↔
          ∀ w, extent (own w calls).dropLast ≤ segmentSize w) := by
      intro hone
      constructor
      · intro h w
        exact (beyond_of_oneWriter hone w _).mp (hafter.entries ▸ h firstSegment w)
      · intro h path w
        by_cases hpath : path = firstSegment
        · rw [hpath, hafter.entries]
          exact (beyond_of_oneWriter hone w _).mpr (h w)
        · rw [hafter.others path hpath]
          exact Nat.zero_le 1
    constructor
    · rintro ⟨world', hrun', hle, hapart⟩
      obtain rfl : world' = world := Option.some.inj (hrun'.symm.trans hrun)
      have hone := hmix.mp hapart
      exact ⟨hone, (hbeyond hone).mp hle, hreturns⟩
    · rintro ⟨hone, hle, -⟩
      exact ⟨world, hrun, (hbeyond hone).mpr hle, hmix.mpr hone⟩

/-- An entry without data. -/
def emptyCall (w : W) : AppendCall W := ⟨w, ⟨[], Nat.two_pow_pos 63⟩, 0⟩

/-- Two entries of one writer, in a segment of a hundred bytes. -/
theorem separate_iff_twoEntries :
    Separate (fun w : Bool => [if w then "a" else "b"]) (fun _ => 100)
        [emptyCall true, emptyCall true] ↔
      OneWriter [emptyCall true, emptyCall true] ∧
        (∀ w, extent (own w [emptyCall true, emptyCall true]).dropLast ≤ 100) ∧
          Returns (fun _ : Bool => 100) [emptyCall true, emptyCall true] :=
  separate_iff (by decide) (fun _ => by decide) _

/-- An entry of each of two writers. -/
theorem not_forall_separate :
    ¬ ∀ (basePath : Bool → Path) (segmentSize : Bool → Nat), Function.Injective basePath →
      (∀ w, 1 ≤ segmentSize w) → ∀ calls, Separate basePath segmentSize calls := by
  intro h
  let basePath := fun w : Bool => [if w then "a" else "b"]
  have hbase : Function.Injective basePath := by decide
  have hsize : ∀ w : Bool, 1 ≤ (fun _ => 100) w := by decide
  obtain ⟨world, hrun, -, hapart⟩ :=
    h basePath (fun _ => 100) hbase hsize [emptyCall true, emptyCall false]
  rcases run_after basePath hsize [emptyCall true, emptyCall false] with
    ⟨hnone, -⟩ | ⟨world', hrun', hafter, -⟩
  · exact absurd (hrun.symm.trans hnone) nofun
  · obtain rfl : world = world' := Option.some.inj (hrun.symm.trans hrun')
    have hone := (oneWriter_iff hafter).mp fun path x hx y hy =>
      by_contra fun hne => hne (hbase (hapart path x hx y hy hne))
    exact absurd (hone (emptyCall true) List.mem_cons_self (emptyCall false) (by simp)) nofun

end World

end Writers

end StopTrading.Persistence
