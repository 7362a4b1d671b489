import StopTrading.Library.ByteFile
import StopTrading.Library.FoldedChecksum

/-!
# The write-ahead log

A record of the log is a header of 32 bytes and a payload.  The header is written as it
lies in memory: the fields at the offsets `repr(C)` gives them, in little-endian bytes, and
seven bytes of padding that may be anything.  Its checksum is that of the payload.

* `WALWriter.append`, `WALReader.readNext` — the calls; `readAll` is the loop of a reader
  until the end of the file or an error.
* `decodeEntry` — what a reader makes of the bytes from its position on; `Decodes` is a whole
  loop, seen from these bytes (`readAll_of_decodes`).
* `file_appendAll` — the file a sequence of appended records leaves.

### Design decisions

The seven bytes of padding come from memory and are written, and the source does not set them.
They are an argument of a call (`Padding`), so that nothing can depend on them, and a file is not
determined by its records.

`write_all` may fail after some of the bytes have been written.  What the operating system
answers is an argument of the call too, with the number of bytes that were written before an
error.

The number of rounds of `readAll` is bounded by the length of the file, since every entry that is
found takes at least a header; `Decodes` is the same loop as a relation, without a bound, and is
what the proofs about readers use.

### What is load-bearing

`decodeEntry` is `read_next` without a position.  A reader stands somewhere in a file, and what
it returns depends on the bytes from there on only; `readAll_of_decodes` says so once, and whole
files are then put together from records with `Decodes.cons`.
-/

namespace StopTrading.Store

open ByteFile Checksum

/-! ## Headers -/

/-- `crc32_fast`. -/
def crc32Fast (data : List UInt8) : BitVec 32 :=
  ~~~(data.foldl (byteStep 0xEDB88320#32) 0xFFFFFFFF#32)

/-- `WALEntryType`. -/
inductive WALEntryType where
  | marketData
  | orderSubmitted
  | orderFilled
  | orderCancelled
  | orderModified
  | stateSnapshot
  | heartbeat
  | custom
  deriving Repr, DecidableEq

/-- `entry_type as u8`. -/
def WALEntryType.toU8 : WALEntryType → UInt8
  | marketData => 0
  | orderSubmitted => 1
  | orderFilled => 2
  | orderCancelled => 3
  | orderModified => 4
  | stateSnapshot => 5
  | heartbeat => 6
  | custom => 255

/-- `From<u8> for WALEntryType`. -/
def WALEntryType.ofU8 (value : UInt8) : WALEntryType :=
  if value = 0 then marketData
  else if value = 1 then orderSubmitted
  else if value = 2 then orderFilled
  else if value = 3 then orderCancelled
  else if value = 4 then orderModified
  else if value = 5 then stateSnapshot
  else if value = 6 then heartbeat
  else custom

/-- A type is read as it was written. -/
theorem WALEntryType.ofU8_toU8 (t : WALEntryType) : ofU8 t.toU8 = t := by
  cases t <;> decide

/-- `WALEntryHeader`. -/
structure WALEntryHeader where
  entryType : UInt8
  length : Nat
  sequence : Nat
  timestampNs : Nat
  checksum : BitVec 32
  deriving Repr, DecidableEq

/-- The bytes between and behind the fields of a header. -/
structure Padding where
  p1 : UInt8
  p2 : UInt8
  p3 : UInt8
  q1 : UInt8
  q2 : UInt8
  q3 : UInt8
  q4 : UInt8
  deriving Repr, DecidableEq

namespace WALEntryHeader

/-- `SIZE`. -/
def size : Nat := 32

/-- `new`. -/
def new (entryType : UInt8) (length sequence timestampNs : Nat) : WALEntryHeader :=
  ⟨entryType, length, sequence, timestampNs, 0#32⟩

/-- `calculate_checksum`. -/
def calculateChecksum (h : WALEntryHeader) (data : List UInt8) : WALEntryHeader :=
  { h with checksum := crc32Fast data }

/-- `verify_checksum`. -/
def verifyChecksum (h : WALEntryHeader) (data : List UInt8) : Bool := crc32Fast data = h.checksum

/-- The bytes of a header in memory. -/
def toBytes (h : WALEntryHeader) (p : Padding) : List UInt8 :=
  [h.entryType, p.p1, p.p2, p.p3] ++ toLE 4 h.length ++ toLE 8 h.sequence ++
    toLE 8 h.timestampNs ++ toLE 4 h.checksum.toNat ++ [p.q1, p.q2, p.q3, p.q4]

/-- The header that lies in some bytes. -/
def ofBytes (bytes : List UInt8) : WALEntryHeader where
  entryType := bytes.headD 0
  length := ofLE (window bytes 4 4)
  sequence := ofLE (window bytes 8 8)
  timestampNs := ofLE (window bytes 16 8)
  checksum := BitVec.ofNat 32 (ofLE (window bytes 24 4))

/-- The fields fit in their bytes. -/
structure Fits (h : WALEntryHeader) : Prop where
  /-- in four bytes -/
  length : h.length < 2 ^ 32
  /-- in eight -/
  sequence : h.sequence < 2 ^ 64
  /-- and in eight -/
  timestampNs : h.timestampNs < 2 ^ 64

/-- A header has 32 bytes. -/
@[simp]
theorem length_toBytes (h : WALEntryHeader) (p : Padding) : (h.toBytes p).length = size := rfl

/-- **A header is read as it was written.** -/
theorem ofBytes_toBytes {h : WALEntryHeader} (hfits : h.Fits) (p : Padding) :
    ofBytes (h.toBytes p) = h := by
  have hlength : ofLE (toLE 4 h.length) = h.length := ofLE_toLE_of_lt hfits.length
  have hsequence : ofLE (toLE 8 h.sequence) = h.sequence := ofLE_toLE_of_lt hfits.sequence
  have htimestamp : ofLE (toLE 8 h.timestampNs) = h.timestampNs :=
    ofLE_toLE_of_lt hfits.timestampNs
  have hchecksum : ofLE (toLE 4 h.checksum.toNat) = h.checksum.toNat :=
    ofLE_toLE_of_lt h.checksum.isLt
  have hbytes : ofBytes (h.toBytes p) =
      ⟨h.entryType, ofLE (toLE 4 h.length), ofLE (toLE 8 h.sequence),
        ofLE (toLE 8 h.timestampNs), BitVec.ofNat 32 (ofLE (toLE 4 h.checksum.toNat))⟩ := rfl
  rw [hbytes, hlength, hsequence, htimestamp, hchecksum, BitVec.ofNat_toNat, BitVec.setWidth_eq]

end WALEntryHeader

/-! ## Files and errors -/

/-- `io::ErrorKind`, as far as the log uses it. -/
inductive ErrorKind where
  | unexpectedEof
  | invalidData
  | fileTooLarge
  | other
  deriving Repr, DecidableEq

/-- `io::Error`. -/
structure IoError where
  kind : ErrorKind
  message : String
  deriving Repr, DecidableEq

/-- A file: no position in it is above the largest `off_t`. -/
abbrev File := { bytes : List UInt8 // bytes.length < 2 ^ 63 }

/-- The empty file. -/
def File.empty : File := ⟨[], by decide⟩

/-- The first bytes of a file. -/
def File.truncate (file : File) (cut : Nat) : File :=
  ⟨file.1.take cut, lt_of_le_of_lt (List.length_take_le' cut file.1) file.2⟩

/-- `write_all` at the end of a file.  `answer` is an error of the operating system and the
number of bytes written before it. -/
def File.writeAll (file : File) (data : List UInt8) (answer : Option (IoError × Nat)) :
    Option IoError × File :=
  match answer with
  | some (e, n) =>
      if h : (file.1 ++ data.take n).length < 2 ^ 63 then (some e, ⟨file.1 ++ data.take n, h⟩)
      else (some e, file)
  | none =>
      if h : (file.1 ++ data).length < 2 ^ 63 then (none, ⟨file.1 ++ data, h⟩)
      else (some ⟨.fileTooLarge, "File too large"⟩, file)

/-! ## The writer -/

/-- `WALWriter`, without the buffer size nothing reads. -/
structure WALWriter where
  file : File
  writePos : Nat
  sequence : Nat
  isActive : Bool
  pendingBytes : Nat
  syncInterval : Nat

/-- A call of `append`: its arguments, the clock, the padding that lies in memory, and the
answers of the operating system. -/
structure AppendCall where
  entryType : WALEntryType
  data : List UInt8
  nowNs : UInt64
  padding : Padding
  writeHeader : Option (IoError × Nat)
  writeData : Option (IoError × Nat)
  syncData : Option IoError
  deriving Repr, DecidableEq

/-- The header of a record. -/
def AppendCall.header (c : AppendCall) (sequence : Nat) : WALEntryHeader :=
  (WALEntryHeader.new c.entryType.toU8 (c.data.length % 2 ^ 32) sequence c.nowNs.toNat)
    |>.calculateChecksum c.data

namespace WALWriter

/-- `new` on an empty file. -/
def new (syncInterval : Nat) : WALWriter := ⟨.empty, 0, 0, true, 0, syncInterval⟩

/-- `append`. -/
def append (w : WALWriter) (c : AppendCall) : Except IoError Nat × WALWriter :=
  if w.isActive = false then (.error ⟨.other, "WAL is not active"⟩, w)
  else
    let sequence := w.sequence
    let w := { w with sequence := (w.sequence + 1) % 2 ^ 64 }
    match w.file.writeAll ((c.header sequence).toBytes c.padding) c.writeHeader with
    | (some e, file) => (.error e, { w with file := file })
    | (none, file) =>
        match file.writeAll c.data c.writeData with
        | (some e, file) => (.error e, { w with file := file })
        | (none, file) =>
            let totalBytes := WALEntryHeader.size + c.data.length
            let w := { w with
              file := file
              writePos := (w.writePos + totalBytes) % 2 ^ 64
              pendingBytes := (w.pendingBytes + totalBytes) % 2 ^ 64 }
            if w.pendingBytes ≥ w.syncInterval then
              match c.syncData with
              | some e => (.error e, w)
              | none => (.ok sequence, { w with pendingBytes := 0 })
            else (.ok sequence, w)

/-- The writer after some calls that all succeed. -/
def appendAll : WALWriter → List AppendCall → Option WALWriter
  | w, [] => some w
  | w, c :: calls =>
      match w.append c with
      | (.ok _, w) => w.appendAll calls
      | (.error _, _) => none

end WALWriter

/-! ## The reader -/

/-- `WALEntry`. -/
structure WALEntry where
  header : WALEntryHeader
  data : List UInt8
  deriving Repr, DecidableEq

/-- `entry_type`. -/
def WALEntry.entryType (entry : WALEntry) : WALEntryType := .ofU8 entry.header.entryType

/-- What `read_next` makes of the bytes from its position on. -/
def decodeEntry (bytes : List UInt8) : Except IoError (Option WALEntry) :=
  let headerBuf := bytes.take WALEntryHeader.size
  if headerBuf.length = 0 then .ok none
  else if headerBuf.length < WALEntryHeader.size then
    .error ⟨.unexpectedEof, "Incomplete header"⟩
  else
    let header := WALEntryHeader.ofBytes headerBuf
    let behind := bytes.drop WALEntryHeader.size
    if behind.length < header.length then .error ⟨.unexpectedEof, "failed to fill whole buffer"⟩
    else
      let data := behind.take header.length
      if header.verifyChecksum data = false then .error ⟨.invalidData, "Checksum mismatch"⟩
      else .ok (some ⟨header, data⟩)

/-- `WALReader`. -/
structure WALReader where
  file : File
  readPos : Nat
  isActive : Bool

namespace WALReader

/-- `new`. -/
def new (file : File) : WALReader := ⟨file, 0, true⟩

/-- `read_next`. -/
def readNext (r : WALReader) : Except IoError (Option WALEntry) × WALReader :=
  if r.isActive = false then (.error ⟨.other, "WAL reader is not active"⟩, r)
  else
    match decodeEntry (r.file.1.drop r.readPos) with
    | .error e => (.error e, r)
    | .ok none => (.ok none, r)
    | .ok (some entry) =>
        (.ok (some entry),
          { r with
            readPos := (r.readPos + (WALEntryHeader.size + entry.header.length)) % 2 ^ 64 })

end WALReader

/-- **An entry that is found is there**: its header and its payload lie in the bytes. -/
theorem le_length_of_decodeEntry {bytes : List UInt8} {entry : WALEntry}
    (h : decodeEntry bytes = .ok (some entry)) :
    WALEntryHeader.size + entry.header.length ≤ bytes.length := by
  unfold decodeEntry at h
  dsimp only at h
  split_ifs at h with hempty hshort hbehind hchecksum
  · cases Except.ok.inj h
  obtain rfl : _ = entry := Option.some.inj (Except.ok.inj h)
  rw [List.length_take] at hshort
  rw [List.length_drop] at hbehind
  dsimp only
  omega

namespace WALReader

/-- A reader that has found an entry stands behind it. -/
theorem readNext_some {r r' : WALReader} {entry : WALEntry}
    (h : r.readNext = (.ok (some entry), r')) :
    r'.file = r.file ∧ r'.isActive = r.isActive ∧
      r'.readPos = r.readPos + (WALEntryHeader.size + entry.header.length) ∧
      r'.readPos ≤ r.file.1.length := by
  unfold readNext at h
  split at h
  · cases h
  · split at h
    · cases h
    · cases h
    · rename_i found hfound
      obtain ⟨hentry, hreader⟩ := Prod.mk.inj h
      obtain rfl : found = entry := Option.some.inj (Except.ok.inj hentry)
      have hlength := le_length_of_decodeEntry hfound
      have hbound := r.file.2
      rw [List.length_drop, WALEntryHeader.size] at hlength
      subst hreader
      refine ⟨rfl, rfl, ?_, ?_⟩
      · exact Nat.mod_eq_of_lt (by rw [WALEntryHeader.size]; omega)
      · refine (Nat.mod_le _ _).trans ?_
        rw [WALEntryHeader.size]
        omega

/-- A reader until the end of the file or an error: the entries, and the error if there is
one. -/
def readAll (r : WALReader) : List WALEntry × Option IoError :=
  match _h : r.readNext with
  | (.error e, _) => ([], some e)
  | (.ok none, _) => ([], none)
  | (.ok (some entry), r') => (entry :: (readAll r').1, (readAll r').2)
termination_by r.file.1.length - r.readPos
decreasing_by
  all_goals
    obtain ⟨hfile, -, hpos, hle⟩ := readNext_some _h
    rw [hfile]
    rw [WALEntryHeader.size] at hpos
    omega

/-- The loop after one call. -/
theorem readAll_of_readNext {r r' : WALReader} {answer : Except IoError (Option WALEntry)}
    (h : r.readNext = (answer, r')) :
    r.readAll =
      match answer with
      | .error e => ([], some e)
      | .ok none => ([], none)
      | .ok (some entry) => (entry :: r'.readAll.1, r'.readAll.2) := by
  rw [readAll]
  split
  all_goals
    rename_i heq
    obtain ⟨rfl, rfl⟩ := Prod.mk.inj (h.symm.trans heq)
    rfl

/-- `read_next` by what it makes of the bytes. -/
theorem readNext_eq {r : WALReader} {bytes : List UInt8} (hactive : r.isActive = true)
    (hbytes : r.file.1.drop r.readPos = bytes) :
    r.readNext =
      match decodeEntry bytes with
      | .error e => (.error e, r)
      | .ok none => (.ok none, r)
      | .ok (some entry) =>
          (.ok (some entry),
            { r with
              readPos := (r.readPos + (WALEntryHeader.size + entry.header.length)) % 2 ^ 64 }) := by
  subst hbytes
  exact if_neg (by simp [hactive])

end WALReader

/-- **A whole loop of a reader**, seen from the bytes it starts at. -/
inductive Decodes : List UInt8 → List WALEntry → Option IoError → Prop where
  | eof (bytes : List UInt8) (h : decodeEntry bytes = .ok none) : Decodes bytes [] none
  | failed (bytes : List UInt8) (e : IoError) (h : decodeEntry bytes = .error e) :
      Decodes bytes [] (some e)
  | entry (bytes : List UInt8) (entry : WALEntry) (entries : List WALEntry) (e : Option IoError)
      (h : decodeEntry bytes = .ok (some entry))
      (rest : Decodes (bytes.drop (WALEntryHeader.size + entry.header.length)) entries e) :
      Decodes bytes (entry :: entries) e

/-- **The loop of a reader is determined by the bytes from its position on.** -/
theorem readAll_of_decodes {bytes : List UInt8} {entries : List WALEntry} {e : Option IoError}
    (h : Decodes bytes entries e) :
    ∀ {r : WALReader}, r.isActive = true → r.file.1.drop r.readPos = bytes →
      r.readAll = (entries, e) := by
  induction h with
  | eof bytes h =>
      intro r hactive hbytes
      have hnext := WALReader.readNext_eq hactive hbytes
      rw [h] at hnext
      exact WALReader.readAll_of_readNext hnext
  | failed bytes e h =>
      intro r hactive hbytes
      have hnext := WALReader.readNext_eq hactive hbytes
      rw [h] at hnext
      exact WALReader.readAll_of_readNext hnext
  | entry bytes entry entries e h rest ih =>
      intro r hactive hbytes
      have hnext := WALReader.readNext_eq hactive hbytes
      rw [h] at hnext
      obtain ⟨-, -, hpos, -⟩ := WALReader.readNext_some hnext
      dsimp only at hpos hnext
      rw [hpos] at hnext
      have hrest : ({ r with
          readPos := r.readPos + (WALEntryHeader.size + entry.header.length) } :
          WALReader).readAll = (entries, e) := ih hactive (by rw [← hbytes, List.drop_drop])
      rw [WALReader.readAll_of_readNext hnext, hrest]

/-- Every loop ends. -/
theorem exists_decodes (bytes : List UInt8) : ∃ entries e, Decodes bytes entries e := by
  induction hn : bytes.length using Nat.strongRecOn generalizing bytes with
  | ind n ih =>
      cases h : decodeEntry bytes with
      | error e => exact ⟨[], some e, .failed bytes e h⟩
      | ok found =>
          cases found with
          | none => exact ⟨[], none, .eof bytes h⟩
          | some entry =>
              have hlength := le_length_of_decodeEntry h
              rw [WALEntryHeader.size] at hlength
              have hless : (bytes.drop (WALEntryHeader.size + entry.header.length)).length < n := by
                rw [List.length_drop, WALEntryHeader.size]
                omega
              obtain ⟨entries, e, hrest⟩ := ih _ hless _ rfl
              exact ⟨entry :: entries, e, .entry bytes entry entries e h hrest⟩

/-! ## What a record is read as -/

/-- The bytes of a record. -/
def AppendCall.bytes (c : AppendCall) (sequence : Nat) : List UInt8 :=
  (c.header sequence).toBytes c.padding ++ c.data

/-- The entry a record is read as. -/
def AppendCall.entry (c : AppendCall) (sequence : Nat) : WALEntry := ⟨c.header sequence, c.data⟩

/-- The bytes of records with consecutive numbers. -/
def logBytes : Nat → List AppendCall → List UInt8
  | _, [] => []
  | sequence, c :: calls => c.bytes sequence ++ logBytes (sequence + 1) calls

/-- The entries of records with consecutive numbers. -/
def logEntries : Nat → List AppendCall → List WALEntry
  | _, [] => []
  | sequence, c :: calls => c.entry sequence :: logEntries (sequence + 1) calls

/-- The length of a record. -/
def AppendCall.size (c : AppendCall) : Nat := WALEntryHeader.size + c.data.length

/-- The fields of a header that is written fit. -/
theorem header_fits (c : AppendCall) {sequence : Nat} (hsequence : sequence < 2 ^ 64) :
    (c.header sequence).Fits :=
  ⟨Nat.mod_lt _ (by decide), hsequence, c.nowNs.toNat_lt⟩

/-- A payload that is short enough has its length in the header. -/
theorem length_header {c : AppendCall} (hshort : c.data.length < 2 ^ 32) (sequence : Nat) :
    (c.header sequence).length = c.data.length :=
  Nat.mod_eq_of_lt hshort

/-- A record is a header and its payload. -/
theorem length_bytes (c : AppendCall) (sequence : Nat) : (c.bytes sequence).length = c.size := by
  rw [AppendCall.bytes, List.length_append, WALEntryHeader.length_toBytes, AppendCall.size]

/-- What `read_next` makes of a header and of what comes behind it. -/
theorem decodeEntry_append {bytes : List UInt8} {header : WALEntryHeader}
    (hsize : bytes.length = WALEntryHeader.size) (hheader : WALEntryHeader.ofBytes bytes = header)
    (behind : List UInt8) :
    decodeEntry (bytes ++ behind) =
      if behind.length < header.length then
        .error ⟨.unexpectedEof, "failed to fill whole buffer"⟩
      else if crc32Fast (behind.take header.length) ≠ header.checksum then
        .error ⟨.invalidData, "Checksum mismatch"⟩
      else .ok (some ⟨header, behind.take header.length⟩) := by
  subst hheader
  have htake : (bytes ++ behind).take WALEntryHeader.size = bytes := by
    rw [← hsize, List.take_left]
  have hdrop : (bytes ++ behind).drop WALEntryHeader.size = behind := by
    rw [← hsize, List.drop_left]
  unfold decodeEntry WALEntryHeader.verifyChecksum
  rw [htake, hdrop]
  dsimp only
  rw [if_neg (by rw [hsize]; decide), if_neg (by rw [hsize]; exact lt_irrefl _)]
  simp only [decide_eq_false_iff_not, ne_eq]

/-- A header that has the length and the checksum of the payload behind it. -/
theorem decodeEntry_of_framing {bytes data : List UInt8} {header : WALEntryHeader}
    (hsize : bytes.length = WALEntryHeader.size) (hheader : WALEntryHeader.ofBytes bytes = header)
    (hlength : header.length = data.length) (hchecksum : header.checksum = crc32Fast data)
    (rest : List UInt8) :
    decodeEntry (bytes ++ (data ++ rest)) = .ok (some ⟨header, data⟩) := by
  rw [decodeEntry_append hsize hheader, hlength, List.take_left, hchecksum, List.length_append,
    if_neg (by omega), if_neg (not_not.mpr rfl)]

/-- **A record is read as it was written**, whatever follows. -/
theorem decodeEntry_bytes {c : AppendCall} {sequence : Nat} (hshort : c.data.length < 2 ^ 32)
    (hsequence : sequence < 2 ^ 64) (rest : List UInt8) :
    decodeEntry (c.bytes sequence ++ rest) = .ok (some (c.entry sequence)) := by
  rw [AppendCall.bytes, List.append_assoc]
  exact decodeEntry_of_framing (WALEntryHeader.length_toBytes _ _)
    (WALEntryHeader.ofBytes_toBytes (header_fits c hsequence) _) (length_header hshort sequence)
    rfl rest

/-- A reader at a record returns it, and goes on behind it. -/
theorem Decodes.cons {c : AppendCall} {sequence : Nat} (hshort : c.data.length < 2 ^ 32)
    (hsequence : sequence < 2 ^ 64) {rest : List UInt8} {entries : List WALEntry}
    {e : Option IoError} (h : Decodes rest entries e) :
    Decodes (c.bytes sequence ++ rest) (c.entry sequence :: entries) e := by
  have hlength : (c.entry sequence).header.length = c.data.length := length_header hshort sequence
  have hdrop : (c.bytes sequence ++ rest).drop
      (WALEntryHeader.size + (c.entry sequence).header.length) = rest := by
    rw [hlength, ← AppendCall.size, ← length_bytes c sequence, List.drop_left]
  exact .entry _ (c.entry sequence) _ e (decodeEntry_bytes hshort hsequence _) (hdrop.symm ▸ h)

/-! ## The file of some records -/

/-- A write that succeeds appends. -/
theorem writeAll_ok {file file' : File} {data : List UInt8} {answer : Option (IoError × Nat)}
    (h : file.writeAll data answer = (none, file')) : file'.1 = file.1 ++ data := by
  unfold File.writeAll at h
  cases answer with
  | some answer =>
      dsimp only at h
      split at h <;> cases (Prod.mk.inj h).1
  | none =>
      dsimp only at h
      split at h
      · exact congrArg Subtype.val (Prod.mk.inj h).2.symm
      · cases (Prod.mk.inj h).1

/-- An append that succeeds writes its record. -/
theorem append_ok {w w' : WALWriter} {c : AppendCall} {sequence : Nat}
    (h : w.append c = (.ok sequence, w')) :
    w'.file.1 = w.file.1 ++ c.bytes w.sequence ∧ w'.sequence = (w.sequence + 1) % 2 ^ 64 := by
  unfold WALWriter.append at h
  split at h
  · cases h
  · dsimp only at h
    split at h
    · cases h
    · rename_i file hheader
      have hfile := writeAll_ok hheader
      split at h
      · cases h
      · rename_i file' hdata
        have hfile' := writeAll_ok hdata
        have hbytes : file'.1 = w.file.1 ++ c.bytes w.sequence := by
          rw [hfile', hfile, AppendCall.bytes, List.append_assoc]
        split at h
        · split at h
          · cases h
          · obtain rfl := (Prod.mk.inj h).2
            exact ⟨hbytes, rfl⟩
        · obtain rfl := (Prod.mk.inj h).2
          exact ⟨hbytes, rfl⟩

/-- **The file that appended records leave.**  A record has at least 32 bytes, so the number
of the next one stays within its 64 bits. -/
theorem file_appendAll : ∀ {calls : List AppendCall} {w w' : WALWriter},
    32 * w.sequence ≤ w.file.1.length → w.appendAll calls = some w' →
      w'.file.1 = w.file.1 ++ logBytes w.sequence calls := by
  intro calls
  induction calls with
  | nil =>
      intro w w' _ h
      obtain rfl : w = w' := Option.some.inj h
      rw [logBytes, List.append_nil]
  | cons c calls ih =>
      intro w w' hcount h
      rw [WALWriter.appendAll] at h
      split at h
      · rename_i sequence next happend
        obtain ⟨hfile, hsequence⟩ := append_ok happend
        have hbound := next.file.2
        have hlength : next.file.1.length = w.file.1.length + c.size := by
          rw [hfile, List.length_append, length_bytes]
        rw [AppendCall.size, WALEntryHeader.size] at hlength
        have hnext : next.sequence = w.sequence + 1 := by
          rw [hsequence]
          exact Nat.mod_eq_of_lt (by omega)
        rw [ih (by omega) h, hfile, hnext, logBytes, List.append_assoc]
      · cases h

/-- The file of records appended to a new writer. -/
theorem file_appendAll_new {syncInterval : Nat} {calls : List AppendCall} {w : WALWriter}
    (h : (WALWriter.new syncInterval).appendAll calls = some w) :
    w.file.1 = logBytes 0 calls :=
  (file_appendAll (Nat.zero_le _) h).trans (List.nil_append _)

end StopTrading.Store
