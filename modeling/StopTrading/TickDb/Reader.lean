import StopTrading.TickDb.Writer
import StopTrading.Library.Transition

/-!
# Reading the tick store back

`TickDbReader` iterates from the header to the end of the file, as long as there is room for
two records.  So it returns what the file holds but for the last record
(`TickIterator.toList_records`), and the file of a writer holds the ticks that were accepted
and, up to its capacity, records of zeros (`Layout`).  The accepted ticks come back if and
only if exactly one record of the capacity was left free (`readsBack_iff`).

### What is load-bearing

The reader never looks at the count in the header; it goes on while there are two records' worth
of bytes left.  What it returns is therefore decided by the length of the file, and the length is
the capacity of the writer, however many ticks were written.  `Layout` puts the three together:
header, ticks and zeros make up the capacity.

Zeros are a record (`replicate_zero_eq`), so the tail of the file reads as blank ticks, and the
whole question is one about lists: when are the ticks followed by blanks, without the last one,
just the ticks (`dropLast_append_replicate_eq_iff`).

### Design decisions

A run of a writer is a run of accepted calls.  What a refused call does to the file is nothing,
and is proved about the writer.
-/

namespace StopTrading.TickDb

open ByteFile Transition

/-! ## The reader -/

/-- `TickIterator`. -/
structure TickIterator where
  mmap : List UInt8
  currentPos : Nat
  endPos : Nat

namespace TickIterator

section Loop

variable [Bincode]

/-- `next`. -/
def next (it : TickIterator) : Option (Except TickDbError StoredTick × TickIterator) :=
  if it.endPos ≤ it.currentPos then none
  else if it.endPos - it.currentPos < StoredTick.serializeSize * 2 then none
  else
    (StoredTick.deserialize (it.mmap.drop it.currentPos)).map fun tick =>
      (.ok tick, { it with currentPos := it.currentPos + tick.serialize.length })

/-- The items of the first rounds of a loop over an iterator. -/
def take (it : TickIterator) : Nat → List (Except TickDbError StoredTick)
  | 0 => []
  | rounds + 1 =>
      match it.next with
      | none => []
      | some (item, it) => item :: it.take rounds

/-- The items of a loop over an iterator: there are fewer than bytes (`take_eq_toList`). -/
def toList (it : TickIterator) : List (Except TickDbError StoredTick) :=
  it.take (it.endPos - it.currentPos)

end Loop

end TickIterator

/-- `TickDbReader`. -/
structure TickDbReader where
  mmap : Option (List UInt8)
  header : Option FileHeader
  dataStart : Nat
  dataEnd : Nat

/-- `TickDbReader::open`. -/
def TickDbReader.open (io : Io) (file : List UInt8) : Except TickDbError TickDbReader :=
  if !io.opens then .error .io
  else if file.length < FileHeader.size then .error (.corruption "File too small")
  else if !io.maps then .error .io
  else
    match FileHeader.ofBytes file with
    | none => .error (.corruption "File too small")
    | some header =>
        match header.validate with
        | .error e => .error e
        | .ok () => .ok ⟨some file, some header, FileHeader.size, file.length⟩

/-- `tick_count`. -/
def TickDbReader.tickCount (r : TickDbReader) : Nat :=
  (r.header.map fun h => h.tickCount.toNat).getD 0

/-- `iter`. -/
def TickDbReader.iter (r : TickDbReader) : Option TickIterator :=
  r.mmap.map fun mmap => ⟨mmap, r.dataStart, r.dataEnd⟩

/-! ## Iteration -/

namespace TickIterator

/-- The iterator stops where there is no room for two records. -/
theorem next_eq_none [Bincode] {it : TickIterator}
    (h : it.endPos - it.currentPos < StoredTick.serializeSize * 2) : it.next = none := by
  rw [next, if_pos h, ite_self]

variable [Bincode] [Bincode.FixedWidth]

/-- Before that, it returns the record that it stands at. -/
theorem next_record {it : TickIterator} {t : StoredTick} {rest : List UInt8}
    (hroom : StoredTick.serializeSize * 2 ≤ it.endPos - it.currentPos)
    (hrecord : it.mmap.drop it.currentPos = t.serialize ++ rest) :
    it.next =
      some (.ok t, { it with currentPos := it.currentPos + StoredTick.serializeSize }) := by
  have hsize : 0 < StoredTick.serializeSize * 2 := by decide
  rw [next, if_neg (by omega), if_neg (by omega), hrecord, StoredTick.deserialize_serialize,
    Option.map_some, StoredTick.length_serialize]

/-- **Iteration over records**: all but the last are found. -/
theorem take_records {ticks : List StoredTick} {rest : List UInt8} :
    ∀ {it : TickIterator} {rounds : Nat}, ticks.length ≤ rounds →
      it.mmap.drop it.currentPos = ticks.flatMap StoredTick.serialize ++ rest →
      it.endPos = it.currentPos + StoredTick.serializeSize * ticks.length + rest.length →
      rest.length < StoredTick.serializeSize →
      it.take rounds = ticks.dropLast.map .ok := by
  induction ticks with
  | nil =>
      intro it rounds _ _ hend hrest
      have hnone : it.next = none := next_eq_none (by rw [hend, List.length_nil]; omega)
      cases rounds with
      | zero => rfl
      | succ rounds => simp only [take, hnone, List.dropLast_nil, List.map_nil]
  | cons t ticks ih =>
      intro it rounds hrounds hdrop hend hrest
      obtain ⟨rounds, rfl⟩ : ∃ r, rounds = r + 1 := ⟨rounds - 1, by
        rw [List.length_cons] at hrounds
        omega⟩
      rw [List.length_cons] at hrounds
      rw [List.length_cons, Nat.mul_succ] at hend
      rw [List.flatMap_cons, List.append_assoc] at hdrop
      cases ticks with
      | nil =>
          have hnone : it.next = none := next_eq_none (by rw [hend, List.length_nil]; omega)
          simp only [take, hnone, List.dropLast_singleton, List.map_nil]
      | cons t' ticks =>
          have hmore : StoredTick.serializeSize ≤
              StoredTick.serializeSize * (t' :: ticks).length :=
            Nat.le_mul_of_pos_right _ (Nat.succ_pos _)
          have hnext : it.next = _ := next_record (by omega) hdrop
          have hrest' : take { it with currentPos := it.currentPos + StoredTick.serializeSize }
              rounds = (t' :: ticks).dropLast.map .ok :=
            ih (by omega) ?_ (by rw [hend]; simp only; omega) hrest
          · simp only [take, hnext, hrest', List.dropLast_cons_cons, List.map_cons]
          · show it.mmap.drop (it.currentPos + StoredTick.serializeSize) = _
            rw [← List.drop_drop, hdrop, ← t.length_serialize, List.drop_append_of_le_length le_rfl,
              List.drop_length, List.nil_append]

/-- A loop over records ends within `toList`. -/
theorem toList_records {it : TickIterator} {ticks : List StoredTick} {rest : List UInt8}
    (hdrop : it.mmap.drop it.currentPos = ticks.flatMap StoredTick.serialize ++ rest)
    (hend : it.endPos = it.currentPos + StoredTick.serializeSize * ticks.length + rest.length)
    (hrest : rest.length < StoredTick.serializeSize) :
    it.toList = ticks.dropLast.map .ok := by
  have hsize : 0 < StoredTick.serializeSize := by decide
  have hrounds := Nat.le_mul_of_pos_left ticks.length hsize
  exact take_records (by omega) hdrop hend hrest

/-- **A loop ends**: more rounds than there are bytes find no more items. -/
theorem take_eq_toList {it : TickIterator} {rounds : Nat}
    (h : it.endPos - it.currentPos ≤ rounds) : it.take rounds = it.toList := by
  suffices hmore : ∀ (n : Nat) (it : TickIterator), it.endPos - it.currentPos ≤ n → ∀ more,
      it.take (n + more) = it.take n by
    have hstep := hmore (it.endPos - it.currentPos) it le_rfl (rounds - (it.endPos - it.currentPos))
    rwa [show it.endPos - it.currentPos + (rounds - (it.endPos - it.currentPos)) = rounds by omega]
      at hstep
  intro n
  induction n with
  | zero =>
      intro it hle more
      have hnone : it.next = none := next_eq_none (by
        have hsize : 0 < StoredTick.serializeSize * 2 := by decide
        omega)
      cases more with
      | zero => rfl
      | succ more => simp only [take, hnone]
  | succ n ih =>
      intro it hle more
      rw [show n + 1 + more = n + more + 1 by omega, take, take]
      cases hnext : it.next with
      | none => rfl
      | some found =>
          obtain ⟨item, it'⟩ := found
          have hbefore : it'.endPos - it'.currentPos ≤ n := by
            rw [next] at hnext
            split_ifs at hnext with hdone hshort
            obtain ⟨t, -, ht⟩ := Option.map_eq_some_iff.mp hnext
            cases ht
            rw [t.length_serialize]
            have hsize : 0 < StoredTick.serializeSize := by decide
            show it.endPos - (it.currentPos + _) ≤ n
            omega
          simp only [ih it' hbefore more]

end TickIterator

/-! ## Writing -/

/-- A call that appends. -/
inductive AppendCall where
  | append (tick : StoredTick) (io : Io)
  | appendBatch (ticks : List StoredTick)
  deriving DecidableEq

/-- The ticks of a call. -/
def AppendCall.ticks : AppendCall → List StoredTick
  | .append tick _ => [tick]
  | .appendBatch ticks => ticks

/-- What a call leaves behind, if it is accepted. -/
def acceptedStep [Bincode] (db : MappedWriter) (c : AppendCall) : Option MappedWriter :=
  let result :=
    match c with
    | .append tick io => db.append tick io
    | .appendBatch ticks => db.appendBatch ticks
  match result.2 with
  | .ok _ => some result.1
  | .error _ => none

/-- **The file of a writer**: a header, the ticks, and zeros up to the capacity. -/
structure Layout [Bincode] (capacity : Nat) (ticks : List StoredTick) (db : MappedWriter) :
    Prop where
  closed : db.writer.closed = false
  mapped : db.writer.mapped = true
  /-- The file is the header, the ticks, and zeros. -/
  file : ∃ header, header.length = FileHeader.size ∧
    db.file = header ++ ticks.flatMap StoredTick.serialize ++
      List.replicate (capacity - (FileHeader.size + StoredTick.serializeSize * ticks.length)) 0
  /-- No tick is written beyond the capacity. -/
  fits : FileHeader.size + StoredTick.serializeSize * ticks.length ≤ capacity
  /-- The next record goes behind the last. -/
  writePos : db.writer.writePos = FileHeader.size + StoredTick.serializeSize * ticks.length
  tickCount : db.writer.tickCount = ticks.length
  bounded : ticks.length < 2 ^ 64

namespace Layout

variable [Bincode] [Bincode.FixedWidth]
variable {capacity : Nat} {ticks : List StoredTick} {db : MappedWriter}

/-- The file is as long as the capacity. -/
theorem length_file (h : Layout capacity ticks db) : db.file.length = capacity := by
  obtain ⟨header, hheader, hfile⟩ := h.file
  have hfits := h.fits
  rw [hfile, List.length_append, List.length_append, hheader,
    StoredTick.length_flatMap_serialize, List.length_replicate]
  omega

omit [Bincode.FixedWidth] in
/-- A new file. -/
theorem new {config : TickDbConfig} {io : Io} {start : List UInt8} {w : TickDbWriter}
    (h : TickDbWriter.new config io [] = (start, .ok w)) :
    Layout config.initialCapacity [] ⟨w, start⟩ := by
  revert h
  rw [TickDbWriter.new, if_pos List.length_nil]
  simp only [List.length_replicate]
  split_ifs with hopens hresizes hmaps hsmall hflushes
  all_goals intro h
  all_goals cases h
  have hle : FileHeader.size ≤ config.initialCapacity := by omega
  refine ⟨rfl, rfl, ⟨(FileHeader.current 0 0 io.now).toBytes io.padding,
    FileHeader.length_toBytes _ _, ?_⟩, hle, rfl, rfl, by decide⟩
  have hsplit : List.replicate config.initialCapacity (0 : UInt8) =
      List.replicate FileHeader.size 0 ++
        List.replicate (config.initialCapacity - FileHeader.size) 0 := by
    rw [List.replicate_append_replicate, Nat.add_sub_cancel' hle]
  simp only [hsplit]
  rw [splice_zero (by rw [FileHeader.length_toBytes, List.length_replicate])]
  simp

/-- **Ticks that are let in** are behind the others. -/
theorem written (h : Layout capacity ticks db) {more : List StoredTick} (hadmits : db.Admits more) :
    Layout capacity (ticks ++ more) (db.written more (db.posAfter more)) := by
  obtain ⟨-, -, hroom⟩ := hadmits
  obtain ⟨header, hheader, hfile⟩ := h.file
  rw [h.length_file, h.writePos] at hroom
  have hlength : StoredTick.serializeSize * (ticks ++ more).length =
      StoredTick.serializeSize * ticks.length + StoredTick.serializeSize * more.length := by
    rw [List.length_append, Nat.mul_add]
  have hcount : (ticks ++ more).length ≤ StoredTick.serializeSize * (ticks ++ more).length :=
    Nat.le_mul_of_pos_left _ (by decide)
  have hbounded : (ticks ++ more).length < 2 ^ 64 := by omega
  refine ⟨h.closed, h.mapped, ⟨header, hheader, ?_⟩, by omega, ?_, ?_, hbounded⟩
  · have hsplit : List.replicate
        (capacity - (FileHeader.size + StoredTick.serializeSize * ticks.length)) (0 : UInt8) =
        List.replicate (StoredTick.serializeSize * more.length) 0 ++ List.replicate
          (capacity - (FileHeader.size + StoredTick.serializeSize * (ticks ++ more).length)) 0 := by
      rw [List.replicate_append_replicate]
      congr 1
      omega
    have hpos : db.writer.writePos = (header ++ ticks.flatMap StoredTick.serialize).length := by
      rw [h.writePos, List.length_append, hheader, StoredTick.length_flatMap_serialize]
    show splice db.file db.writer.writePos _ = _
    rw [hfile, hsplit, ← List.append_assoc, hpos, splice_append, List.flatMap_append,
      List.append_assoc header]
    rw [List.length_replicate, StoredTick.length_flatMap_serialize]
  · show db.writer.writePos + _ = _
    rw [h.writePos, hlength]
    omega
  · show (db.writer.tickCount + more.length) % 2 ^ 64 = _
    rw [h.tickCount, ← List.length_append, Nat.mod_eq_of_lt hbounded]

/-- An accepted call. -/
theorem accepted (h : Layout capacity ticks db) {c : AppendCall} {db' : MappedWriter}
    (hstep : acceptedStep db c = some db') : Layout capacity (ticks ++ c.ticks) db' := by
  have hopen : db.Open := fun _ => h.mapped
  cases c with
  | append tick io =>
      by_cases hadmits : db.Admits [tick]
      · rw [acceptedStep] at hstep
        simp only [MappedWriter.append_of_admits io hopen hadmits] at hstep
        have hwritten := h.written hadmits
        split_ifs at hstep
        cases hstep
        exact ⟨hwritten.closed, hwritten.mapped, hwritten.file, hwritten.fits, hwritten.writePos,
          hwritten.tickCount, hwritten.bounded⟩
      · obtain ⟨e, herror⟩ := MappedWriter.append_of_not_admits io hadmits
        simp only [acceptedStep, herror, reduceCtorEq] at hstep
  | appendBatch more =>
      by_cases hadmits : db.Admits more
      · simp only [acceptedStep, MappedWriter.appendBatch_of_admits hopen hadmits] at hstep
        cases hstep
        exact h.written hadmits
      · obtain ⟨e, herror⟩ := MappedWriter.appendBatch_of_not_admits hopen hadmits
        simp only [acceptedStep, herror, reduceCtorEq] at hstep

/-- A run of accepted calls. -/
theorem run : ∀ {calls : List AppendCall} {ticks : List StoredTick} {db db' : MappedWriter},
    Layout capacity ticks db → Transition.run acceptedStep db calls = some db' →
      Layout capacity (ticks ++ calls.flatMap AppendCall.ticks) db' := by
  intro calls
  induction calls with
  | nil =>
      intro ticks db db' h hrun
      cases Option.some.inj hrun
      rwa [List.flatMap_nil, List.append_nil]
  | cons c calls ih =>
      intro ticks db db' h hrun
      obtain ⟨m, hstep, hrest⟩ := run_cons.mp hrun
      rw [List.flatMap_cons, ← List.append_assoc]
      exact ih (h.accepted hstep) hrest

omit [Bincode.FixedWidth] in
/-- Writing the header. -/
theorem updateHeader (h : Layout capacity ticks db) (io : Io) :
    Layout capacity ticks (db.updateHeader io) ∧
      FileHeader.ofBytes (db.updateHeader io).file =
        some (FileHeader.current db.writer.tickCount db.writer.fileSize io.now) := by
  obtain ⟨header, hheader, hfile⟩ := h.file
  rw [MappedWriter.updateHeader_of_mapped h.mapped]
  have hsplice : splice db.file 0
      ((FileHeader.current db.writer.tickCount db.writer.fileSize io.now).toBytes io.padding) =
        (FileHeader.current db.writer.tickCount db.writer.fileSize io.now).toBytes io.padding ++
          ticks.flatMap StoredTick.serialize ++ List.replicate
            (capacity - (FileHeader.size + StoredTick.serializeSize * ticks.length)) 0 := by
    rw [hfile, List.append_assoc, splice_zero (by rw [hheader, FileHeader.length_toBytes]),
      List.append_assoc]
  rw [hsplice]
  refine ⟨⟨h.closed, h.mapped, ⟨_, FileHeader.length_toBytes _ _, rfl⟩, h.fits, h.writePos,
    h.tickCount, h.bounded⟩, ?_⟩
  rw [List.append_assoc, FileHeader.ofBytes_toBytes]

end Layout

/-! ## Reading back -/

/-- Records up to a number, of which the last is dropped. -/
theorem dropLast_append_replicate_eq_iff {α : Type} (xs : List α) (records : Nat) (x : α) :
    (xs ++ List.replicate (records - xs.length) x).dropLast = xs ↔ xs.length = records - 1 := by
  constructor
  · intro h
    have hlength := congrArg List.length h
    rw [List.length_dropLast, List.length_append, List.length_replicate] at hlength
    omega
  · intro h
    rcases Nat.eq_zero_or_pos records with rfl | hpos
    · rw [Nat.zero_sub] at h
      rw [List.length_eq_zero_iff.mp h]
      rfl
    · rw [show records - xs.length = 1 by omega, List.replicate_one, List.dropLast_concat]

section ReadingBack

variable [Bincode]

/-- **A writer leaves a file**: it was made for a new path, accepted calls, and was flushed
and closed. -/
def Leaves (config : TickDbConfig) (calls : List AppendCall) (file : List UInt8) : Prop :=
  ∃ (start : List UInt8) (w : TickDbWriter) (db : MappedWriter) (created flushed closed : Io),
    TickDbWriter.new config created [] = (start, .ok w) ∧
      run acceptedStep ⟨w, start⟩ calls = some db ∧
      (db.flush flushed).2 = .ok () ∧ ((db.flush flushed).1.close closed).2 = .ok () ∧
      file = ((db.flush flushed).1.close closed).1.file

/-- **A reader finds these ticks**, and their number. -/
def ReadsBack (reading : Io) (file : List UInt8) (ticks : List StoredTick) : Prop :=
  ∃ r it, TickDbReader.open reading file = .ok r ∧ r.iter = some it ∧
    it.toList = ticks.map .ok ∧ r.tickCount = ticks.length

variable [Bincode.FixedWidth]

/-- Zeros are records. -/
theorem replicate_zero_eq (records rest : Nat) :
    List.replicate (StoredTick.serializeSize * records + rest) (0 : UInt8) =
      (List.replicate records StoredTick.blank).flatMap StoredTick.serialize ++
        List.replicate rest 0 := by
  rw [← List.replicate_append_replicate]
  congr 1
  induction records with
  | zero => rfl
  | succ records ih =>
      rw [Nat.mul_succ, Nat.add_comm, ← List.replicate_append_replicate, ih, List.replicate_succ,
        List.flatMap_cons, StoredTick.serialize_blank]

/-- **What the reader finds**: the header's count, and all records but the last. -/
theorem Layout.read {capacity : Nat} {ticks : List StoredTick} {db : MappedWriter}
    (h : Layout capacity ticks db) {reading writing : Io}
    (hopens : reading.opens = true ∧ reading.maps = true) :
    ∃ r it, TickDbReader.open reading (db.updateHeader writing).file = .ok r ∧
      r.iter = some it ∧ r.tickCount = ticks.length ∧
      it.toList = (ticks ++ List.replicate
        ((capacity - FileHeader.size) / StoredTick.serializeSize - ticks.length)
        StoredTick.blank).dropLast.map .ok := by
  obtain ⟨hlayout, hheader⟩ := h.updateHeader writing
  obtain ⟨bytes, hbytes, hfile⟩ := hlayout.file
  have hlength := hlayout.length_file
  have hfits := h.fits
  have hopen : TickDbReader.open reading (db.updateHeader writing).file =
      .ok ⟨some (db.updateHeader writing).file,
        some (FileHeader.current db.writer.tickCount db.writer.fileSize writing.now),
        FileHeader.size, (db.updateHeader writing).file.length⟩ := by
    rw [TickDbReader.open, if_neg (by rw [hopens.1]; nofun), if_neg (by rw [hlength]; omega),
      if_neg (by rw [hopens.2]; nofun)]
    simp only [hheader, FileHeader.validate_current]
  refine ⟨_, _, hopen, rfl, ?_, ?_⟩
  · show (UInt64.ofNat db.writer.tickCount).toNat = _
    rw [h.tickCount]
    exact UInt64.toNat_ofNat_of_lt' h.bounded
  · -- behind the ticks there are zeros: blank records, and less than a record at the end
    have hsize : StoredTick.serializeSize = 33 := rfl
    have hcapacity : capacity - (FileHeader.size + StoredTick.serializeSize * ticks.length) =
        StoredTick.serializeSize *
            ((capacity - FileHeader.size) / StoredTick.serializeSize - ticks.length) +
          (capacity - FileHeader.size) % StoredTick.serializeSize := by
      rw [hsize] at hfits ⊢
      omega
    have hrecords : (db.updateHeader writing).file.drop FileHeader.size =
        (ticks ++ List.replicate
          ((capacity - FileHeader.size) / StoredTick.serializeSize - ticks.length)
          StoredTick.blank).flatMap StoredTick.serialize ++
        List.replicate ((capacity - FileHeader.size) % StoredTick.serializeSize) 0 := by
      rw [hfile, hcapacity, replicate_zero_eq, List.append_assoc, ← hbytes,
        List.drop_append_of_le_length le_rfl, List.drop_length, List.nil_append,
        List.flatMap_append, List.append_assoc]
    refine TickIterator.toList_records hrecords ?_ ?_
    · rw [hlength, List.length_append, List.length_replicate, List.length_replicate]
      rw [hsize] at hfits ⊢
      simp only
      omega
    · rw [List.length_replicate, hsize]
      exact Nat.mod_lt _ (by decide)

/-- **What is read back**: the count is right, and the iterator goes on to the record before
the last one for which there is room. -/
theorem read_of_leaves {config : TickDbConfig} {calls : List AppendCall} {file : List UInt8}
    (h : Leaves config calls file) {reading : Io}
    (hopens : reading.opens = true ∧ reading.maps = true) :
    ∃ r it, TickDbReader.open reading file = .ok r ∧ r.iter = some it ∧
      r.tickCount = (calls.flatMap AppendCall.ticks).length ∧
      it.toList = (calls.flatMap AppendCall.ticks ++ List.replicate
        ((config.initialCapacity - FileHeader.size) / StoredTick.serializeSize -
          (calls.flatMap AppendCall.ticks).length) StoredTick.blank).dropLast.map .ok := by
  obtain ⟨start, w, db, created, flushed, closed, hnew, hrun, hflush, hclose, rfl⟩ := h
  have hlayout := (Layout.new hnew).run hrun
  rw [List.nil_append] at hlayout
  rw [MappedWriter.close_ok hclose, MappedWriter.flush_ok hflush]
  exact (hlayout.updateHeader flushed).1.read hopens

/-- **The ticks are read back** if and only if there was room for exactly one more. -/
theorem readsBack_iff {config : TickDbConfig} {calls : List AppendCall} {file : List UInt8}
    (h : Leaves config calls file) {reading : Io}
    (hopens : reading.opens = true ∧ reading.maps = true) :
    ReadsBack reading file (calls.flatMap AppendCall.ticks) ↔
      (calls.flatMap AppendCall.ticks).length =
        (config.initialCapacity - FileHeader.size) / StoredTick.serializeSize - 1 := by
  obtain ⟨r, it, hopen, hiter, hcount, hitems⟩ := read_of_leaves h hopens
  rw [← dropLast_append_replicate_eq_iff _ _ StoredTick.blank]
  constructor
  · rintro ⟨r', it', hopen', hiter', hitems', -⟩
    obtain rfl : r = r' := Except.ok.inj (hopen.symm.trans hopen')
    obtain rfl : it = it' := Option.some.inj (hiter.symm.trans hiter')
    exact (List.map_inj_right fun _ _ => Except.ok.inj).mp (hitems.symm.trans hitems')
  · intro hexact
    exact ⟨r, it, hopen, hiter, by rw [hitems, hexact], hcount⟩

end ReadingBack

open LittleEndian

/-- A tick at 50000.0 of 1.5. -/
def StoredTick.sample : StoredTick := ⟨1000, 0x40E86A0000000000, 0x3FF8000000000000, false, 0⟩

/-- A file with room for two records, after one tick. -/
theorem readsBack_roomForTwo :
    ∃ file, Leaves ⟨1000, 106, false⟩ [.append .sample (.fine 2)] file ∧
      ReadsBack (.fine 5) file [.sample] := by
  have hleaves : ∃ file, Leaves ⟨1000, 106, false⟩ [.append .sample (.fine 2)] file :=
    ⟨_, _, _, _, .fine 1, .fine 3, .fine 4, rfl, rfl, rfl, rfl, rfl⟩
  obtain ⟨file, hfile⟩ := hleaves
  exact ⟨file, hfile, (readsBack_iff hfile ⟨rfl, rfl⟩).mpr rfl⟩

/-- **A file with room for one record, after one tick**: the reader finds none. -/
theorem not_forall_readsBack :
    ¬ ∀ (config : TickDbConfig) (calls : List AppendCall) (file : List UInt8) (reading : Io),
      Leaves config calls file → reading.opens = true ∧ reading.maps = true →
        ReadsBack reading file (calls.flatMap AppendCall.ticks) := by
  intro hall
  have hleaves : ∃ file, Leaves ⟨1000, 73, false⟩ [.append .sample (.fine 2)] file :=
    ⟨_, _, _, _, .fine 1, .fine 3, .fine 4, rfl, rfl, rfl, rfl, rfl⟩
  obtain ⟨file, hfile⟩ := hleaves
  obtain ⟨r, it, hopen, hiter, hitems, -⟩ := hall _ _ file (.fine 5) hfile ⟨rfl, rfl⟩
  have hreads : (Io.fine 5).opens = true ∧ (Io.fine 5).maps = true := ⟨rfl, rfl⟩
  obtain ⟨r', it', hopen', hiter', -, hitems'⟩ := read_of_leaves hfile hreads
  obtain rfl : r = r' := Except.ok.inj (hopen.symm.trans hopen')
  obtain rfl : it = it' := Option.some.inj (hiter.symm.trans hiter')
  exact absurd (congrArg List.length (hitems.symm.trans hitems')) (by decide)

end StopTrading.TickDb
