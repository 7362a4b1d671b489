import StopTrading.Persistence.Wal

/-!
# The format of the write-ahead log

`WalEntryHeader::deserialize` reads back what `serialize` writes.  `readLog` reads a segment
with it from the front, header after header with as many bytes behind each as it says, and
stops where the bytes end.

* `deserialize_serialize` — a header is read as it was written.
* `readLog_take` — a file of entries that is cut off at any byte is read as the entries that
  were complete.
* `segment_recovered` — so a segment that any writers have appended to is recovered after a
  crash at any byte: the data of the calls in order, with its checksum, numbered from one for
  each writer.

### What is load-bearing

An entry says how long it is in its header, so that the reader needs no separator and no index.
This is what makes a cut harmless: before the cut, entries are read one by one
(`readEntry_append`), and the entry across the cut is not read, because its header is incomplete
or promises more bytes than there are (`readEntry_take`).

### Design decisions

* The source has `deserialize` but no loop that reads a segment.  `readLog` is the reader that
  the format allows; it uses `deserialize` on the header and nothing else that the source does
  not have.
* The theorems ask for entries below `2 ^ 32` bytes and times below `2 ^ 64`, which are the
  ranges of the header's fields.
-/

namespace StopTrading.Persistence

open ByteFile Transition

namespace WalEntryHeader

/-- `deserialize`. -/
def deserialize (buf : List UInt8) : Option WalEntryHeader :=
  if buf.length < size then none
  else some
    { length := ofLE (window buf 0 4)
      entryType := buf.getD 4 0
      flags := buf.getD 5 0
      checksum := BitVec.ofNat 32 (ofLE (window buf 6 4))
      sequence := ofLE (window buf 10 8)
      timestampNs := ofLE (window buf 18 8) }

/-- The numbers of a header are those of its fields' types. -/
def InRange (h : WalEntryHeader) : Prop :=
  h.length < 2 ^ 32 ∧ h.sequence < 2 ^ 64 ∧ h.timestampNs < 2 ^ 64

/-- Fewer bytes than a header has are no header. -/
theorem deserialize_of_lt {buf : List UInt8} (h : buf.length < size) : deserialize buf = none :=
  if_pos h

/-- **A header is read as it was written**, whatever follows it. -/
theorem deserialize_serialize {h : WalEntryHeader} (range : h.InRange) (rest : List UInt8) :
    deserialize (h.serialize ++ rest) = some h := by
  obtain ⟨hlength, hsequence, htime⟩ := range
  have hlong : ¬ (h.serialize ++ rest).length < size := by
    rw [List.length_append, length_serialize]
    omega
  rw [deserialize, if_neg hlong]
  show some (⟨ofLE (toLE 4 h.length), h.entryType, h.flags,
    BitVec.ofNat 32 (ofLE (toLE 4 h.checksum.toNat)), ofLE (toLE 8 h.sequence),
    ofLE (toLE 8 h.timestampNs)⟩ : WalEntryHeader) = some h
  rw [ofLE_toLE_of_lt hlength, ofLE_toLE_of_lt (w := 4) h.checksum.isLt,
    ofLE_toLE_of_lt hsequence, ofLE_toLE_of_lt htime, BitVec.ofNat_toNat, BitVec.setWidth_eq]

end WalEntryHeader

/-! ## Entries -/

/-- A header and its data. -/
structure WalEntry where
  header : WalEntryHeader
  data : List UInt8

namespace WalEntry

/-- The bytes of an entry. -/
def bytes (e : WalEntry) : List UInt8 := e.header.serialize ++ e.data

/-- The number of its bytes. -/
def size (e : WalEntry) : Nat := WalEntryHeader.size + e.data.length

/-- The header is in range, and its length is that of the data. -/
def WellFormed (e : WalEntry) : Prop := e.header.InRange ∧ e.header.length = e.data.length

/-- The bytes of an entry are its header and its data. -/
@[simp] theorem length_bytes (e : WalEntry) : e.bytes.length = e.size := by
  rw [bytes, List.length_append, WalEntryHeader.length_serialize, size]

end WalEntry

/-- The entry at the front, if its bytes are all there, and what follows it. -/
def readEntry (buf : List UInt8) : Option (WalEntry × List UInt8) :=
  (WalEntryHeader.deserialize buf).bind fun header =>
    if (buf.drop WalEntryHeader.size).length < header.length then none
    else some (⟨header, (buf.drop WalEntryHeader.size).take header.length⟩,
      buf.drop (WalEntryHeader.size + header.length))

/-- At most so many entries. -/
def readEntries : Nat → List UInt8 → List WalEntry
  | 0, _ => []
  | n + 1, buf =>
      match readEntry buf with
      | none => []
      | some (e, rest) => e :: readEntries n rest

/-- **The entries of a segment**, up to the first that is not complete. -/
def readLog (buf : List UInt8) : List WalEntry := readEntries buf.length buf

/-- A complete entry is read, and what follows is left. -/
theorem readEntry_append {e : WalEntry} (h : e.WellFormed) (rest : List UInt8) :
    readEntry (e.bytes ++ rest) = some (e, rest) := by
  have hdrop : (e.bytes ++ rest).drop WalEntryHeader.size = e.data ++ rest := by
    rw [WalEntry.bytes, List.append_assoc]
    exact List.drop_left' e.header.length_serialize
  rw [readEntry, WalEntry.bytes, List.append_assoc, WalEntryHeader.deserialize_serialize h.1,
    Option.bind_some, ← List.append_assoc, ← WalEntry.bytes, hdrop, ← List.drop_drop, hdrop, h.2,
    if_neg (by simp), List.take_left, List.drop_left]

/-- **An entry that is cut off** is not read. -/
theorem readEntry_take {e : WalEntry} (h : e.WellFormed) (rest : List UInt8) {k : Nat}
    (hk : k < e.size) : readEntry ((e.bytes ++ rest).take k) = none := by
  have hcut : (e.bytes ++ rest).take k = e.bytes.take k :=
    List.take_append_of_le_length (by rw [WalEntry.length_bytes]; omega)
  rw [hcut]
  by_cases hheader : k < WalEntryHeader.size
  · rw [readEntry, WalEntryHeader.deserialize_of_lt, Option.bind_none]
    rw [List.length_take, WalEntry.length_bytes]
    omega
  · have hsplit : e.bytes.take k =
        e.header.serialize ++ e.data.take (k - WalEntryHeader.size) := by
      rw [WalEntry.bytes, List.take_append, WalEntryHeader.length_serialize,
        List.take_of_length_le (by rw [WalEntryHeader.length_serialize]; omega)]
    have hdata : ((e.header.serialize ++ e.data.take (k - WalEntryHeader.size)).drop
        WalEntryHeader.size).length < e.header.length := by
      rw [List.drop_left' e.header.length_serialize, List.length_take, h.2]
      unfold WalEntry.size at hk
      omega
    rw [hsplit, readEntry, WalEntryHeader.deserialize_serialize h.1, Option.bind_some,
      if_pos hdata]

/-- How many entries are complete in so many bytes. -/
def complete : Nat → List WalEntry → Nat
  | _, [] => 0
  | k, e :: es => if e.size ≤ k then complete (k - e.size) es + 1 else 0

/-- **A segment cut off at any byte** is read as its complete entries. -/
theorem readEntries_take {es : List WalEntry} (h : ∀ e ∈ es, e.WellFormed) :
    ∀ {n k : Nat}, ((es.flatMap WalEntry.bytes).take k).length ≤ n →
      readEntries n ((es.flatMap WalEntry.bytes).take k) = es.take (complete k es) := by
  induction es with
  | nil =>
      intro n k _
      cases n with
      | zero => rfl
      | succ n =>
          rw [List.flatMap_nil, List.take_nil, List.take_nil, readEntries, readEntry,
            WalEntryHeader.deserialize_of_lt (by decide), Option.bind_none]
  | cons e es ih =>
      intro n k hk
      have he := h e List.mem_cons_self
      have hsize : 32 ≤ e.size := Nat.le_add_right _ _
      rw [List.flatMap_cons, complete]
      by_cases hfits : e.size ≤ k
      · have hcut : (e.bytes ++ es.flatMap WalEntry.bytes).take k =
            e.bytes ++ (es.flatMap WalEntry.bytes).take (k - e.size) := by
          rw [List.take_append, WalEntry.length_bytes,
            List.take_of_length_le (by rw [WalEntry.length_bytes]; exact hfits)]
        rw [List.flatMap_cons, hcut, List.length_append, WalEntry.length_bytes] at hk
        obtain ⟨n, rfl⟩ : ∃ m, n = m + 1 := ⟨n - 1, by omega⟩
        rw [if_pos hfits, hcut, readEntries, readEntry_append he, List.take_succ_cons,
          ← ih (fun e' he' => h e' (List.mem_cons_of_mem e he')) (n := n) (by omega)]
      · rw [if_neg hfits, List.take_zero]
        cases n with
        | zero => rfl
        | succ n => rw [readEntries, readEntry_take he _ (Nat.lt_of_not_le hfits)]

/-- **A file that was cut off** is read as the entries that are complete in what is left. -/
theorem readLog_take {es : List WalEntry} (h : ∀ e ∈ es, e.WellFormed) (k : Nat) :
    readLog ((es.flatMap WalEntry.bytes).take k) = es.take (complete k es) :=
  readEntries_take h le_rfl

/-! ## Writers -/

/-- The entry that `append` writes. -/
def entryOf (sequence : Nat) (data : Payload) (timestampNs : Nat) : WalEntry :=
  ⟨{ WalEntryHeader.new 1 sequence with
      length := data.bytes.length % 2 ^ 32
      timestampNs := timestampNs
      checksum := calculateCrc data.bytes }, data.bytes⟩

/-- **What an append that returns has done**, on an open segment. -/
theorem WalWriter.append_entry {w : WalWriter} {path : Path} (hactive : w.active = true)
    (hfile : w.file = some path) {data : Payload} {timestampNs : Nat} {appended : Appended}
    (h : w.append data timestampNs = some appended) :
    appended.output = some (path, (entryOf w.sequence data timestampNs).bytes) ∧
      appended.writer.active = true ∧ appended.writer.file = some path ∧
      appended.writer.sequence = (w.sequence + 1) % 2 ^ 64 := by
  unfold WalWriter.append at h
  rw [if_neg (by simp [hactive])] at h
  dsimp only at h
  rw [hfile] at h
  dsimp only at h
  split at h
  · obtain ⟨segmentNum, -, rfl⟩ := Option.map_eq_some_iff.mp h
    exact ⟨rfl, hactive, rfl, rfl⟩
  · cases h
    exact ⟨rfl, hactive, rfl, rfl⟩

section

variable {W : Type*} [DecidableEq W]

/-- The entries of some calls, by the numbers that the writers are at. -/
def entriesFrom : (W → Nat) → List (AppendCall W) → List WalEntry
  | _, [] => []
  | sequence, call :: calls =>
      entryOf (sequence call.writer) call.data call.timestampNs ::
        entriesFrom (Function.update sequence call.writer
          ((sequence call.writer + 1) % 2 ^ 64)) calls

/-- The bytes of a file. -/
def World.contents (world : World W) (path : Path) : List UInt8 :=
  (world.files path).flatMap Written.bytes

/-- Every writer is at one segment. -/
def World.OpenAt (world : World W) (path : Path) : Prop :=
  ∀ w, (world.writers w).active = true ∧ (world.writers w).file = some path

/-- **A call that returns** adds its entry to the segment. -/
theorem World.append_contents {world world' : World W} {path : Path} {call : AppendCall W}
    (hopen : world.OpenAt path) (h : world.append call = some world') :
    world'.OpenAt path ∧
      (∀ other, other ≠ path → world'.contents other = world.contents other) ∧
      world'.contents path = world.contents path ++
        (entryOf (world.writers call.writer).sequence call.data call.timestampNs).bytes ∧
      (fun w => (world'.writers w).sequence) =
        Function.update (fun w => (world.writers w).sequence) call.writer
          (((world.writers call.writer).sequence + 1) % 2 ^ 64) := by
  obtain ⟨appended, happended, rfl⟩ := Option.map_eq_some_iff.mp h
  obtain ⟨houtput, hactive, hfile, hsequence⟩ :=
    WalWriter.append_entry (hopen call.writer).1 (hopen call.writer).2 happended
  refine ⟨fun w => ?_, fun other hother => ?_, ?_, ?_⟩
  · by_cases hw : w = call.writer
    · subst hw
      simpa using ⟨hactive, hfile⟩
    · simpa [hw] using hopen w
  · simp [World.contents, houtput, hother]
  · simp [World.contents, houtput]
  · funext w
    by_cases hw : w = call.writer
    · subst hw
      simpa using hsequence
    · simp [hw]

/-- **A run** adds the entries of its calls, by induction on the calls. -/
theorem World.run_contents {path : Path} (calls : List (AppendCall W)) :
    ∀ {world world' : World W}, world.OpenAt path → run World.append world calls = some world' →
      (∀ other, other ≠ path → world'.contents other = world.contents other) ∧
      world'.contents path = world.contents path ++
        (entriesFrom (fun w => (world.writers w).sequence) calls).flatMap WalEntry.bytes := by
  induction calls with
  | nil =>
      intro world world' _ h
      cases h
      exact ⟨fun _ _ => rfl, by simp [entriesFrom]⟩
  | cons call calls ih =>
      intro world world'' hopen h
      obtain ⟨world', happend, hrun⟩ := Option.bind_eq_some_iff.mp h
      obtain ⟨hopen', hothers, hpath, hsequence⟩ := World.append_contents hopen happend
      obtain ⟨hothers', hpath'⟩ := ih hopen' hrun
      refine ⟨fun other hother => (hothers' other hother).trans (hothers other hother), ?_⟩
      rw [hpath', hpath, hsequence, entriesFrom, List.flatMap_cons, List.append_assoc]

/-- The numbers of an entry are in range if those of the call are. -/
theorem wellFormed_entryOf {sequence : Nat} {data : Payload} {timestampNs : Nat}
    (hdata : data.bytes.length < 2 ^ 32) (htime : timestampNs < 2 ^ 64)
    (hsequence : sequence < 2 ^ 64) : (entryOf sequence data timestampNs).WellFormed := by
  have hlength : data.bytes.length % 2 ^ 32 = data.bytes.length := Nat.mod_eq_of_lt hdata
  refine ⟨⟨?_, hsequence, htime⟩, hlength⟩
  exact Nat.mod_lt _ (Nat.two_pow_pos 32)

/-- All entries of a run are in range. -/
theorem wellFormed_entriesFrom {calls : List (AppendCall W)}
    (small : ∀ call ∈ calls, call.data.bytes.length < 2 ^ 32 ∧ call.timestampNs < 2 ^ 64) :
    ∀ {sequence : W → Nat}, (∀ w, sequence w < 2 ^ 64) →
      ∀ e ∈ entriesFrom sequence calls, e.WellFormed := by
  induction calls with
  | nil => exact fun _ e he => (List.not_mem_nil he).elim
  | cons call calls ih =>
      intro sequence hsequence e he
      obtain ⟨hdata, htime⟩ := small call List.mem_cons_self
      rw [entriesFrom, List.mem_cons] at he
      obtain rfl | he := he
      · exact wellFormed_entryOf hdata htime (hsequence call.writer)
      · refine ih (fun c hc => small c (List.mem_cons_of_mem call hc)) (fun w => ?_) e he
        by_cases hw : w = call.writer
        · subst hw
          rw [Function.update_self]
          exact Nat.mod_lt _ (Nat.two_pow_pos 64)
        · rw [Function.update_of_ne hw]
          exact hsequence w

/-- **Recovery after a crash at any byte**: what is left of the segment is read as the entries
that were complete, in the order of the calls; there is no other segment. -/
theorem segment_recovered (basePath : W → Path) (segmentSize : W → Nat)
    (calls : List (AppendCall W)) {world : World W}
    (hrun : run World.append (World.start basePath segmentSize) calls = some world)
    (small : ∀ call ∈ calls, call.data.bytes.length < 2 ^ 32 ∧ call.timestampNs < 2 ^ 64)
    (k : Nat) :
    readLog ((world.contents World.firstSegment).take k) =
        (entriesFrom (fun _ => 1) calls).take (complete k (entriesFrom (fun _ => 1) calls)) ∧
      ∀ path, path ≠ World.firstSegment → world.contents path = [] := by
  have hopen : (World.start basePath segmentSize).OpenAt World.firstSegment :=
    fun w => ⟨rfl, rfl⟩
  obtain ⟨hothers, hpath⟩ := World.run_contents calls hopen hrun
  refine ⟨?_, fun path hne => hothers path hne⟩
  have hcontents : world.contents World.firstSegment =
      (entriesFrom (fun _ => 1) calls).flatMap WalEntry.bytes := hpath
  rw [hcontents]
  exact readLog_take (wellFormed_entriesFrom small fun _ => by decide) k

end

/-- Two writers; the file is cut off in the third entry. -/
theorem segment_recovered_two :
    let calls : List (AppendCall Bool) :=
      [⟨true, ⟨[1, 2], by decide⟩, 5⟩, ⟨false, ⟨[3], by decide⟩, 6⟩, ⟨true, ⟨[4], by decide⟩, 7⟩]
    ∃ world, run World.append (World.start (fun w => [toString w]) fun _ => 1000) calls =
        some world ∧
      readLog ((world.contents World.firstSegment).take 90) =
        [entryOf 1 ⟨[1, 2], by decide⟩ 5, entryOf 1 ⟨[3], by decide⟩ 6] := by
  intro calls
  refine ⟨_, rfl, ?_⟩
  exact (segment_recovered (fun w => [toString w]) (fun _ => 1000) calls rfl (by decide) 90).1

end StopTrading.Persistence
