import StopTrading.EventStore.WalRecovery

/-!
# A changed bit in the log

The checksum of a record covers its payload and nothing else.  Any changed bit of the payload
or of the checksum itself is found (`crc32Fast_modify_ne`), but the number and the time of a
record are returned as they have become, and so is its type unless the byte still stands for
the same one.  A changed length moves the end of the payload: then it depends on what stands
behind the record whether the reader notices.

`RefusedOrSame` collects these cases; it is exactly when a reader of the changed log returns
nothing that was not written (`faithful_iff`).

### What is load-bearing

Everything is said of one record with something behind it, and of the byte offset at which a bit
is changed.  The fields are windows of the header (`ofBytes_modify_length` and those after it),
so a changed byte changes one field; and every step of the checksum is injective, in the register
and in the byte, so that a single changed byte of a payload cannot go unnoticed
(`crc32Fast_modify_ne`).

A changed length is the case that has no answer by itself.  The reader takes a longer or shorter
part of the file for the payload, and it may happen to have the checksum in the header.
`RefusedOrSame` leaves this to the bytes that are there, as a condition that can be evaluated.

What comes behind a record that was accepted with a change does not matter any more: `Faithful`
counts entries by their position, and a wrong one is wrong whatever follows.
-/

namespace StopTrading.Store

open ByteFile Checksum

/-- One bit of a byte changed. -/
def flipBit (k : Fin 8) (b : UInt8) : UInt8 := b ^^^ UInt8.ofNat (2 ^ k.val)

/-- A changed bit changes the byte. -/
theorem flipBit_ne (k : Fin 8) (b : UInt8) : flipBit k b ≠ b := by
  intro h
  have hcancel : b ^^^ (b ^^^ UInt8.ofNat (2 ^ k.val)) = b ^^^ b := congrArg (b ^^^ ·) h
  rw [← UInt8.xor_assoc, UInt8.xor_self, UInt8.zero_xor] at hcancel
  have hbit : ∀ k : Fin 8, UInt8.ofNat (2 ^ k.val) ≠ 0 := by decide
  exact hbit k hcancel

/-- One bit of a file changed. -/
def File.flip (file : File) (i : Nat) (k : Fin 8) : File :=
  ⟨file.1.modify i (flipBit k), by rw [List.length_modify]; exact file.2⟩

/-- **A changed byte of a payload changes its checksum.** -/
theorem crc32Fast_modify_ne {data : List UInt8} {i : Nat} (h : i < data.length) (k : Fin 8) :
    crc32Fast (data.modify i (flipBit k)) ≠ crc32Fast data := by
  have hsplit : data = data.take i ++ data[i] :: data.drop (i + 1) := by
    rw [List.cons_getElem_drop_succ, List.take_append_drop]
  have hchanged : data.modify i (flipBit k) =
      data.take i ++ flipBit k data[i] :: data.drop (i + 1) := List.modify_eq_take_cons_drop h
  intro heq
  have hfold := BitVec.not_inj.mp heq
  rw [hchanged] at hfold
  conv_rhs at hfold => rw [hsplit]
  exact foldl_byteStep_ne (by decide) (by decide) _ _ (flipBit_ne k _) _ hfold

/-! ## A changed header -/

/-- Every type but `custom` becomes another one by a changed bit. -/
theorem ofU8_flipBit (t : WALEntryType) (k : Fin 8) :
    WALEntryType.ofU8 (flipBit k t.toU8) = t ↔ t = .custom := by
  revert k
  cases t <;> decide

namespace WALEntryHeader

variable {f : UInt8 → UInt8} {o : Nat}

/-- Changing a later byte leaves the first one, -/
theorem headD_modify (bytes : List UInt8) (hpos : 0 < o) :
    (bytes.modify o f).headD 0 = bytes.headD 0 := by
  cases bytes with
  | nil => rw [List.modify_nil]
  | cons b bytes => rw [← Nat.sub_add_cancel hpos, List.modify_succ_cons]; rfl

/-- and each window of the header is one field: the length, -/
theorem ofBytes_modify_length (bytes : List UInt8) (hlo : 4 ≤ o) (hhi : o < 8) :
    ofBytes (bytes.modify o f) =
      { ofBytes bytes with length := ofLE ((window bytes 4 4).modify (o - 4) f) } := by
  simp (disch := omega) only [ofBytes, headD_modify, window_modify_of_lt, window_modify]

/-- the number, -/
theorem ofBytes_modify_sequence (bytes : List UInt8) (hlo : 8 ≤ o) (hhi : o < 16) :
    ofBytes (bytes.modify o f) =
      { ofBytes bytes with sequence := ofLE ((window bytes 8 8).modify (o - 8) f) } := by
  simp (disch := omega) only [ofBytes, headD_modify, window_modify_of_lt, window_modify_of_ge,
    window_modify]

/-- the time, -/
theorem ofBytes_modify_timestampNs (bytes : List UInt8) (hlo : 16 ≤ o) (hhi : o < 24) :
    ofBytes (bytes.modify o f) =
      { ofBytes bytes with timestampNs := ofLE ((window bytes 16 8).modify (o - 16) f) } := by
  simp (disch := omega) only [ofBytes, headD_modify, window_modify_of_lt, window_modify_of_ge,
    window_modify]

/-- and the checksum. -/
theorem ofBytes_modify_checksum (bytes : List UInt8) (hlo : 24 ≤ o) (hhi : o < 28) :
    ofBytes (bytes.modify o f) =
      { ofBytes bytes with
        checksum := BitVec.ofNat 32 (ofLE ((window bytes 24 4).modify (o - 24) f)) } := by
  simp (disch := omega) only [ofBytes, headD_modify, window_modify_of_ge, window_modify]

end WALEntryHeader

/-! ## A changed record -/

/-- A number with one bit of its little-endian bytes changed, in byte `i`. -/
def flipNumber (w n i : Nat) (k : Fin 8) : Nat := ofLE ((toLE w n).modify i (flipBit k))

/-- A changed bit changes the number. -/
theorem flipNumber_ne {w n i : Nat} (hn : n < 256 ^ w) (hi : i < w) (k : Fin 8) :
    flipNumber w n i k ≠ n := by
  have hne : flipNumber w n i k ≠ ofLE (toLE w n) :=
    ofLE_modify_ne (flipBit_ne k) (by rw [length_toLE]; exact hi)
  rwa [ofLE_toLE_of_lt hn] at hne

/-- A record of which a header byte is changed. -/
theorem modify_bytes_header (c : AppendCall) (sequence : Nat) {o : Nat}
    (ho : o < WALEntryHeader.size) (f : UInt8 → UInt8) (rest : List UInt8) :
    (c.bytes sequence).modify o f ++ rest =
      ((c.header sequence).toBytes c.padding).modify o f ++ (c.data ++ rest) := by
  rw [AppendCall.bytes, modify_append_left (by rw [WALEntryHeader.length_toBytes]; exact ho),
    List.append_assoc]

/-- **A changed payload is refused.** -/
theorem decodeEntry_flip_payload {c : AppendCall} {sequence : Nat}
    (hshort : c.data.length < 2 ^ 32) (hsequence : sequence < 2 ^ 64) {o : Nat}
    (hlo : WALEntryHeader.size ≤ o) (ho : o < c.size) (k : Fin 8) (rest : List UInt8) :
    ∃ e, decodeEntry ((c.bytes sequence).modify o (flipBit k) ++ rest) = .error e := by
  have hlength : (c.header sequence).length = c.data.length := length_header hshort sequence
  have hheader : ((c.header sequence).toBytes c.padding).length = WALEntryHeader.size :=
    WALEntryHeader.length_toBytes _ _
  obtain ⟨i, rfl⟩ := Nat.exists_eq_add_of_le hlo
  have hi : i < c.data.length := by
    rw [AppendCall.size] at ho
    omega
  have hbytes : (c.bytes sequence).modify (WALEntryHeader.size + i) (flipBit k) ++ rest =
      (c.header sequence).toBytes c.padding ++ (c.data.modify i (flipBit k) ++ rest) := by
    rw [AppendCall.bytes, ← hheader, modify_append_right, List.append_assoc]
  have htake : (c.data.modify i (flipBit k) ++ rest).take c.data.length =
      c.data.modify i (flipBit k) := by
    rw [← List.length_modify (flipBit k) c.data i, List.take_left]
  refine ⟨⟨.invalidData, "Checksum mismatch"⟩, ?_⟩
  rw [hbytes, decodeEntry_append hheader
      (WALEntryHeader.ofBytes_toBytes (header_fits c hsequence) _), hlength, htake,
    List.length_append, List.length_modify, if_neg (by omega)]
  exact if_pos (crc32Fast_modify_ne hi k)

section Header

variable {c : AppendCall} {sequence : Nat} {o : Nat} {k : Fin 8} (rest : List UInt8)

/-- A changed header that keeps the length and the checksum is returned. -/
theorem decodeEntry_flip_header (ho : o < WALEntryHeader.size) {header : WALEntryHeader}
    (hheader : WALEntryHeader.ofBytes
      (((c.header sequence).toBytes c.padding).modify o (flipBit k)) = header)
    (hlength : header.length = c.data.length) (hchecksum : header.checksum = crc32Fast c.data) :
    decodeEntry ((c.bytes sequence).modify o (flipBit k) ++ rest) =
      .ok (some ⟨header, c.data⟩) := by
  rw [modify_bytes_header c sequence ho]
  exact decodeEntry_of_framing (by rw [List.length_modify]; rfl) hheader hlength hchecksum rest

variable (hshort : c.data.length < 2 ^ 32) (hsequence : sequence < 2 ^ 64)
include hshort hsequence

/-- **A changed type is returned.** -/
theorem decodeEntry_flip_type :
    decodeEntry ((c.bytes sequence).modify 0 (flipBit k) ++ rest) =
      .ok (some ⟨{ c.header sequence with entryType := flipBit k c.entryType.toU8 }, c.data⟩) := by
  refine decodeEntry_flip_header rest (by decide) ?_ (length_header hshort sequence) rfl
  have hself := WALEntryHeader.ofBytes_toBytes (header_fits c hsequence) c.padding
  conv_rhs => rw [← hself]
  rfl

/-- **A changed number is returned.** -/
theorem decodeEntry_flip_sequence (hlo : 8 ≤ o) (hhi : o < 16) :
    decodeEntry ((c.bytes sequence).modify o (flipBit k) ++ rest) =
      .ok (some ⟨{ c.header sequence with sequence := flipNumber 8 sequence (o - 8) k },
        c.data⟩) := by
  refine decodeEntry_flip_header rest (by rw [WALEntryHeader.size]; omega) ?_
    (length_header hshort sequence) rfl
  rw [WALEntryHeader.ofBytes_modify_sequence _ hlo hhi,
    WALEntryHeader.ofBytes_toBytes (header_fits c hsequence)]
  rfl

/-- **A changed time is returned.** -/
theorem decodeEntry_flip_timestampNs (hlo : 16 ≤ o) (hhi : o < 24) :
    decodeEntry ((c.bytes sequence).modify o (flipBit k) ++ rest) =
      .ok (some ⟨{ c.header sequence with
        timestampNs := flipNumber 8 c.nowNs.toNat (o - 16) k }, c.data⟩) := by
  refine decodeEntry_flip_header rest (by rw [WALEntryHeader.size]; omega) ?_
    (length_header hshort sequence) rfl
  rw [WALEntryHeader.ofBytes_modify_timestampNs _ hlo hhi,
    WALEntryHeader.ofBytes_toBytes (header_fits c hsequence)]
  rfl

/-- **A changed checksum is refused.** -/
theorem decodeEntry_flip_checksum (hlo : 24 ≤ o) (hhi : o < 28) :
    ∃ e, decodeEntry ((c.bytes sequence).modify o (flipBit k) ++ rest) = .error e := by
  have hheader : WALEntryHeader.ofBytes
      (((c.header sequence).toBytes c.padding).modify o (flipBit k)) =
      { c.header sequence with
        checksum := BitVec.ofNat 32 (flipNumber 4 (crc32Fast c.data).toNat (o - 24) k) } := by
    rw [WALEntryHeader.ofBytes_modify_checksum _ hlo hhi,
      WALEntryHeader.ofBytes_toBytes (header_fits c hsequence)]
    rfl
  have hchanged : flipNumber 4 (crc32Fast c.data).toNat (o - 24) k ≠ (crc32Fast c.data).toNat :=
    flipNumber_ne (crc32Fast c.data).isLt (by omega) k
  have hfits : flipNumber 4 (crc32Fast c.data).toNat (o - 24) k < 2 ^ 32 := by
    have hlt := ofLE_lt ((toLE 4 (crc32Fast c.data).toNat).modify (o - 24) (flipBit k))
    rwa [List.length_modify, length_toLE] at hlt
  have hmismatch : crc32Fast c.data ≠
      BitVec.ofNat 32 (flipNumber 4 (crc32Fast c.data).toNat (o - 24) k) := by
    intro heq
    have htoNat := congrArg BitVec.toNat heq
    rw [BitVec.toNat_ofNat, Nat.mod_eq_of_lt hfits] at htoNat
    exact hchanged htoNat.symm
  have hlength : (c.header sequence).length = c.data.length := length_header hshort sequence
  refine ⟨⟨.invalidData, "Checksum mismatch"⟩, ?_⟩
  rw [modify_bytes_header c sequence (by rw [WALEntryHeader.size]; omega),
    decodeEntry_append (by rw [List.length_modify]; rfl) hheader]
  dsimp only
  rw [hlength, List.take_left, List.length_append, if_neg (by omega), if_pos hmismatch]

/-- **With a changed length** another part of the file is taken for the payload. -/
theorem decodeEntry_flip_length (hlo : 4 ≤ o) (hhi : o < 8) :
    decodeEntry ((c.bytes sequence).modify o (flipBit k) ++ rest) =
      if (c.data ++ rest).length < flipNumber 4 c.data.length (o - 4) k then
        .error ⟨.unexpectedEof, "failed to fill whole buffer"⟩
      else if crc32Fast ((c.data ++ rest).take (flipNumber 4 c.data.length (o - 4) k)) ≠
          crc32Fast c.data then
        .error ⟨.invalidData, "Checksum mismatch"⟩
      else .ok (some ⟨{ c.header sequence with
          length := flipNumber 4 c.data.length (o - 4) k },
        (c.data ++ rest).take (flipNumber 4 c.data.length (o - 4) k)⟩) := by
  have hlength : (c.header sequence).length = c.data.length := length_header hshort sequence
  have hheader : WALEntryHeader.ofBytes
      (((c.header sequence).toBytes c.padding).modify o (flipBit k)) =
      { c.header sequence with length := flipNumber 4 c.data.length (o - 4) k } := by
    rw [WALEntryHeader.ofBytes_modify_length _ hlo hhi,
      WALEntryHeader.ofBytes_toBytes (header_fits c hsequence), flipNumber, ← hlength]
    rfl
  rw [modify_bytes_header c sequence (by rw [WALEntryHeader.size]; omega),
    decodeEntry_append (by rw [List.length_modify]; rfl) hheader]
  rfl

end Header

/-! ## What a reader returns -/

/-- The entry says what was written at its position. -/
structure Same (sequence : Nat) (c : AppendCall) (entry : WALEntry) : Prop where
  /-- the type -/
  entryType : entry.entryType = c.entryType
  /-- the number -/
  sequence : entry.header.sequence = sequence
  /-- the time -/
  timestampNs : entry.header.timestampNs = c.nowNs.toNat
  /-- and the payload -/
  data : entry.data = c.data

/-- **Every entry says what was written at its position**, from a number on. -/
def Faithful : Nat → List AppendCall → List WALEntry → Prop
  | _, _, [] => True
  | _, [], _ :: _ => False
  | sequence, c :: calls, entry :: entries =>
      Same sequence c entry ∧ Faithful (sequence + 1) calls entries

/-- Nothing is read, and nothing wrong. -/
theorem faithful_nil (sequence : Nat) (calls : List AppendCall) : Faithful sequence calls [] := by
  cases calls <;> exact trivial

/-- A record read as it was written says what was written. -/
theorem same_entry (c : AppendCall) (sequence : Nat) : Same sequence c (c.entry sequence) :=
  ⟨c.entryType.ofU8_toU8, rfl, rfl, rfl⟩

/-- Entries read as they were written can be left out of consideration, -/
theorem faithful_append (sequence : Nat) (before calls : List AppendCall)
    (entries : List WALEntry) :
    Faithful sequence (before ++ calls) (logEntries sequence before ++ entries) ↔
      Faithful (sequence + before.length) calls entries := by
  induction before generalizing sequence with
  | nil => exact Iff.rfl
  | cons c before ih =>
      rw [List.cons_append, logEntries, List.cons_append, Faithful, ih, List.length_cons,
        Nat.add_right_comm, Nat.add_assoc]
      exact and_iff_right (same_entry c sequence)

/-- all of them, where no bit was changed. -/
theorem faithful_logEntries (sequence : Nat) (calls : List AppendCall) :
    Faithful sequence calls (logEntries sequence calls) := by
  have h := (faithful_append sequence calls [] []).mpr (faithful_nil _ _)
  rwa [List.append_nil, List.append_nil] at h

/-- Records as they were written, and then something else. -/
theorem decodes_append {before : List AppendCall} {sequence : Nat}
    (hshort : ∀ c ∈ before, c.data.length < 2 ^ 32)
    (hsequence : sequence + before.length ≤ 2 ^ 64) {tail : List UInt8}
    {entries : List WALEntry} {e : Option IoError} (htail : Decodes tail entries e) :
    Decodes (logBytes sequence before ++ tail) (logEntries sequence before ++ entries) e := by
  induction before generalizing sequence with
  | nil => exact htail
  | cons c before ih =>
      rw [List.forall_mem_cons] at hshort
      rw [List.length_cons] at hsequence
      rw [logBytes, List.append_assoc]
      exact (ih hshort.2 (by omega)).cons hshort.1 (by omega)

/-- Records as they were written, to the end. -/
theorem decodes_logBytes {calls : List AppendCall} {sequence : Nat}
    (hshort : ∀ c ∈ calls, c.data.length < 2 ^ 32)
    (hsequence : sequence + calls.length ≤ 2 ^ 64) :
    Decodes (logBytes sequence calls) (logEntries sequence calls) none := by
  have h := decodes_append hshort hsequence (.eof [] rfl)
  rwa [List.append_nil, List.append_nil] at h

/-! ## When a changed bit does no harm -/

/-- The byte is padding of a header. -/
def IsPadding (o : Nat) : Prop := (1 ≤ o ∧ o < 4) ∨ (28 ≤ o ∧ o < 32)

instance (o : Nat) : Decidable (IsPadding o) := inferInstanceAs (Decidable (_ ∨ _))

/-- **The changed bit of a record is noticed, or does not matter**: it lies in the payload, in
the checksum, in the type of a custom record, or in the length, and with the new length the
payload does not end in the file or has another checksum.  `behind` is what stands behind the
record. -/
def RefusedOrSame (c : AppendCall) (behind : List UInt8) (o : Nat) (k : Fin 8) : Prop :=
  WALEntryHeader.size ≤ o ∨ (24 ≤ o ∧ o < 28) ∨ (o = 0 ∧ c.entryType = .custom) ∨
    ((4 ≤ o ∧ o < 8) ∧
      ¬ (flipNumber 4 c.data.length (o - 4) k ≤ (c.data ++ behind).length ∧
        crc32Fast ((c.data ++ behind).take (flipNumber 4 c.data.length (o - 4) k)) =
          crc32Fast c.data))

instance (c : AppendCall) (behind : List UInt8) (o : Nat) (k : Fin 8) :
    Decidable (RefusedOrSame c behind o k) :=
  inferInstanceAs (Decidable (_ ∨ _))

section Reader

variable {bytes : List UInt8} {sequence : Nat} {harmless : Prop}

/-- A reader that is refused at once. -/
theorem exists_decodes_of_refused (h : ∃ e, decodeEntry bytes = .error e) (calls : List AppendCall)
    (hharmless : harmless) :
    ∃ entries e, Decodes bytes entries e ∧ (Faithful sequence calls entries ↔ harmless) := by
  obtain ⟨e, herror⟩ := h
  exact ⟨[], some e, .failed bytes e herror, iff_of_true (faithful_nil _ _) hharmless⟩

/-- A reader that first finds an entry that was not written there. -/
theorem exists_decodes_of_wrong {entry : WALEntry} {c : AppendCall}
    (h : decodeEntry bytes = .ok (some entry)) (hwrong : ¬ Same sequence c entry)
    (calls : List AppendCall) (hharmful : ¬ harmless) :
    ∃ entries e, Decodes bytes entries e ∧ (Faithful sequence (c :: calls) entries ↔ harmless) := by
  obtain ⟨entries, e, hrest⟩ :=
    exists_decodes (bytes.drop (WALEntryHeader.size + entry.header.length))
  exact ⟨entry :: entries, e, .entry bytes entry entries e h hrest,
    iff_of_false (fun hf => hwrong hf.1) hharmful⟩

end Reader

/-- A reader at a custom record with a changed type. -/
theorem exists_decodes_custom {c : AppendCall} {after : List AppendCall} {sequence : Nat}
    (hshort : ∀ x ∈ c :: after, x.data.length < 2 ^ 32)
    (hsequence : sequence + (c :: after).length ≤ 2 ^ 64) (hcustom : c.entryType = .custom)
    (k : Fin 8) {harmless : Prop} (hharmless : harmless) :
    ∃ entries e,
      Decodes ((c.bytes sequence).modify 0 (flipBit k) ++ logBytes (sequence + 1) after)
        entries e ∧
      (Faithful sequence (c :: after) entries ↔ harmless) := by
  rw [List.forall_mem_cons] at hshort
  rw [List.length_cons] at hsequence
  have hlength : (c.header sequence).length = c.data.length := length_header hshort.1 sequence
  have hsize := length_bytes c sequence
  refine ⟨_, none, .entry _ _ (logEntries (sequence + 1) after) none
    (decodeEntry_flip_type _ hshort.1 (by omega)) ?_, iff_of_true ⟨?_, ?_⟩ hharmless⟩
  · dsimp only
    rw [hlength, ← AppendCall.size, ← hsize, ← List.length_modify (flipBit k) (c.bytes sequence) 0,
      List.drop_left]
    exact decodes_logBytes hshort.2 (by omega)
  · exact ⟨(ofU8_flipBit c.entryType k).mpr hcustom, rfl, rfl, rfl⟩
  · exact faithful_logEntries _ _

/-- A reader at a record with a changed length. -/
theorem exists_decodes_length {c : AppendCall} {sequence o : Nat}
    (hshort : c.data.length < 2 ^ 32) (hsequence : sequence < 2 ^ 64) (hlo : 4 ≤ o) (hhi : o < 8)
    (k : Fin 8) (after : List AppendCall) {harmless : Prop}
    (hharmless : harmless ↔
      ¬ (flipNumber 4 c.data.length (o - 4) k ≤
          (c.data ++ logBytes (sequence + 1) after).length ∧
        crc32Fast ((c.data ++ logBytes (sequence + 1) after).take
          (flipNumber 4 c.data.length (o - 4) k)) = crc32Fast c.data)) :
    ∃ entries e,
      Decodes ((c.bytes sequence).modify o (flipBit k) ++ logBytes (sequence + 1) after)
        entries e ∧
      (Faithful sequence (c :: after) entries ↔ harmless) := by
  have hdecode := decodeEntry_flip_length (k := k) (logBytes (sequence + 1) after) hshort
    hsequence hlo hhi
  by_cases hbehind : (c.data ++ logBytes (sequence + 1) after).length <
      flipNumber 4 c.data.length (o - 4) k
  · rw [if_pos hbehind] at hdecode
    exact exists_decodes_of_refused ⟨_, hdecode⟩ _
      (hharmless.mpr fun h => not_lt.mpr h.1 hbehind)
  rw [if_neg hbehind] at hdecode
  by_cases hsame : crc32Fast ((c.data ++ logBytes (sequence + 1) after).take
      (flipNumber 4 c.data.length (o - 4) k)) = crc32Fast c.data
  · rw [if_neg (not_not.mpr hsame)] at hdecode
    refine exists_decodes_of_wrong hdecode (fun h => ?_) _
      fun h => hharmless.mp h ⟨not_lt.mp hbehind, hsame⟩
    have hlength := congrArg List.length h.data
    rw [List.length_take, Nat.min_eq_left (not_lt.mp hbehind)] at hlength
    exact flipNumber_ne hshort (by omega) k hlength
  · rw [if_pos hsame] at hdecode
    exact exists_decodes_of_refused ⟨_, hdecode⟩ _ (hharmless.mpr fun h => hsame h.2)

/-- **A reader at a record with a changed bit**, by where the bit lies. -/
theorem exists_decodes_flip {c : AppendCall} {after : List AppendCall} {sequence : Nat}
    (hshort : ∀ x ∈ c :: after, x.data.length < 2 ^ 32)
    (hsequence : sequence + (c :: after).length ≤ 2 ^ 64) {o : Nat} (ho : o < c.size)
    (hpadding : ¬ IsPadding o) (k : Fin 8) :
    ∃ entries e,
      Decodes ((c.bytes sequence).modify o (flipBit k) ++ logBytes (sequence + 1) after)
        entries e ∧
      (Faithful sequence (c :: after) entries ↔
        RefusedOrSame c (logBytes (sequence + 1) after) o k) := by
  have hfirst : c.data.length < 2 ^ 32 := hshort c List.mem_cons_self
  have hnumber : sequence < 2 ^ 64 := by
    rw [List.length_cons] at hsequence
    omega
  unfold RefusedOrSame
  unfold IsPadding at hpadding
  rw [WALEntryHeader.size]
  -- the byte is in the payload, or in one of the fields of the header, from the last to the first
  by_cases hpayload : 32 ≤ o
  · exact exists_decodes_of_refused (decodeEntry_flip_payload hfirst hnumber hpayload ho k _) _
      (Or.inl hpayload)
  by_cases hchecksum : 24 ≤ o
  · have hhi : o < 28 := by omega
    exact exists_decodes_of_refused (decodeEntry_flip_checksum _ hfirst hnumber hchecksum hhi) _
      (Or.inr (Or.inl ⟨hchecksum, hhi⟩))
  by_cases htime : 16 ≤ o
  · refine exists_decodes_of_wrong
      (decodeEntry_flip_timestampNs _ hfirst hnumber htime (by omega)) (fun h => ?_) _ (by omega)
    exact flipNumber_ne c.nowNs.toNat_lt (by omega) k h.timestampNs
  by_cases hseq : 8 ≤ o
  · refine exists_decodes_of_wrong
      (decodeEntry_flip_sequence _ hfirst hnumber hseq (by omega)) (fun h => ?_) _ (by omega)
    exact flipNumber_ne hnumber (by omega) k h.sequence
  by_cases hlen : 4 ≤ o
  · refine exists_decodes_length hfirst hnumber hlen (by omega) k after ?_
    rw [or_iff_right (by omega), or_iff_right (by omega), or_iff_right (by omega),
      and_iff_right ⟨hlen, by omega⟩]
  · obtain rfl : o = 0 := by omega
    by_cases hcustom : c.entryType = .custom
    · exact exists_decodes_custom hshort hsequence hcustom k
        (Or.inr (Or.inr (Or.inl ⟨rfl, hcustom⟩)))
    · refine exists_decodes_of_wrong (decodeEntry_flip_type _ hfirst hnumber) (fun h => ?_) _ ?_
      · exact hcustom ((ofU8_flipBit c.entryType k).mp h.entryType)
      · rintro (h | h | h | h)
        · omega
        · omega
        · exact hcustom h.2
        · omega

/-! ## Every bit of a log -/

/-- Every byte of a log lies in a record. -/
theorem exists_record {calls : List AppendCall} {i : Nat} (h : i < logSize calls) :
    ∃ before c after o, calls = before ++ c :: after ∧ o < c.size ∧ i = logSize before + o := by
  induction calls generalizing i with
  | nil => exact absurd h (Nat.not_lt_zero i)
  | cons c calls ih =>
      have hsize : logSize (c :: calls) = c.size + logSize calls := rfl
      by_cases hfirst : i < c.size
      · exact ⟨[], c, calls, i, rfl, hfirst, (Nat.zero_add i).symm⟩
      · have hrest : i - c.size < logSize calls := by omega
        obtain ⟨before, d, after, o, rfl, ho, hi⟩ := ih hrest
        refine ⟨c :: before, d, after, o, rfl, ho, ?_⟩
        have hbefore : logSize (c :: before) = c.size + logSize before := rfl
        omega

/-- Records are numbered on. -/
theorem logBytes_append (sequence : Nat) (before calls : List AppendCall) :
    logBytes sequence (before ++ calls) =
      logBytes sequence before ++ logBytes (sequence + before.length) calls := by
  induction before generalizing sequence with
  | nil => rfl
  | cons c before ih =>
      rw [List.cons_append, logBytes, ih, logBytes, List.append_assoc, List.length_cons,
        Nat.add_right_comm, Nat.add_assoc]

/-- **What a changed bit does.**  For every log, every byte `o` of every record outside the
padding and every bit of it: a reader of the changed log returns only what was written just
when the changed bit is noticed or does not matter. -/
theorem faithful_iff {syncInterval : Nat} {before after : List AppendCall} {c : AppendCall}
    (hshort : ∀ x ∈ before ++ c :: after, x.data.length < 2 ^ 32) {w : WALWriter}
    (happended : (WALWriter.new syncInterval).appendAll (before ++ c :: after) = some w) {o : Nat}
    (ho : o < c.size) (hpadding : ¬ IsPadding o) (k : Fin 8) :
    Faithful 0 (before ++ c :: after)
        (WALReader.new (w.file.flip (logSize before + o) k)).readAll.1 ↔
      RefusedOrSame c (logBytes (before.length + 1) after) o k := by
  have hfile := file_appendAll_new happended
  have hbound := w.file.2
  have hcount := length_le_logSize (before ++ c :: after)
  rw [← length_logBytes 0, ← hfile, List.length_append] at hcount
  have hbefore : ∀ x ∈ before, x.data.length < 2 ^ 32 := fun x hx =>
    hshort x (List.mem_append_left _ hx)
  have hafter : ∀ x ∈ c :: after, x.data.length < 2 ^ 32 := fun x hx =>
    hshort x (List.mem_append_right _ hx)
  have hnumbers : before.length + (c :: after).length ≤ 2 ^ 64 := by omega
  obtain ⟨entries, e, hdecodes, hiff⟩ := exists_decodes_flip hafter hnumbers ho hpadding k
  have hflip : (w.file.flip (logSize before + o) k).1 =
      logBytes 0 before ++
        ((c.bytes before.length).modify o (flipBit k) ++ logBytes (before.length + 1) after) := by
    have hlength := length_bytes c before.length
    change w.file.1.modify (logSize before + o) (flipBit k) = _
    rw [hfile, logBytes_append, ← length_logBytes 0 before, modify_append_right,
      Nat.zero_add, logBytes, modify_append_left (by omega)]
  have hread := readAll_of_decodes (decodes_append hbefore (by omega) hdecodes)
    (r := WALReader.new (w.file.flip (logSize before + o) k)) rfl hflip
  rw [hread, faithful_append, Nat.zero_add]
  exact hiff

/-- The theorem on a changed bit in the checksum of the first of two records. -/
theorem faithful_twoRecords :
    ∃ w, (WALWriter.new 1024).appendAll twoRecords = some w ∧
      Faithful 0 twoRecords (WALReader.new (w.file.flip 24 3)).readAll.1 := by
  obtain ⟨w, hw⟩ : ∃ w, (WALWriter.new 1024).appendAll twoRecords = some w :=
    Option.isSome_iff_exists.mp (by decide)
  have hiff := @faithful_iff 1024 [] [plainCall .heartbeat [4, 5] 20]
    (plainCall .marketData [1, 2, 3] 10) (by decide) w hw 24 (by decide) (by decide) 3
  rw [logSize, List.map_nil, List.sum_nil, Nat.zero_add] at hiff
  exact ⟨w, hw, hiff.mpr (by decide)⟩

/-- **A changed number is returned**: the log of one record, with the lowest bit of its number
changed. -/
theorem not_forall_faithful :
    ¬ ∀ (syncInterval : Nat) (before after : List AppendCall) (c : AppendCall),
      (∀ x ∈ before ++ c :: after, x.data.length < 2 ^ 32) → ∀ w : WALWriter,
      (WALWriter.new syncInterval).appendAll (before ++ c :: after) = some w →
      ∀ o < c.size, ¬ IsPadding o → ∀ k,
        Faithful 0 (before ++ c :: after)
          (WALReader.new (w.file.flip (logSize before + o) k)).readAll.1 := by
  intro h
  obtain ⟨w, hw⟩ : ∃ w, (WALWriter.new 1024).appendAll [plainCall .marketData [7] 10] = some w :=
    Option.isSome_iff_exists.mp (by decide)
  have hfaithful := h 1024 [] [] (plainCall .marketData [7] 10) (by decide) w hw 8 (by decide)
    (by decide) 0
  obtain ⟨entries, e, hdecodes, hiff⟩ : ∃ entries e,
      Decodes (((plainCall .marketData [7] 10).bytes 0).modify 8 (flipBit 0) ++ logBytes 1 [])
        entries e ∧
      (Faithful 0 [plainCall .marketData [7] 10] entries ↔
        RefusedOrSame (plainCall .marketData [7] 10) (logBytes 1 []) 8 0) :=
    exists_decodes_flip (by decide) (by decide) (by decide) (by decide) 0
  have hflip : (w.file.flip 8 0).1 =
      ((plainCall .marketData [7] 10).bytes 0).modify 8 (flipBit 0) ++ logBytes 1 [] := by
    change w.file.1.modify 8 (flipBit 0) = _
    rw [file_appendAll_new hw]
    rfl
  have hread := readAll_of_decodes hdecodes (r := WALReader.new (w.file.flip 8 0)) rfl hflip
  have hzero : logSize [] + 8 = 8 := rfl
  rw [hzero, hread] at hfaithful
  exact absurd (hiff.mp hfaithful) (by decide)

end StopTrading.Store
