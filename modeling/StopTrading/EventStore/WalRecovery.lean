import StopTrading.EventStore.Wal

/-!
# Recovering a prefix of the log

After a crash the log may end anywhere.  `IsWhole` says how many records lie wholly in what
is left; these a reader returns, with the types, payloads and numbers they were written
with, and then it finds the end of the file or an error, according to whether the cut is
between two records (`readAll_truncate`).

### What is load-bearing

A cut in a record is met in one of three places: before its header, which is the end of the file;
in its header, or in its payload, which are errors.  None of them returns an entry
(`decodeEntry_take`), and everything before the cut is read as if nothing had happened, as a
reader never looks ahead.  So nothing about checksums is needed.
-/

namespace StopTrading.Store

/-- The length of some records. -/
def logSize (calls : List AppendCall) : Nat := (calls.map AppendCall.size).sum

/-- A log is as long as its records. -/
theorem length_logBytes (sequence : Nat) (calls : List AppendCall) :
    (logBytes sequence calls).length = logSize calls := by
  induction calls generalizing sequence with
  | nil => rfl
  | cons c calls ih =>
      rw [logBytes, List.length_append, length_bytes, ih]
      rfl

/-- A file of records has room for their numbers. -/
theorem length_le_logSize (calls : List AppendCall) : 32 * calls.length ≤ logSize calls := by
  induction calls with
  | nil => exact le_rfl
  | cons c calls ih =>
      have hsize : logSize (c :: calls) = c.size + logSize calls := rfl
      rw [hsize, List.length_cons, AppendCall.size, WALEntryHeader.size]
      omega

/-- **The first `k` records** are those that lie wholly before a cut. -/
structure IsWhole (calls : List AppendCall) (cut k : Nat) : Prop where
  /-- they are records of the log -/
  le : k ≤ calls.length
  /-- they end before the cut -/
  whole : logSize (calls.take k) ≤ cut
  /-- and the next one does not -/
  next : k < calls.length → cut < logSize (calls.take (k + 1))

/-- One more record in front. -/
theorem IsWhole.cons {c : AppendCall} {calls : List AppendCall} {cut k : Nat}
    (h : IsWhole calls (cut - c.size) k) (hcut : c.size ≤ cut) :
    IsWhole (c :: calls) cut (k + 1) := by
  have hsize : ∀ j, logSize ((c :: calls).take (j + 1)) = c.size + logSize (calls.take j) :=
    fun _ => rfl
  refine ⟨Nat.succ_le_succ h.le, ?_, fun hk => ?_⟩
  · have hwhole := h.whole
    rw [hsize]
    omega
  · have hnext := h.next (Nat.lt_of_succ_lt_succ hk)
    rw [hsize]
    omega

/-- **A record that is cut off is refused.** -/
theorem decodeEntry_take {c : AppendCall} {sequence cut : Nat} (hshort : c.data.length < 2 ^ 32)
    (hsequence : sequence < 2 ^ 64) (hpos : 0 < cut) (hcut : cut < c.size) :
    ∃ e, decodeEntry ((c.bytes sequence).take cut) = .error e := by
  rw [AppendCall.size] at hcut
  by_cases hheader : cut < WALEntryHeader.size
  · have hlength : ((c.bytes sequence).take cut |>.take WALEntryHeader.size).length = cut := by
      rw [List.take_take, List.length_take, length_bytes, AppendCall.size]
      omega
    refine ⟨⟨.unexpectedEof, "Incomplete header"⟩, ?_⟩
    unfold decodeEntry
    dsimp only
    rw [hlength, if_neg hpos.ne', if_pos hheader]
  · have hlength : (c.header sequence).length = c.data.length := length_header hshort sequence
    have htake : (c.bytes sequence).take cut =
        (c.header sequence).toBytes c.padding ++ c.data.take (cut - WALEntryHeader.size) := by
      rw [AppendCall.bytes, List.take_append, WALEntryHeader.length_toBytes,
        List.take_of_length_le (by rw [WALEntryHeader.length_toBytes]; omega)]
    refine ⟨⟨.unexpectedEof, "failed to fill whole buffer"⟩, ?_⟩
    rw [htake, decodeEntry_append (WALEntryHeader.length_toBytes _ _)
      (WALEntryHeader.ofBytes_toBytes (header_fits c hsequence) _), hlength]
    exact if_pos (by rw [List.length_take]; omega)

/-- By induction on the records: a cut in the first one is met at once, and a later cut is
met by the reader that stands behind the first one. -/
theorem decodes_take : ∀ (calls : List AppendCall) (sequence cut : Nat),
    (∀ c ∈ calls, c.data.length < 2 ^ 32) → sequence + calls.length ≤ 2 ^ 64 →
      cut ≤ logSize calls →
        ∃ k e, IsWhole calls cut k ∧
          Decodes ((logBytes sequence calls).take cut) ((logEntries sequence calls).take k) e ∧
          (e = none ↔ cut = logSize (calls.take k)) := by
  intro calls
  induction calls with
  | nil =>
      intro sequence cut _ _ hcut
      obtain rfl : cut = 0 := Nat.le_zero.mp hcut
      exact ⟨0, none, ⟨le_rfl, le_rfl, fun h => absurd h (lt_irrefl 0)⟩, .eof [] rfl,
        iff_of_true rfl rfl⟩
  | cons c calls ih =>
      intro sequence cut hshort hsequence hcut
      rw [List.forall_mem_cons] at hshort
      rw [List.length_cons] at hsequence
      have hnumber : sequence < 2 ^ 64 := by omega
      have hfirst : logSize ((c :: calls).take 1) = c.size := rfl
      have hlength := length_bytes c sequence
      by_cases hinside : cut < c.size
      · have hwhole : IsWhole (c :: calls) cut 0 :=
          ⟨Nat.zero_le _, Nat.zero_le _, fun _ => hfirst ▸ hinside⟩
        have htake : (logBytes sequence (c :: calls)).take cut = (c.bytes sequence).take cut := by
          rw [logBytes, List.take_append_of_le_length (by omega)]
        rcases Nat.eq_zero_or_pos cut with rfl | hpos
        · exact ⟨0, none, hwhole, .eof _ rfl, iff_of_true rfl rfl⟩
        · obtain ⟨e, herror⟩ := decodeEntry_take hshort.1 hnumber hpos hinside
          exact ⟨0, some e, hwhole, .failed _ e (htake ▸ herror),
            iff_of_false (Option.some_ne_none e) hpos.ne'⟩
      · have hsize : logSize (c :: calls) = c.size + logSize calls := rfl
        obtain ⟨k, e, hwhole, hdecodes, hend⟩ :=
          ih (sequence + 1) (cut - c.size) hshort.2 (by omega) (by omega)
        have htake : (logBytes sequence (c :: calls)).take cut =
            c.bytes sequence ++ (logBytes (sequence + 1) calls).take (cut - c.size) := by
          rw [logBytes, List.take_append, hlength, List.take_of_length_le (by omega)]
        have hk : logSize ((c :: calls).take (k + 1)) = c.size + logSize (calls.take k) := rfl
        refine ⟨k + 1, e, hwhole.cons (not_lt.mp hinside), ?_, hend.trans ?_⟩
        · rw [htake]
          exact hdecodes.cons hshort.1 hnumber
        · rw [hk]
          omega

/-- **Recovery of a prefix.**  Whatever has been appended to a new log and wherever its file
is cut, a reader returns the records that lie wholly before the cut as they were written,
and then finds the end of the file just when the cut is behind the last of them. -/
theorem readAll_truncate {syncInterval : Nat} {calls : List AppendCall}
    (hshort : ∀ c ∈ calls, c.data.length < 2 ^ 32) {w : WALWriter}
    (happended : (WALWriter.new syncInterval).appendAll calls = some w) {cut : Nat}
    (hcut : cut ≤ w.file.1.length) :
    ∃ k, IsWhole calls cut k ∧
      (WALReader.new (w.file.truncate cut)).readAll.1 = (logEntries 0 calls).take k ∧
      ((WALReader.new (w.file.truncate cut)).readAll.2 = none ↔
        cut = logSize (calls.take k)) := by
  have hfile := file_appendAll_new happended
  have hsize : w.file.1.length = logSize calls := by rw [hfile, length_logBytes]
  have hbound := w.file.2
  have hcount := length_le_logSize calls
  obtain ⟨k, e, hwhole, hdecodes, hend⟩ :=
    decodes_take calls 0 cut hshort (by omega) (hsize ▸ hcut)
  have hread : (WALReader.new (w.file.truncate cut)).readAll =
      ((logEntries 0 calls).take k, e) := by
    refine readAll_of_decodes hdecodes rfl ?_
    rw [← hfile]
    rfl
  rw [hread]
  exact ⟨k, hwhole, rfl, hend⟩

/-- An append that succeeds without a sync. -/
def plainCall (entryType : WALEntryType) (data : List UInt8) (nowNs : UInt64) : AppendCall :=
  ⟨entryType, data, nowNs, ⟨0, 0, 0, 0, 0, 0, 0⟩, none, none, none⟩

/-- Two records: of 35 and of 34 bytes. -/
def twoRecords : List AppendCall :=
  [plainCall .marketData [1, 2, 3] 10, plainCall .heartbeat [4, 5] 20]

/-- The theorem on two records of which the second has lost its last byte. -/
theorem readAll_truncate_twoRecords :
    ∃ w, (WALWriter.new 1024).appendAll twoRecords = some w ∧
      ∃ k, IsWhole twoRecords 68 k ∧
        (WALReader.new (w.file.truncate 68)).readAll.1 = (logEntries 0 twoRecords).take k ∧
        ((WALReader.new (w.file.truncate 68)).readAll.2 = none ↔
          68 = logSize (twoRecords.take k)) := by
  obtain ⟨w, hw⟩ : ∃ w, (WALWriter.new 1024).appendAll twoRecords = some w :=
    Option.isSome_iff_exists.mp (by decide)
  refine ⟨w, hw, readAll_truncate (by decide) hw ?_⟩
  rw [file_appendAll_new hw]
  decide

end StopTrading.Store
