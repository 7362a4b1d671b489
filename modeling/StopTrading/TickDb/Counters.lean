import StopTrading.TickDb.Writer
import StopTrading.Library.Transition

/-!
# The counters of the tick store

A run appends, flushes, closes and opens the path again; the writer that is there is
dropped first.  The position, the number of ticks and the sequence belong together
(`Consistent`) exactly as long as no batch with ticks in it is let in, no tick is written
whose synchronisation fails, and a file that is opened again has no room left
(`consistent_iff_kept`): `append_batch` does not advance the sequence, and a file that is
opened again is written on at its end and not behind its last tick.

### What is load-bearing

`Consistent` relates three counters of the writer, and three calls can part them, each in its own
way. The invariant `Inv` adds that the writer is at a file of the right shape (`Open`), because a
writer that is opened again takes its counters from the file.

Both directions are about single steps.  A step that keeps the counters keeps the invariant
(`Inv.step`); a step after which they still belong together must have kept them
(`Inv.kept_of_consistent`), since each of the three calls parts them at once if it parts them at
all.

### Design decisions

* `DbPath` has the bytes of the file and maybe a writer.  Opening drops the writer that is there,
  which flushes what it can, and reads the header of the file that is left.
* `Kept` is a condition on the state before the call and on what the operating system answers.
-/

namespace StopTrading.TickDb

open ByteFile Transition

/-- **The counters belong together.** -/
def TickDbWriter.Consistent (w : TickDbWriter) : Prop :=
  w.writePos = FileHeader.size + StoredTick.serializeSize * w.tickCount ∧
    w.sequence = w.tickCount

/-- A call on the writer of a path. -/
inductive WriterCall where
  | append (tick : StoredTick) (io : Io)
  | appendBatch (ticks : List StoredTick)
  | flush (io : Io)
  | close (io : Io)
  | reopen (config : TickDbConfig) (dropping opening : Io)
  deriving DecidableEq

/-- The file of a path and its writer, if there is one. -/
structure DbPath where
  file : List UInt8
  writer : Option TickDbWriter
  deriving DecidableEq

namespace DbPath

/-- The path after a call on its writer. -/
def ofMapped (db : MappedWriter) : DbPath := ⟨db.file, some db.writer⟩

/-- The file after the writer has been dropped. -/
def dropped (s : DbPath) (io : Io) : List UInt8 :=
  match s.writer with
  | none => s.file
  | some w => MappedWriter.drop ⟨w, s.file⟩ io

/-- `TickDbWriter::new`, if the file is `file`. -/
def opened (config : TickDbConfig) (io : Io) (file : List UInt8) : DbPath :=
  let result := TickDbWriter.new config io file
  ⟨result.1, result.2.toOption⟩

/-- One call.  Without a writer only opening does something. -/
def step [Bincode] (s : DbPath) (c : WriterCall) : Option DbPath :=
  match c, s.writer with
  | .reopen config dropping opening, _ => some (opened config opening (s.dropped dropping))
  | _, none => some s
  | .append tick io, some w => some (ofMapped (MappedWriter.append ⟨w, s.file⟩ tick io).1)
  | .appendBatch ticks, some w => some (ofMapped (MappedWriter.appendBatch ⟨w, s.file⟩ ticks).1)
  | .flush io, some w => some (ofMapped (MappedWriter.flush ⟨w, s.file⟩ io).1)
  | .close io, some w => some (ofMapped (MappedWriter.close ⟨w, s.file⟩ io).1)

/-! ## The property and the condition -/

/-- **A call keeps the counters together**, and `append` returns the index of the record that
it has written. -/
structure Sound [Bincode] (s : DbPath) (c : WriterCall) (s' : DbPath) : Prop where
  /-- The counters belong together, -/
  counters : ∀ w, s'.writer = some w → w.Consistent
  /-- and an index that is returned is that of the record. -/
  index : ∀ tick io w i, c = .append tick io → s.writer = some w →
    (MappedWriter.append ⟨w, s.file⟩ tick io).2 = .ok i →
      window s'.file (FileHeader.size + StoredTick.serializeSize * i) StoredTick.serializeSize =
        tick.serialize

/-- **What the counters survive**: a tick that is written and synchronised, a batch without
ticks, and opening a new file or a full one. -/
def Kept (s : DbPath) (c : WriterCall) (_ : DbPath) : Prop :=
  match c, s.writer with
  | .append tick io, some w =>
      MappedWriter.Admits ⟨w, s.file⟩ [tick] → (w.config.syncOnWrite && !io.flushes) = false
  | .appendBatch ticks, some w => MappedWriter.Admits ⟨w, s.file⟩ ticks → ticks = []
  | .reopen _ dropping opening, _ =>
      ∀ header, opening.opens = true → opening.maps = true →
        FileHeader.ofBytes (s.dropped dropping) = some header → header.validate = .ok () →
          (s.dropped dropping).length =
            FileHeader.size + StoredTick.serializeSize * header.tickCount.toNat
  | _, _ => True

/-- The invariant. -/
def Inv (s : DbPath) : Prop :=
  ∀ w, s.writer = some w → w.Consistent ∧ MappedWriter.Open ⟨w, s.file⟩

/-! ## Opening -/

/-- **A writer that is opened** on a new file, or on an old one. -/
theorem opened_writer {config : TickDbConfig} {io : Io} {file : List UInt8} {w : TickDbWriter}
    (h : (opened config io file).writer = some w) :
    w.mapped = true ∧ w.sequence = w.tickCount ∧
      ((file.length = 0 ∧ w.writePos = FileHeader.size ∧ w.tickCount = 0) ∨
        ∃ header, io.opens = true ∧ io.maps = true ∧ FileHeader.ofBytes file = some header ∧
          header.validate = .ok () ∧ w.writePos = file.length ∧
          w.tickCount = header.tickCount.toNat) := by
  revert h
  rw [opened, TickDbWriter.new]
  simp only [List.length_replicate]
  by_cases hopens : io.opens = true
  swap
  · rw [if_pos (by simpa using hopens)]
    nofun
  rw [if_neg (by rw [hopens]; nofun)]
  by_cases hempty : file.length = 0
  · rw [if_pos hempty]
    split_ifs
    all_goals intro h
    all_goals cases h
    exact ⟨rfl, rfl, .inl ⟨hempty, rfl, rfl⟩⟩
  · rw [if_neg hempty]
    by_cases hmaps : io.maps = true
    swap
    · rw [if_pos (by simpa using hmaps)]
      nofun
    rw [if_neg (by rw [hmaps]; nofun)]
    cases hheader : FileHeader.ofBytes file with
    | none => nofun
    | some header =>
        cases hvalid : header.validate with
        | error e =>
            intro h
            simp only [hvalid] at h
            cases h
        | ok _ =>
            intro h
            simp only [hvalid] at h
            cases h
            exact ⟨rfl, rfl, .inr ⟨header, hopens, hmaps, rfl, hvalid, rfl, rfl⟩⟩

/-- A file with a valid header is opened. -/
theorem opened_of_valid {config : TickDbConfig} {io : Io} {file : List UInt8}
    {header : FileHeader} (hopens : io.opens = true) (hmaps : io.maps = true)
    (hheader : FileHeader.ofBytes file = some header) (hvalid : header.validate = .ok ()) :
    (opened config io file).writer =
      some ⟨true, file.length, header.tickCount.toNat, header.tickCount.toNat, config, false,
        file.length⟩ := by
  have hne : file.length ≠ 0 := by
    intro hlength
    rw [List.length_eq_zero_iff.mp hlength] at hheader
    cases hheader
  rw [opened, TickDbWriter.new, if_neg (by rw [hopens]; nofun), if_neg hne,
    if_neg (by rw [hmaps]; nofun)]
  simp only [hheader, hvalid]
  rfl

/-! ## Steps -/

section Steps

variable {s s' : DbPath} {w : TickDbWriter}

/-- Ticks that are let in are all in the count. -/
theorem Inv.count_lt (inv : s.Inv) (hwriter : s.writer = some w) {ticks : List StoredTick}
    (h : MappedWriter.Admits ⟨w, s.file⟩ ticks) : w.tickCount + ticks.length < 2 ^ 64 := by
  obtain ⟨-, -, hroom⟩ := h
  have hpos := (inv w hwriter).1.1
  have hcount := Nat.le_mul_of_pos_left (w.tickCount + ticks.length)
    (by decide : 0 < StoredTick.serializeSize)
  rw [Nat.mul_add] at hcount
  simp only at hroom
  omega

/-- For an open writer the invariant speaks of it and of its file. -/
theorem inv_ofMapped {db : MappedWriter} :
    (ofMapped db).Inv ↔ db.writer.Consistent ∧ db.Open :=
  ⟨fun inv => inv db.writer rfl, fun h w hw => by cases hw; exact h⟩

/-- Opening keeps the invariant if the file is new or full. -/
theorem inv_opened {config : TickDbConfig} {io : Io} {file : List UInt8}
    (h : ∀ header, io.opens = true → io.maps = true → FileHeader.ofBytes file = some header →
      header.validate = .ok () →
        file.length = FileHeader.size + StoredTick.serializeSize * header.tickCount.toNat) :
    (opened config io file).Inv := by
  intro w hw
  obtain ⟨hmapped, hsequence, ⟨-, hpos, hcount⟩ |
    ⟨header, hopens, hmaps, hheader, hvalid, hpos, hcount⟩⟩ := opened_writer hw
  · exact ⟨⟨by rw [hpos, hcount]; rfl, hsequence⟩, fun _ => hmapped⟩
  · refine ⟨⟨?_, hsequence⟩, fun _ => hmapped⟩
    rw [hpos, hcount]
    exact h header hopens hmaps hheader hvalid

variable [Bincode]

/-- **Ticks that are written without advancing the sequence** part the counters. -/
theorem Inv.written (inv : s.Inv) (hwriter : s.writer = some w) {ticks : List StoredTick}
    (hadmits : MappedWriter.Admits ⟨w, s.file⟩ ticks) :
    (MappedWriter.written ⟨w, s.file⟩ ticks
      (MappedWriter.posAfter ⟨w, s.file⟩ ticks)).writer.Consistent ↔ ticks = [] := by
  obtain ⟨⟨hpos, hsequence⟩, -⟩ := inv w hwriter
  have hcount := inv.count_lt hwriter hadmits
  show w.writePos + _ = _ + _ * ((w.tickCount + ticks.length) % 2 ^ 64) ∧
    w.sequence = (w.tickCount + ticks.length) % 2 ^ 64 ↔ _
  rw [Nat.mod_eq_of_lt hcount, hpos, hsequence, Nat.mul_add, ← List.length_eq_zero_iff]
  omega

variable [Bincode.FixedWidth]

/-- **A tick that is let in and synchronised** is written behind the others, and its index is
returned. -/
theorem Inv.append (inv : s.Inv) (hwriter : s.writer = some w) {tick : StoredTick} {io : Io}
    (hadmits : MappedWriter.Admits ⟨w, s.file⟩ [tick])
    (hsync : (w.config.syncOnWrite && !io.flushes) = false) :
    Inv (ofMapped (MappedWriter.append ⟨w, s.file⟩ tick io).1) ∧
      (MappedWriter.append ⟨w, s.file⟩ tick io).2 = .ok w.tickCount ∧
      window (MappedWriter.append ⟨w, s.file⟩ tick io).1.file
        (FileHeader.size + StoredTick.serializeSize * w.tickCount) StoredTick.serializeSize =
          tick.serialize := by
  obtain ⟨⟨hpos, hsequence⟩, hopen⟩ := inv w hwriter
  have hcount := inv.count_lt hwriter hadmits
  rw [List.length_singleton] at hcount
  have hroom := hadmits.2.2
  simp only [List.length_singleton, Nat.mul_one] at hroom
  rw [MappedWriter.append_of_admits io hopen hadmits, if_neg (by rw [hsync]; nofun)]
  refine ⟨inv_ofMapped.mpr ⟨⟨?_, ?_⟩, hopen⟩, congrArg Except.ok hsequence, ?_⟩
  · show w.writePos + StoredTick.serializeSize * 1 = _ + _ * ((w.tickCount + 1) % 2 ^ 64)
    rw [Nat.mod_eq_of_lt hcount, hpos, Nat.mul_add, Nat.add_assoc]
  · show (w.sequence + 1) % 2 ^ 64 = (w.tickCount + 1) % 2 ^ 64
    rw [hsequence]
  · show window (splice s.file w.writePos ([tick].flatMap StoredTick.serialize)) _ _ = _
    rw [List.flatMap_singleton, ← hpos, ← tick.length_serialize, window_splice (by omega)]

/-- **A step that keeps the counters** keeps the invariant. -/
theorem Inv.step (inv : s.Inv) {c : WriterCall} (hstep : s.step c = some s')
    (hkept : s.Kept c s') : s'.Inv := by
  unfold DbPath.step at hstep
  unfold Kept at hkept
  cases hwriter : s.writer with
  | none =>
      simp only [hwriter] at hstep hkept
      cases c with
      | reopen config dropping opening =>
          cases hstep
          exact inv_opened hkept
      | append | appendBatch | flush | close =>
          cases hstep
          exact inv
  | some w =>
      simp only [hwriter] at hstep hkept
      obtain ⟨hconsistent, hopen⟩ := inv w hwriter
      cases c with
      | append tick io =>
          cases hstep
          -- a tick that is not let in changes nothing
          by_cases hadmits : MappedWriter.Admits ⟨w, s.file⟩ [tick]
          · exact (inv.append hwriter hadmits (hkept hadmits)).1
          · obtain ⟨e, herror⟩ := MappedWriter.append_of_not_admits io hadmits
            rw [herror]
            exact inv_ofMapped.mpr ⟨hconsistent, hopen⟩
      | appendBatch ticks =>
          cases hstep
          by_cases hadmits : MappedWriter.Admits ⟨w, s.file⟩ ticks
          · rw [MappedWriter.appendBatch_of_admits hopen hadmits]
            exact inv_ofMapped.mpr ⟨(inv.written hwriter hadmits).mpr (hkept hadmits), hopen⟩
          · obtain ⟨e, herror⟩ := MappedWriter.appendBatch_of_not_admits hopen hadmits
            rw [herror]
            exact inv_ofMapped.mpr ⟨hconsistent, hopen⟩
      | flush io =>
          cases hstep
          rw [inv_ofMapped, MappedWriter.Open, MappedWriter.flush_writer]
          exact ⟨hconsistent, hopen⟩
      | close io =>
          cases hstep
          obtain ⟨mapped, hclosed⟩ := MappedWriter.close_writer ⟨w, s.file⟩ io
          rw [inv_ofMapped, MappedWriter.Open, hclosed]
          exact ⟨hconsistent, nofun⟩
      | reopen config dropping opening =>
          cases hstep
          exact inv_opened hkept

/-- The index that `append` returns. -/
theorem Inv.index (inv : s.Inv) {tick : StoredTick} {io : Io}
    (hkept : s.Kept (.append tick io) s') (hwriter : s.writer = some w) {i : Nat}
    (hok : (MappedWriter.append ⟨w, s.file⟩ tick io).2 = .ok i) :
    window (MappedWriter.append ⟨w, s.file⟩ tick io).1.file
      (FileHeader.size + StoredTick.serializeSize * i) StoredTick.serializeSize =
        tick.serialize := by
  simp only [Kept, hwriter] at hkept
  by_cases hadmits : MappedWriter.Admits ⟨w, s.file⟩ [tick]
  · obtain ⟨-, hindex, hwindow⟩ := inv.append hwriter hadmits (hkept hadmits)
    obtain rfl : w.tickCount = i := Except.ok.inj (hindex.symm.trans hok)
    exact hwindow
  · obtain ⟨e, herror⟩ := MappedWriter.append_of_not_admits io hadmits
    rw [herror] at hok
    cases hok

/-- **A step that keeps the counters** is sound. -/
theorem Inv.sound (inv : s.Inv) {c : WriterCall} (hstep : s.step c = some s')
    (hkept : s.Kept c s') : s.Sound c s' := by
  refine ⟨fun w hw => (inv.step hstep hkept w hw).1, ?_⟩
  rintro tick io w i rfl hwriter hok
  have hindex := inv.index hkept hwriter hok
  simp only [DbPath.step, hwriter] at hstep
  cases hstep
  exact hindex

/-- **A step after which the counters belong together** has kept them. -/
theorem Inv.kept_of_consistent (inv : s.Inv) {c : WriterCall} (hstep : s.step c = some s')
    (h : ∀ w, s'.writer = some w → w.Consistent) : s.Kept c s' := by
  unfold Kept
  cases c with
  | append tick io =>
      cases hwriter : s.writer with
      | none => trivial
      | some w =>
          intro hadmits
          simp only [DbPath.step, hwriter] at hstep
          cases hstep
          have hconsistent := h _ rfl
          by_contra hsync
          rw [MappedWriter.append_of_admits io (inv w hwriter).2 hadmits,
            if_pos (Bool.eq_true_of_not_eq_false hsync)] at hconsistent
          exact absurd ((inv.written hwriter hadmits).mp hconsistent) nofun
  | appendBatch ticks =>
      cases hwriter : s.writer with
      | none => trivial
      | some w =>
          intro hadmits
          simp only [DbPath.step, hwriter] at hstep
          cases hstep
          have hconsistent := h _ rfl
          rw [MappedWriter.appendBatch_of_admits (inv w hwriter).2 hadmits] at hconsistent
          exact (inv.written hwriter hadmits).mp hconsistent
  | flush io => cases s.writer <;> trivial
  | close io => cases s.writer <;> trivial
  | reopen config dropping opening =>
      have hreopened : ∀ header, opening.opens = true → opening.maps = true →
          FileHeader.ofBytes (s.dropped dropping) = some header → header.validate = .ok () →
            (s.dropped dropping).length =
              FileHeader.size + StoredTick.serializeSize * header.tickCount.toNat := by
        intro header hopens hmaps hheader hvalid
        cases Option.some.inj hstep
        exact (h _ (opened_of_valid hopens hmaps hheader hvalid)).1
      cases s.writer <;> exact hreopened

end Steps

/-! ## Runs -/

/-- A path without a writer has no counters. -/
theorem inv_unopened (file : List UInt8) : Inv ⟨file, none⟩ := nofun

/-- **The counters belong together**, and every index returned is right, exactly in the runs
that keep the counters. -/
theorem sound_iff_kept [Bincode] [Bincode.FixedWidth] (file : List UInt8)
    (calls : List WriterCall) :
    AllSteps step Kept ⟨file, none⟩ calls ↔ AllSteps step Sound ⟨file, none⟩ calls :=
  allSteps_iff_of_invariant
    (fun _ _ _ (inv : Inv _) hstep (_ : True) hkept =>
      ⟨inv.step hstep hkept, inv.sound hstep hkept⟩)
    (fun _ _ _ (inv : Inv _) hstep _ hsound => inv.kept_of_consistent hstep hsound.counters) calls
    _ (inv_unopened file) (allSteps_of_forall (fun _ _ _ _ => trivial) calls _)

open LittleEndian

/-- Two ticks go into a file with room for them, one after the other. -/
theorem sound_iff_kept_twoTicks :
    let tick : StoredTick := ⟨1000, 0x40E86A0000000000, 0x3FF8000000000000, false, 0⟩
    let calls : List WriterCall := [.reopen ⟨1000, 106, true⟩ (.fine 0) (.fine 1),
      .append tick (.fine 2), .append tick (.fine 3), .flush (.fine 4)]
    (Transition.run step ⟨[], none⟩ calls).isSome = true ∧
      AllSteps step Sound ⟨[], none⟩ calls := by
  intro tick calls
  have kept : AllSteps step Kept ⟨[], none⟩ calls :=
    ⟨(fun _ _ _ hheader => by cases hheader), fun _ => Bool.and_false _, fun _ => Bool.and_false _,
      trivial, trivial⟩
  exact ⟨rfl, (sound_iff_kept [] calls).mp kept⟩

/-- **A batch of one tick** parts the counters. -/
theorem not_forall_countersSound :
    ¬ ∀ (file : List UInt8) (calls : List WriterCall), AllSteps step Sound ⟨file, none⟩ calls := by
  intro hall
  obtain ⟨-, hsound, -⟩ := hall []
    [.reopen ⟨1000, 106, false⟩ (.fine 0) (.fine 1),
      .appendBatch [⟨1000, 0x40E86A0000000000, 0x3FF8000000000000, false, 0⟩]]
  exact absurd (hsound.counters _ rfl).2 (by decide)

/-! ## A file that is opened again -/

/-- Opening an old file does not change it. -/
theorem opened_file (config : TickDbConfig) (io : Io) {file : List UInt8}
    (hold : file.length ≠ 0) : (opened config io file).file = file := by
  rw [opened, TickDbWriter.new]
  simp only [if_neg hold]
  split_ifs
  · rfl
  · rfl
  · cases FileHeader.ofBytes file with
    | none => rfl
    | some header => cases hvalid : header.validate <;> simp only [hvalid]

/-- **A file that is opened again takes no more ticks**: they would go behind its end. -/
theorem not_admits_of_opened {config : TickDbConfig} {io : Io} {file : List UInt8}
    {w : TickDbWriter} (hold : file.length ≠ 0) (h : (opened config io file).writer = some w)
    {ticks : List StoredTick} (hticks : 0 < ticks.length) :
    ¬ MappedWriter.Admits ⟨w, (opened config io file).file⟩ ticks := by
  rw [opened_file config io hold]
  obtain ⟨-, -, ⟨hnew, -⟩ | ⟨header, -, -, -, -, hpos, -⟩⟩ := opened_writer h
  · exact absurd hnew hold
  · rintro ⟨-, -, hroom⟩
    have hmore := Nat.le_mul_of_pos_left ticks.length (by decide : 0 < StoredTick.serializeSize)
    simp only [hpos] at hroom
    omega

end DbPath

end StopTrading.TickDb
