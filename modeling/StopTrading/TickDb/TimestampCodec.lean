import StopTrading.Library.BitBuffer
import StopTrading.Library.MachineInt

/-!
# The timestamp codec of the tick store

`GorillaTimestampCompressor` and `TimestampDecompressor`, as two state machines
over one bit stream.  The compressor stores the first timestamp raw and every
later one as the change of its delta (`dod`), in one of four classes; the
decompressor reads the classes back.

The arithmetic is that of the release profile: `i64` operations wrap.  `read_bit`
and `read_bits` fail past the last byte, and a failed read keeps the position it
reached, so `next` returns its state on every path.

`dodCode` is the word the compressor appends for one `dod`, as a list of bits;
`Holds.addTimestamp` says the compressor does append it.  The decoder's side is
`next_first`, `next_same` and `next_dod`: what a call does to the bits that
remain.

### Design decisions

* The two sides meet in a list of bits.  The compressor's side is stated with `Holds`, which a
  write extends, and the decompressor's with `remaining`, from which a read takes; neither proof
  looks into the other side's bytes.
* `next` is modelled with the state that it leaves on a failure.  A caller may go on after one,
  and the round trip speaks of all the calls that it makes.
-/

namespace StopTrading.TickDb

open BitString MachineInt

/-- Maximum number of leading zeros that can be encoded in 5 bits. -/
def maxLeadingZeros : Nat := 31

/-! ## Compressor -/

/-- `GorillaTimestampCompressor`: the previous timestamp and delta, and the bits
written so far. -/
structure GorillaTimestampCompressor where
  prevTimestamp : Nat
  prevDelta : Int
  first : Bool
  out : BitBuffer
  deriving Repr, DecidableEq

namespace GorillaTimestampCompressor

/-- `new`. -/
def new : GorillaTimestampCompressor := ⟨0, 0, true, .empty⟩

/-- The delta-of-delta branch of `add_timestamp`: what is written for `dod`. -/
def writeDod (out : BitBuffer) (dod : Int) : BitBuffer :=
  if dod = 0 then
    out.writeBit false
  else
    let out := out.writeBit true
    -- `abs` wraps at `i64::MIN`, which therefore counts as small
    if i64 dod.natAbs < 2 ^ 5 then
      (out.writeBits 0b00 2).writeBits (u64 dod &&& 0x1F) 5
    else if i64 dod.natAbs < 2 ^ 10 then
      let absDod := dod.natAbs
      let leading := min (leadingZeros (absDod ||| 1)) maxLeadingZeros
      let significantBits := 64 - leading
      ((out.writeBits 0b01 2).writeBits leading 5).writeBits absDod significantBits
    else
      let absDod := dod.natAbs
      let leading := min (leadingZeros (absDod ||| 1)) maxLeadingZeros
      let significantBits := 64 - leading
      (((out.writeBit true).writeBits leading 5).writeBits (significantBits - 1) 10).writeBits
        absDod significantBits

/-- `add_timestamp`. -/
def addTimestamp (c : GorillaTimestampCompressor) (timestamp : Nat) :
    GorillaTimestampCompressor :=
  if c.first then
    { c with
      prevTimestamp := timestamp
      out := c.out.writeBits timestamp 64
      first := false }
  else
    let delta := i64 (i64 timestamp - i64 c.prevTimestamp)
    let dod := i64 (delta - c.prevDelta)
    { c with
      out := writeDod c.out dod
      prevDelta := delta
      prevTimestamp := timestamp }

/-- `finalize`: pad to the byte boundary and return the bytes. -/
def finalize (c : GorillaTimestampCompressor) : List Byte := c.out.align.buffer

end GorillaTimestampCompressor

/-! ## Decompressor -/

/-- `TimestampDecompressor`. -/
structure TimestampDecompressor where
  input : BitReader
  prevTimestamp : Nat
  prevDelta : Int
  first : Bool
  deriving Repr, DecidableEq

namespace TimestampDecompressor

/-- `new`. -/
def new (data : List Byte) : TimestampDecompressor := ⟨⟨data, 0⟩, 0, 0, true⟩

/-- The three encodings that follow a set class bit, as `next` reads them. -/
def readDod (input : BitReader) : Option Int × BitReader :=
  match input.readBits 2 with
  | (none, input) => (none, input)
  | (some 0b00, input) =>
      -- 5-bit signed delta, sign extended
      match input.readBits 5 with
      | (none, input) => (none, input)
      | (some val, input) =>
          if val &&& 0x10 ≠ 0 then (some (i64 (val ||| (2 ^ 64 - 1 - 0x1F) : Nat)), input)
          else (some (i64 val), input)
  | (some 0b01, input) =>
      -- variable length with leading zeros
      match input.readBits 5 with
      | (none, input) => (none, input)
      | (some leading, input) =>
          match input.readBits (64 - leading) with
          | (none, input) => (none, input)
          | (some val, input) => (some (i64 val), input)
  | (some _, input) =>
      -- full 64-bit value
      match input.readBits 5 with
      | (none, input) => (none, input)
      | (some _, input) =>
          match input.readBits 10 with
          | (none, input) => (none, input)
          | (some len, input) =>
              match input.readBits (len + 1) with
              | (none, input) => (none, input)
              | (some val, input) => (some (i64 val), input)

/-- `next`: decode the next timestamp. -/
def next (d : TimestampDecompressor) : Option Nat × TimestampDecompressor :=
  if d.first then
    match d.input.readBits 64 with
    | (none, input) => (none, { d with input })
    | (some timestamp, input) =>
        (some timestamp, { d with input, prevTimestamp := timestamp, first := false })
  else
    match d.input.readBit with
    | (none, input) => (none, { d with input })
    | (some false, input) =>
        let timestamp := u64 (i64 (i64 d.prevTimestamp + d.prevDelta))
        (some timestamp, { d with input, prevTimestamp := timestamp })
    | (some true, input) =>
        match readDod input with
        | (none, input) => (none, { d with input })
        | (some dod, input) =>
            let timestamp := u64 (i64 (i64 d.prevTimestamp + dod))
            (some timestamp, { d with input, prevDelta := dod, prevTimestamp := timestamp })

/-- The results of `n` calls of `next`. -/
def nextN : Nat → TimestampDecompressor → List (Option Nat)
  | 0, _ => []
  | n + 1, d => d.next.1 :: nextN n d.next.2

end TimestampDecompressor

/-- The bytes of a timestamp series: every timestamp added in order, then
`finalize`. -/
def compressTimestamps (ts : List Nat) : List Byte :=
  (ts.foldl GorillaTimestampCompressor.addTimestamp .new).finalize

/-- **The round trip of a series**: as many calls of `next` as there were
timestamps return exactly these timestamps. -/
def TimestampRoundTrip (ts : List Nat) : Prop :=
  TimestampDecompressor.nextN ts.length (.new (compressTimestamps ts)) = ts.map some

instance (ts : List Nat) : Decidable (TimestampRoundTrip ts) := by
  unfold TimestampRoundTrip
  infer_instance

example : TimestampRoundTrip [1000, 1005, 1010, 1015] := by decide +kernel

/-! ## The code words -/

/-- The bits written for one delta-of-delta. -/
def dodCode (dod : Int) : List Bool :=
  let leading := min (leadingZeros (dod.natAbs ||| 1)) maxLeadingZeros
  if dod = 0 then [false]
  else if i64 dod.natAbs < 2 ^ 5 then true :: (bitsOf 2 0b00 ++ bitsOf 5 (u64 dod &&& 0x1F))
  else if i64 dod.natAbs < 2 ^ 10 then
    true :: (bitsOf 2 0b01 ++ (bitsOf 5 leading ++ bitsOf (64 - leading) dod.natAbs))
  else
    true :: true :: (bitsOf 5 leading ++ (bitsOf 10 (64 - leading - 1) ++
      bitsOf (64 - leading) dod.natAbs))

/-- The stream of a series after its first timestamp, from a previous delta and
timestamp. -/
def dodStream : Int → Nat → List Nat → List Bool
  | _, _, [] => []
  | d, p, t :: ts =>
      let delta := i64 (i64 t - i64 p)
      dodCode (i64 (delta - d)) ++ dodStream delta t ts

/-- One timestamp more is one word more, in front. -/
theorem dodStream_cons (d : Int) (p t : Nat) (ts : List Nat) :
    dodStream d p (t :: ts) =
      dodCode (i64 (i64 (i64 t - i64 p) - d)) ++ dodStream (i64 (i64 t - i64 p)) t ts := rfl

namespace GorillaTimestampCompressor

/-- Writing a change of the delta appends its word. -/
theorem holds_writeDod {out : BitBuffer} {bs : List Bool} (h : out.Holds bs) (dod : Int) :
    (writeDod out dod).Holds (bs ++ dodCode dod) := by
  unfold writeDod dodCode
  split
  · exact h.writeBit false
  · split
    · simpa using ((h.writeBit true).writeBits 0b00 2).writeBits (u64 dod &&& 0x1F) 5
    · split
      · simpa using (((h.writeBit true).writeBits 0b01 2).writeBits _ 5).writeBits dod.natAbs _
      · simpa using ((((h.writeBit true).writeBit true).writeBits _ 5).writeBits _ 10).writeBits
          dod.natAbs _

/-- Once the first timestamp is stored, the compressor appends `dodStream`. -/
theorem holds_foldl_addTimestamp (ts : List Nat) :
    ∀ (c : GorillaTimestampCompressor) (bs : List Bool), c.first = false → c.out.Holds bs →
      (ts.foldl addTimestamp c).out.Holds
        (bs ++ dodStream c.prevDelta c.prevTimestamp ts) := by
  induction ts with
  | nil => intro c bs _ h; simpa [dodStream] using h
  | cons t ts ih =>
      intro c bs hfirst h
      have step : c.addTimestamp t =
          ⟨t, i64 (i64 t - i64 c.prevTimestamp), false,
            writeDod c.out (i64 (i64 (i64 t - i64 c.prevTimestamp) - c.prevDelta))⟩ := by
        simp [addTimestamp, hfirst]
      have appended := holds_writeDod h (i64 (i64 (i64 t - i64 c.prevTimestamp) - c.prevDelta))
      have rest := ih (c.addTimestamp t) _ (by rw [step]) (by rw [step]; dsimp only; exact appended)
      rw [List.append_assoc, step] at rest
      dsimp only at rest
      rw [List.foldl_cons, step, dodStream_cons]
      exact rest

/-- **The bits of a compressed series**: the raw first timestamp, one code word
for each later one, and the padding of the last byte. -/
theorem stream_compressTimestamps (t : Nat) (ts : List Nat) :
    ∃ pad < 8, stream (compressTimestamps (t :: ts)) =
      bitsOf 64 t ++ (dodStream 0 t ts ++ List.replicate pad false) := by
  have hfirst : (new.addTimestamp t).out.Holds ([] ++ bitsOf 64 t) :=
    BitBuffer.holds_empty.writeBits t 64
  rw [List.nil_append] at hfirst
  have hall := holds_foldl_addTimestamp ts (new.addTimestamp t) _ rfl hfirst
  have hbits := hall.stream_align
  rw [List.append_assoc] at hbits
  exact ⟨_, Nat.mod_lt _ (by norm_num), hbits⟩

end GorillaTimestampCompressor

/-! ## What one call of `next` does -/

namespace TimestampDecompressor

/-- The first call reads the raw timestamp, -/
theorem next_first {d : TimestampDecompressor} {t : Nat} {rest : List Bool}
    (hfirst : d.first = true) (ht : t < 2 ^ 64)
    (h : d.input.remaining = bitsOf 64 t ++ rest) :
    ∃ input, d.next = (some t, ⟨input, t, d.prevDelta, false⟩) ∧ input.remaining = rest := by
  obtain ⟨input, hread, hrest⟩ := BitReader.readBits_append h (length_bitsOf 64 t)
  refine ⟨input, ?_, hrest⟩
  rw [ofBits_bitsOf, Nat.mod_mod, Nat.mod_eq_of_lt ht] at hread
  simp [next, hfirst, hread]

/-- and a zero bit repeats the delta. -/
theorem next_same {d : TimestampDecompressor} {rest : List Bool} (hfirst : d.first = false)
    (h : d.input.remaining = false :: rest) :
    ∃ input, d.next = (some (u64 (i64 d.prevTimestamp + d.prevDelta)),
        ⟨input, u64 (i64 d.prevTimestamp + d.prevDelta), d.prevDelta, false⟩) ∧
      input.remaining = rest := by
  obtain ⟨hread, hrest⟩ := BitReader.readBit_cons h
  exact ⟨_, by simp [next, hfirst, hread, u64_i64], hrest⟩

/-- A set class bit replaces the delta by the value read. -/
theorem next_dod {d : TimestampDecompressor} {rest rest' : List Bool} {dod : Int}
    (hfirst : d.first = false) (h : d.input.remaining = true :: rest)
    (hdod : ∀ input : BitReader, input.remaining = rest →
      ∃ input', readDod input = (some dod, input') ∧ input'.remaining = rest') :
    ∃ input, d.next = (some (u64 (i64 d.prevTimestamp + dod)),
        ⟨input, u64 (i64 d.prevTimestamp + dod), dod, false⟩) ∧
      input.remaining = rest' := by
  obtain ⟨hread, hrest⟩ := BitReader.readBit_cons h
  obtain ⟨input, hvalue, hrest'⟩ := hdod _ hrest
  exact ⟨input, by simp [next, hfirst, hread, hvalue, u64_i64], hrest'⟩

end TimestampDecompressor

end StopTrading.TickDb
