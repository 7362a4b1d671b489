import StopTrading.Library.BitString

/-!
# Bit streams in byte buffers

A writer that sets bits in a growing byte vector and a reader that walks one,
both most significant bit first within a byte.  `BitBuffer.Holds w bs` says that
the writer has emitted exactly the bits `bs`; `BitReader.remaining r` is the
list of bits the reader has not consumed.  Every fact about a codec over these
buffers is then a fact about lists of bits:

* `Holds.writeBit`, `Holds.writeBits` — writing appends.
* `stream_align` — closing the last byte appends fewer than eight zero bits.
* `readBit_cons`, `readBits_append` — reading consumes what `remaining` starts
  with; `readBits_short` — a read past the end fails.

### What is load-bearing

`Holds` is an abstraction relation, stated bit by bit: the length and `bitAt` of the buffer
against the list.  Stating it about the bytes would force every proof about a writer to follow
how a bit is shifted into a byte.  With `Holds.writeBit` proved once, a codec is a function to
lists of bits, and two codecs are compared as lists.

The reader is kept apart from the writer on purpose.  It is given any bytes, so what it makes of
a buffer that nobody wrote is still defined; `remaining` is all that its behaviour depends on.
-/

namespace StopTrading

open BitString

/-- One byte. -/
abbrev Byte := BitVec 8

/-- Bit number `i` of a byte vector, counted from the top bit of its first byte;
past the end every bit is zero. -/
def bitAt (bytes : List Byte) (i : Nat) : Bool :=
  (bytes.getD (i / 8) 0).getLsbD (7 - i % 8)

/-- All bits of a byte vector, in order. -/
def stream (bytes : List Byte) : List Bool :=
  (List.range (8 * bytes.length)).map (bitAt bytes)

/-- Eight bits a byte. -/
@[simp] theorem length_stream (bytes : List Byte) :
    (stream bytes).length = 8 * bytes.length := by
  simp [stream]

/-- The bits of a byte vector determine it. -/
theorem eq_of_stream_eq {a b : List Byte} (h : stream a = stream b) : a = b := by
  have hlen : a.length = b.length := by
    have := congrArg List.length h
    rw [length_stream, length_stream] at this
    omega
  refine List.ext_getElem hlen fun k hka hkb => ?_
  apply BitVec.eq_of_getLsbD_eq
  intro j hj
  have hbit : bitAt a (8 * k + (7 - j)) = bitAt b (8 * k + (7 - j)) := by
    have ha : 8 * k + (7 - j) < (stream a).length := by rw [length_stream]; omega
    have hb : 8 * k + (7 - j) < (stream b).length := by rw [length_stream]; omega
    have := List.getElem_of_eq h ha
    simpa [stream] using this
  unfold bitAt at hbit
  rw [show (8 * k + (7 - j)) / 8 = k by omega, show 7 - (8 * k + (7 - j)) % 8 = j by omega,
    List.getD_eq_getElem _ _ hka, List.getD_eq_getElem _ _ hkb] at hbit
  exact hbit

/-- The bits of one more byte. -/
theorem stream_concat (bytes : List Byte) (b : Byte) :
    stream (bytes ++ [b]) = stream bytes ++ bitsOf 8 b.toNat := by
  have hbefore : ∀ i < 8 * bytes.length, bitAt (bytes ++ [b]) i = bitAt bytes i := by
    intro i hi
    unfold bitAt
    rw [List.getD_append _ _ _ _ (by omega)]
  have hlast : ∀ i < 8, bitAt (bytes ++ [b]) (8 * bytes.length + i) = b.getLsbD (7 - i) := by
    intro i hi
    unfold bitAt
    rw [show (8 * bytes.length + i) / 8 = bytes.length by omega,
      show (8 * bytes.length + i) % 8 = i by omega]
    simp
  have hbits : (List.range 8).map (bitAt (bytes ++ [b]) ∘ (8 * bytes.length + ·)) =
      (List.range 8).map fun i => b.getLsbD (7 - i) :=
    List.map_congr_left fun i hi => hlast i (List.mem_range.mp hi)
  rw [stream, stream, List.length_append, List.length_singleton, Nat.mul_add, Nat.mul_one,
    List.range_add, List.map_append, List.map_map, hbits, bitsOf_eq_map,
    List.map_congr_left fun i hi => hbefore i (List.mem_range.mp hi)]
  rfl

/-- A byte vector being written: its bytes and the position of the next bit. -/
structure BitBuffer where
  /-- the bytes; the last one may be partly written -/
  buffer : List Byte
  /-- how many bits have been written -/
  bitPosition : Nat
  deriving Repr, DecidableEq

namespace BitBuffer

/-- The empty buffer. -/
def empty : BitBuffer := ⟨[], 0⟩

/-- Write one bit, opening a zero byte when the position is at a byte boundary. -/
def writeBit (w : BitBuffer) (bit : Bool) : BitBuffer :=
  let buffer := if w.bitPosition % 8 = 0 then w.buffer ++ [0] else w.buffer
  let byteIdx := w.bitPosition / 8
  let bitIdx := 7 - w.bitPosition % 8
  { buffer := buffer.modify byteIdx (· ||| (BitVec.ofBool bit).setWidth 8 <<< bitIdx)
    bitPosition := w.bitPosition + 1 }

/-- Write the low `numBits` bits of `value`, highest first. -/
def writeBits (w : BitBuffer) (value : Nat) : Nat → BitBuffer
  | 0 => w
  | n + 1 => (w.writeBit (value.testBit n)).writeBits value n

/-- Write zero bits up to the next byte boundary; the loop runs at most seven
times. -/
def alignAux : Nat → BitBuffer → BitBuffer
  | 0, w => w
  | n + 1, w => if w.bitPosition % 8 = 0 then w else alignAux n (w.writeBit false)

/-- Close the last byte. -/
def align (w : BitBuffer) : BitBuffer := alignAux 7 w

/-- **The buffer holds exactly the bits `bs`.** -/
structure Holds (w : BitBuffer) (bs : List Bool) : Prop where
  /-- as many bits as in the list -/
  position : w.bitPosition = bs.length
  /-- in no more bytes than they need -/
  size : w.buffer.length = (bs.length + 7) / 8
  /-- and each of them, with zeros behind them -/
  bit : ∀ i, bitAt w.buffer i = bs.getD i false

/-- Nothing has been written. -/
theorem holds_empty : empty.Holds [] where
  position := rfl
  size := rfl
  bit := by intro i; simp [empty, bitAt]

/-- The byte that a position falls in exists once its byte has been opened. -/
private theorem length_opened {w : BitBuffer} {bs : List Bool} (h : w.Holds bs) :
    (if w.bitPosition % 8 = 0 then w.buffer ++ [0] else w.buffer).length =
      w.bitPosition / 8 + 1 := by
  have hp := h.position
  have hs := h.size
  split
  · rw [List.length_append, List.length_singleton]
    omega
  · omega

/-- Opening a zero byte changes no bit. -/
private theorem bitAt_opened (w : BitBuffer) (i : Nat) :
    bitAt (if w.bitPosition % 8 = 0 then w.buffer ++ [0] else w.buffer) i =
      bitAt w.buffer i := by
  split
  · unfold bitAt
    congr 1
    rw [List.getD_eq_getElem?_getD, List.getD_eq_getElem?_getD, List.getElem?_append]
    split
    · rfl
    · rename_i hlt
      rw [List.getElem?_eq_none (Nat.le_of_not_lt hlt)]
      cases i / 8 - w.buffer.length <;> rfl
  · rfl

/-- **Writing a bit appends it.** -/
theorem Holds.writeBit {w : BitBuffer} {bs : List Bool} (h : w.Holds bs) (b : Bool) :
    (w.writeBit b).Holds (bs ++ [b]) where
  position := by
    simp only [BitBuffer.writeBit, List.length_append, List.length_singleton, h.position]
  size := by
    have hp := h.position
    simp only [BitBuffer.writeBit, List.length_modify, length_opened h, List.length_append,
      List.length_singleton]
    omega
  bit := by
    intro i
    have hp := h.position
    have hopen := length_opened h
    have hold := bitAt_opened w i
    rw [h.bit i] at hold
    simp only [BitBuffer.writeBit]
    generalize (if w.bitPosition % 8 = 0 then w.buffer ++ [0] else w.buffer) = buffer
      at hopen hold
    unfold bitAt at hold ⊢
    rw [List.getD_eq_getElem?_getD] at hold ⊢
    rw [List.getElem?_modify]
    have appended : (bs ++ [b]).getD i false = if i = bs.length then b else bs.getD i false := by
      rw [List.getD_eq_getElem?_getD, List.getD_eq_getElem?_getD, List.getElem?_append]
      split <;> split <;> first | omega | skip
      · rfl
      · subst_vars; simp
      · rename_i hge hne
        rw [List.getElem?_eq_none (l := bs) (by omega),
          List.getElem?_eq_none (by simp only [List.length_singleton]; omega)]
    rw [appended]
    by_cases hbyte : w.bitPosition / 8 = i / 8
    · -- the byte that is written: one bit of it changes
      have hlt : i / 8 < buffer.length := by omega
      rw [List.getElem?_eq_getElem hlt] at hold ⊢
      simp only [hbyte, if_true, Option.map_eq_map, Option.map_some, Option.getD_some] at hold ⊢
      rw [BitVec.getLsbD_or, hold, BitVec.getLsbD_shiftLeft]
      by_cases hi : i = bs.length
      · subst hi
        have hnone : bs.getD bs.length false = false := by simp
        rw [hnone, ← hp]
        simp only [if_true, Bool.false_or]
        have : 7 - w.bitPosition % 8 < 8 := by omega
        simp [this]
      · rw [if_neg hi]
        have hne : i % 8 ≠ w.bitPosition % 8 := by omega
        have hzero : ((BitVec.ofBool b).setWidth 8).getLsbD
            (7 - i % 8 - (7 - w.bitPosition % 8)) = false ∨
            7 - i % 8 < 7 - w.bitPosition % 8 := by
          by_cases hlow : 7 - i % 8 < 7 - w.bitPosition % 8
          · exact Or.inr hlow
          · left
            have : 7 - i % 8 - (7 - w.bitPosition % 8) ≠ 0 := by omega
            simp [this]
        rcases hzero with hz | hz
        · simp [hz]
        · simp [hz]
    · -- every other byte is as it was
      have hi : i ≠ bs.length := by
        rintro rfl
        exact hbyte (by rw [hp])
      rw [if_neg hi]
      simpa [hbyte] using hold

/-- Writing bits appends them. -/
theorem Holds.writeBits {w : BitBuffer} {bs : List Bool} (h : w.Holds bs) (value n : Nat) :
    (w.writeBits value n).Holds (bs ++ bitsOf n value) := by
  induction n generalizing w bs with
  | zero => simpa [BitBuffer.writeBits] using h
  | succ n ih =>
      have := ih (h.writeBit (value.testBit n))
      rwa [List.append_assoc, List.singleton_append] at this

/-- The loop that pads needs at most as many rounds as bits are missing. -/
private theorem holds_alignAux {w : BitBuffer} :
    ∀ (n : Nat) {bs : List Bool}, w.Holds bs → (8 - bs.length % 8) % 8 ≤ n →
      (alignAux n w).Holds (bs ++ List.replicate ((8 - bs.length % 8) % 8) false) := by
  intro n
  induction n generalizing w with
  | zero =>
      intro bs h hn
      have : (8 - bs.length % 8) % 8 = 0 := by omega
      simpa [this, alignAux] using h
  | succ n ih =>
      intro bs h hn
      rw [alignAux, h.position]
      split
      · rename_i hzero
        have : (8 - bs.length % 8) % 8 = 0 := by omega
        simpa [this] using h
      · rename_i hpos
        have hlen : (bs ++ [false]).length = bs.length + 1 := by simp
        have step := ih (h.writeBit false) (by rw [hlen]; omega)
        have hpad : (8 - bs.length % 8) % 8 =
            (8 - (bs ++ [false]).length % 8) % 8 + 1 := by
          rw [hlen]; omega
        rw [hpad, List.replicate_succ]
        simpa using step

/-- Closing the last byte appends the missing zero bits. -/
theorem Holds.align {w : BitBuffer} {bs : List Bool} (h : w.Holds bs) :
    w.align.Holds (bs ++ List.replicate ((8 - bs.length % 8) % 8) false) :=
  holds_alignAux 7 h (by omega)

/-- **The bytes of a closed buffer**: the bits written, then the zero padding of
the last byte. -/
theorem Holds.stream_align {w : BitBuffer} {bs : List Bool} (h : w.Holds bs) :
    stream w.align.buffer = bs ++ List.replicate ((8 - bs.length % 8) % 8) false := by
  have hclosed := h.align
  have hsize := hclosed.size
  have hlen : (bs ++ List.replicate ((8 - bs.length % 8) % 8) false).length =
      8 * w.align.buffer.length := by
    simp only [List.length_append, List.length_replicate] at hsize ⊢
    omega
  apply List.ext_getElem
  · rw [length_stream, hlen]
  · intro i h1 h2
    simp only [stream, List.getElem_map, List.getElem_range]
    rw [hclosed.bit i, List.getD_eq_getElem _ _ h2]

end BitBuffer

/-! ## Reading -/

/-- A byte vector being read: its bytes and the position of the next bit. -/
structure BitReader where
  /-- the bytes to be read -/
  data : List Byte
  /-- how many bits have been consumed -/
  bitPosition : Nat
  deriving Repr, DecidableEq

namespace BitReader

/-- Read one bit; past the last byte there is none. -/
def readBit (r : BitReader) : Option Bool × BitReader :=
  if r.data.length * 8 ≤ r.bitPosition then (none, r)
  else (some (bitAt r.data r.bitPosition), { r with bitPosition := r.bitPosition + 1 })

/-- The accumulation loop of `readBits`: shift the 64-bit accumulator left and
put the next bit below. -/
def readBitsAux (r : BitReader) (value : Nat) : Nat → Option Nat × BitReader
  | 0 => (some value, r)
  | n + 1 =>
      match r.readBit with
      | (none, r') => (none, r')
      | (some b, r') => r'.readBitsAux ((2 * value + b.toNat) % 2 ^ 64) n

/-- Read `numBits` bits into a 64-bit word, highest first. -/
def readBits (r : BitReader) (numBits : Nat) : Option Nat × BitReader :=
  r.readBitsAux 0 numBits

/-- The bits not read yet. -/
def remaining (r : BitReader) : List Bool := (stream r.data).drop r.bitPosition

/-- Reading takes the first remaining bit. -/
theorem readBit_cons {r : BitReader} {b : Bool} {rest : List Bool}
    (h : r.remaining = b :: rest) :
    r.readBit = (some b, { r with bitPosition := r.bitPosition + 1 }) ∧
      (BitReader.mk r.data (r.bitPosition + 1)).remaining = rest := by
  have hlt : r.bitPosition < (stream r.data).length := by
    by_contra hge
    rw [remaining, List.drop_eq_nil_of_le (Nat.le_of_not_lt hge)] at h
    cases h
  have hcons := List.drop_eq_getElem_cons hlt
  rw [← remaining, h] at hcons
  obtain ⟨hb, hrest⟩ := List.cons.inj hcons
  rw [length_stream] at hlt
  refine ⟨?_, hrest.symm⟩
  rw [readBit, if_neg (by omega), hb]
  simp [stream]

/-- Where nothing remains, a read fails and does not move. -/
theorem readBit_nil {r : BitReader} (h : r.remaining = []) : r.readBit = (none, r) := by
  rw [remaining, List.drop_eq_nil_iff, length_stream] at h
  rw [readBit, if_pos (by omega)]

/-- The accumulator only matters modulo the word size. -/
private theorem foldl_mod_congr (bs : List Bool) (v m : Nat) :
    bs.foldl (fun acc b => 2 * acc + b.toNat) (v % m) % m =
      bs.foldl (fun acc b => 2 * acc + b.toNat) v % m := by
  induction bs generalizing v with
  | nil => simp
  | cons b bs ih =>
      rw [List.foldl_cons, List.foldl_cons, ← ih, ← ih (2 * v + b.toNat)]
      congr 2
      rw [Nat.add_mod, Nat.mul_mod, Nat.mod_mod, ← Nat.mul_mod, ← Nat.add_mod]

/-- The loop of `readBits`, from any accumulator: the invariant is what was shifted in. -/
private theorem readBitsAux_append {n : Nat} :
    ∀ (r : BitReader) (bs rest : List Bool) (value : Nat), r.remaining = bs ++ rest →
      bs.length = n → value < 2 ^ 64 →
      ∃ r', r.readBitsAux value n =
          (some (bs.foldl (fun acc b => 2 * acc + b.toNat) value % 2 ^ 64), r') ∧
        r'.remaining = rest := by
  induction n with
  | zero =>
      intro r bs rest value h hlen hv
      have : bs = [] := List.length_eq_zero_iff.mp hlen
      subst this
      refine ⟨r, ?_, by simpa using h⟩
      rw [readBitsAux, List.foldl_nil, Nat.mod_eq_of_lt hv]
  | succ n ih =>
      intro r bs rest value h hlen hv
      cases bs with
      | nil => simp at hlen
      | cons b bs =>
          obtain ⟨hread, hrest⟩ := readBit_cons h
          obtain ⟨r', hloop, hrem⟩ := ih _ bs rest ((2 * value + b.toNat) % 2 ^ 64) hrest
            (by simpa using hlen) (Nat.mod_lt _ (by norm_num))
          refine ⟨r', ?_, hrem⟩
          rw [readBitsAux, hread]
          simp only
          rw [hloop, List.foldl_cons]
          congr 2
          exact foldl_mod_congr _ _ _

/-- **Reading consumes a prefix** and returns its value as a 64-bit word. -/
theorem readBits_append {r : BitReader} {bs rest : List Bool} {n : Nat}
    (h : r.remaining = bs ++ rest) (hlen : bs.length = n) :
    ∃ r', r.readBits n = (some (ofBits bs % 2 ^ 64), r') ∧ r'.remaining = rest :=
  readBitsAux_append r bs rest 0 h hlen (by norm_num)

/-- The loop runs out of bits before it is done. -/
private theorem readBitsAux_short {n : Nat} :
    ∀ (r : BitReader) (value : Nat), r.remaining.length < n →
      ∃ r', r.readBitsAux value n = (none, r') := by
  induction n with
  | zero => intro r value h; simp at h
  | succ n ih =>
      intro r value h
      cases hrem : r.remaining with
      | nil => exact ⟨r, by rw [readBitsAux, readBit_nil hrem]⟩
      | cons b rest =>
          obtain ⟨hread, hrest⟩ := readBit_cons hrem
          rw [hrem, List.length_cons] at h
          obtain ⟨r', hloop⟩ := ih ⟨r.data, r.bitPosition + 1⟩ ((2 * value + b.toNat) % 2 ^ 64)
            (by rw [hrest]; omega)
          exact ⟨r', by rw [readBitsAux, hread]; exact hloop⟩

/-- A read past the end fails. -/
theorem readBits_short {r : BitReader} {n : Nat} (h : r.remaining.length < n) :
    ∃ r', r.readBits n = (none, r') :=
  readBitsAux_short r 0 h

end BitReader

end StopTrading
