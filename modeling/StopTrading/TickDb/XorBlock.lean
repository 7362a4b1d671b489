import StopTrading.TickDb.XorLayout

/-!
# The block compressor

`XorBlockCompressor` stores a block as its first value and the xors of its neighbours, in a
common layout: every xor is shifted so that the bits between the least number of leading zeros
and the greatest number of significant bits remain.  A block is its layout and the bits in it
(`blockOf_eq_iff`), and so it determines its values exactly if the layout keeps their xors.

### What is load-bearing

`exists_blockOf_eq` opens the bit writer once: a block has the layout of its xors in its fields,
and the bits that the layout keeps in its data.  Reading those bits back gives the shifted xors
(`map_ofBits_words`), so that equality of blocks is `SameBits` of their xors, and everything else
is `TickDb.XorLayout`.

### Design decisions

`Compresses` says of the compressor that no value is lost between two blocks.  What a block keeps
of its values is a separate question, and the only one with a condition.
-/

namespace StopTrading.TickDb

open BitString MachineInt

/-! ## The bit writer -/

/-- `BitWriter`. -/
structure BitWriter where
  buffer : List Byte
  bitPosition : Nat
  currentByte : Byte
  deriving Repr, DecidableEq

namespace BitWriter

/-- `new`. -/
def new : BitWriter := ⟨[], 0, 0⟩

/-- `write_bit`. -/
def writeBit (w : BitWriter) (bit : Byte) : BitWriter :=
  let currentByte := w.currentByte <<< 1 ||| bit
  if w.bitPosition + 1 = 8 then ⟨w.buffer ++ [currentByte], 0, 0⟩
  else ⟨w.buffer, w.bitPosition + 1, currentByte⟩

/-- `((value >> i) & 1) as u8`. -/
def bitOf (value : BitVec 64) (i : Nat) : Byte := ((value >>> i) &&& 1).setWidth 8

/-- `write_u64`. -/
def writeU64 (w : BitWriter) (value : BitVec 64) : BitWriter :=
  (List.range 64).foldl (fun w i => w.writeBit (bitOf value (63 - i))) w

/-- `write_bits`. -/
def writeBits (w : BitWriter) (value : BitVec 64) (numBits : Nat) : BitWriter :=
  (List.range numBits).reverse.foldl (fun w i => w.writeBit (bitOf value i)) w

/-- `finalize`. -/
def finalize (w : BitWriter) : List Byte :=
  if 0 < w.bitPosition then w.buffer ++ [w.currentByte <<< (8 - w.bitPosition)] else w.buffer

/-- **The writer holds exactly the bits `bs`.** -/
structure Holds (w : BitWriter) (bs : List Bool) : Prop where
  /-- Less than a byte is waiting, -/
  position : w.bitPosition < 8
  /-- behind the bytes that are full. -/
  bits : stream w.buffer ++ bitsOf w.bitPosition w.currentByte.toNat = bs

/-- A new writer holds no bits. -/
theorem holds_new : new.Holds [] := ⟨by decide, rfl⟩

/-- A bit of a value, as a number. -/
theorem toNat_bitOf (value : BitVec 64) (i : Nat) :
    (bitOf value i).toNat = (value.toNat.testBit i).toNat := by
  rw [bitOf, BitVec.toNat_setWidth, BitVec.toNat_and, BitVec.toNat_ushiftRight,
    show (1 : BitVec 64).toNat = 1 from rfl, Nat.and_one_is_mod, Nat.toNat_testBit,
    Nat.shiftRight_eq_div_pow]
  omega

/-- **Writing a bit appends it.** -/
theorem Holds.writeBit {w : BitWriter} {bs : List Bool} (h : w.Holds bs) (value : BitVec 64)
    (i : Nat) : (w.writeBit (bitOf value i)).Holds (bs ++ [value.toNat.testBit i]) := by
  obtain ⟨bit, hbit⟩ : ∃ bit, value.toNat.testBit i = bit := ⟨_, rfl⟩
  have hlt : bit.toNat < 2 ^ 1 := Bool.toNat_lt bit
  have hbyte : (w.currentByte <<< 1 ||| bitOf value i).toNat =
      (2 * w.currentByte.toNat + bit.toNat) % 2 ^ 8 := by
    rw [BitVec.toNat_or, BitVec.toNat_shiftLeft, toNat_bitOf, hbit, Nat.shiftLeft_eq,
      show w.currentByte.toNat * 2 ^ 1 % 2 ^ 8 = 2 ^ 1 * (w.currentByte.toNat % 2 ^ 7) by omega,
      ← Nat.two_pow_add_eq_or_of_lt hlt]
    omega
  have hbits : bitsOf (w.bitPosition + 1) (w.currentByte <<< 1 ||| bitOf value i).toNat =
      bitsOf w.bitPosition w.currentByte.toNat ++ [bit] := by
    rw [← bitsOf_concat]
    refine bitsOf_congr ?_
    rw [hbyte, Nat.mod_mod_of_dvd _ (pow_dvd_pow 2 h.position)]
  rw [hbit, ← h.bits, List.append_assoc, ← hbits, BitWriter.writeBit]
  by_cases hfull : w.bitPosition + 1 = 8
  · rw [if_pos hfull, hfull, ← stream_concat]
    exact ⟨Nat.succ_pos 7, List.append_nil _⟩
  · rw [if_neg hfull]
    have hposition := h.position
    exact ⟨show w.bitPosition + 1 < 8 by omega, rfl⟩

/-- Writing bits appends them. -/
theorem Holds.foldl_writeBit {value : BitVec 64} (places : List Nat) :
    ∀ {w : BitWriter} {bs : List Bool}, w.Holds bs →
      (places.foldl (fun w i => w.writeBit (bitOf value i)) w).Holds
        (bs ++ places.map value.toNat.testBit) := by
  induction places with
  | nil => exact fun h => by rwa [List.map_nil, List.append_nil]
  | cons i places ih =>
      intro w bs h
      have hrest := ih (h.writeBit value i)
      rwa [List.append_assoc, List.singleton_append, ← List.map_cons] at hrest

/-- Writing some bits of a value appends them, -/
theorem Holds.writeBits {w : BitWriter} {bs : List Bool} (h : w.Holds bs) (value : BitVec 64)
    (n : Nat) : (w.writeBits value n).Holds (bs ++ bitsOf n value.toNat) := by
  rw [bitsOf_eq_map]
  exact h.foldl_writeBit _

/-- and so does writing all of them. -/
theorem Holds.writeU64 {w : BitWriter} {bs : List Bool} (h : w.Holds bs) (value : BitVec 64) :
    (w.writeU64 value).Holds (bs ++ bitsOf 64 value.toNat) := by
  have hplaces : (List.range 64).reverse = (List.range 64).map (63 - ·) := by decide
  have hbits : Holds
      (((List.range 64).map (63 - ·)).foldl (fun w i => w.writeBit (bitOf value i)) w)
      (bs ++ ((List.range 64).map (63 - ·)).map value.toNat.testBit) := h.foldl_writeBit _
  rwa [List.foldl_map, ← hplaces, ← bitsOf_eq_map] at hbits

/-- **The bytes of a writer**: its bits, and zeros up to the end of the last byte. -/
theorem Holds.stream_finalize {w : BitWriter} {bs : List Bool} (h : w.Holds bs) :
    stream w.finalize = bs ++ List.replicate ((8 - bs.length % 8) % 8) false := by
  have hposition := h.position
  have hlength : bs.length % 8 = w.bitPosition := by
    rw [← h.bits, List.length_append, length_stream, length_bitsOf]
    omega
  rw [hlength, finalize, ← h.bits]
  by_cases hopen : 0 < w.bitPosition
  · have hlast : bitsOf 8 (w.currentByte <<< (8 - w.bitPosition)).toNat =
        bitsOf w.bitPosition w.currentByte.toNat ++
          List.replicate (8 - w.bitPosition) false := by
      rw [← bitsOf_mul_two_pow, Nat.add_sub_cancel' hposition.le]
      refine bitsOf_congr ?_
      rw [BitVec.toNat_shiftLeft, Nat.shiftLeft_eq, Nat.mod_mod]
    rw [if_pos hopen, stream_concat, hlast, List.append_assoc,
      Nat.mod_eq_of_lt (show 8 - w.bitPosition < 8 by omega)]
  · rw [if_neg hopen, show w.bitPosition = 0 by omega]
    simp

end BitWriter

/-! ## The compressor -/

/-- `CompressedBlock`. -/
structure CompressedBlock where
  firstValue : BitVec 64
  leadingZeros : Nat
  significantBits : Nat
  data : List Byte
  valueCount : Nat
  deriving Repr, DecidableEq

/-- `XorBlockCompressor`. -/
structure XorBlockCompressor where
  blockSize : Nat
  values : List (BitVec 64)
  compressedBlocks : List CompressedBlock
  deriving Repr, DecidableEq

namespace XorBlockCompressor

/-- `new`. -/
def new (blockSize : Nat) : XorBlockCompressor := ⟨blockSize, [], []⟩

/-- What the first loop of `compress_block` does with a value: the previous one, the least
number of leading zeros and the greatest of significant bits are kept. -/
def measure (s : BitVec 64 × Nat × Nat) (curr : BitVec 64) : BitVec 64 × Nat × Nat :=
  let (prev, minLeading, maxSigBits) := s
  let xor := prev ^^^ curr
  if xor ≠ 0 then
    let leading := leadingZeros xor.toNat
    let trailing := trailingZeros xor.toNat
    let sigBits := 64 - leading - trailing
    (curr, min minLeading leading, max maxSigBits sigBits)
  else (curr, minLeading, maxSigBits)

/-- What the second loop does with a value. -/
def writeXor (leadingZeros significantBits : Nat) (s : BitVec 64 × BitWriter)
    (curr : BitVec 64) : BitVec 64 × BitWriter :=
  let (prev, bitWriter) := s
  let xor := prev ^^^ curr
  if 0 < significantBits then
    let shifted := xor >>> (64 - leadingZeros - significantBits)
    (curr, bitWriter.writeBits shifted significantBits)
  else (curr, bitWriter)

/-- The block that `compress_block` makes of the values it holds. -/
def blockOf (first : BitVec 64) (rest : List (BitVec 64)) : CompressedBlock :=
  let (_, minLeading, maxSigBits) := rest.foldl measure (first, 64, 0)
  let (_, bitWriter) :=
    rest.foldl (writeXor minLeading maxSigBits) (first, BitWriter.new.writeU64 first)
  ⟨first, minLeading, maxSigBits, bitWriter.finalize, rest.length + 1⟩

/-- `compress_block`. -/
def compressBlock (c : XorBlockCompressor) : XorBlockCompressor :=
  match c.values with
  | [] => c
  | first :: rest =>
      { c with values := [], compressedBlocks := c.compressedBlocks ++ [blockOf first rest] }

/-- `add_value`. -/
def addValue (c : XorBlockCompressor) (value : BitVec 64) : XorBlockCompressor :=
  let c := { c with values := c.values ++ [value] }
  if c.blockSize ≤ c.values.length then c.compressBlock else c

/-- `finalize`. -/
def finalize (c : XorBlockCompressor) : List CompressedBlock :=
  if c.values ≠ [] then c.compressBlock.compressedBlocks else c.compressedBlocks

/-- The compressor has made blocks of some of the values that were added, and holds the
others. -/
structure Compresses (c : XorBlockCompressor) (values : List (BitVec 64))
    (chunks : List (BitVec 64 × List (BitVec 64))) : Prop where
  /-- There is a block for every chunk of values, -/
  blocks : c.compressedBlocks = chunks.map fun chunk => blockOf chunk.1 chunk.2
  /-- and the chunks and what is held are all the values. -/
  values : (chunks.flatMap fun chunk => chunk.1 :: chunk.2) ++ c.values = values

/-- Making a block of what is held loses nothing. -/
theorem Compresses.compressBlock {c : XorBlockCompressor} {values : List (BitVec 64)}
    {chunks : List (BitVec 64 × List (BitVec 64))} (h : c.Compresses values chunks) :
    ∃ chunks, c.compressBlock.Compresses values chunks ∧ c.compressBlock.values = [] := by
  rw [XorBlockCompressor.compressBlock]
  cases hvalues : c.values with
  | nil => exact ⟨chunks, h, hvalues⟩
  | cons first rest =>
      refine ⟨chunks ++ [(first, rest)], ⟨?_, ?_⟩, rfl⟩
      · show c.compressedBlocks ++ [blockOf first rest] = _
        rw [h.blocks, List.map_append, List.map_singleton]
      · have hall := h.values
        rw [hvalues] at hall
        rw [List.flatMap_append, List.flatMap_singleton, List.append_nil]
        exact hall

/-- **All values get into blocks**, in order and once. -/
theorem exists_chunks (blockSize : Nat) (values : List (BitVec 64)) :
    ∃ chunks : List (BitVec 64 × List (BitVec 64)),
      (values.foldl addValue (new blockSize)).finalize =
          chunks.map (fun chunk => blockOf chunk.1 chunk.2) ∧
        chunks.flatMap (fun chunk => chunk.1 :: chunk.2) = values := by
  have hrun : ∃ chunks, (values.foldl addValue (new blockSize)).Compresses values chunks := by
    induction values using List.reverseRecOn with
    | nil => exact ⟨[], rfl, rfl⟩
    | append_singleton values value ih =>
        obtain ⟨chunks, h⟩ := ih
        rw [List.foldl_append, List.foldl_cons, List.foldl_nil, addValue]
        have hadded : Compresses { values.foldl addValue (new blockSize) with
            values := (values.foldl addValue (new blockSize)).values ++ [value] }
            (values ++ [value]) chunks :=
          ⟨h.blocks, by rw [← List.append_assoc, h.values]⟩
        simp only
        split_ifs with hfull
        · obtain ⟨chunks', h', -⟩ := hadded.compressBlock
          exact ⟨chunks', h'⟩
        · exact ⟨chunks, hadded⟩
  obtain ⟨chunks, h⟩ := hrun
  have hlast := h.values
  rw [finalize]
  by_cases hrest : (values.foldl addValue (new blockSize)).values = []
  · rw [hrest, List.append_nil] at hlast
    exact ⟨chunks, by rw [if_neg (not_not.mpr hrest), h.blocks], hlast⟩
  · obtain ⟨chunks', h', hempty⟩ := h.compressBlock
    have hall := h'.values
    rw [hempty, List.append_nil] at hall
    exact ⟨chunks', by rw [if_pos hrest, h'.blocks], hall⟩

/-- The first loop finds the layout of the xors, -/
theorem foldl_measure (xs : List (BitVec 64)) :
    ∀ {p : BitVec 64} {least most : Nat}, least ≤ 64 →
      (xs.foldl measure (p, least, most)).2 =
        (min least (minLeading (xors p xs)), max most (maxSignificant (xors p xs))) := by
  induction xs with
  | nil =>
      intro p least most hle
      rw [List.foldl_nil, xors, minLeading, maxSignificant, List.foldr_nil, List.foldr_nil,
        Nat.min_eq_left hle, Nat.max_eq_left (Nat.zero_le most)]
  | cons x xs ih =>
      intro p least most hle
      have hstep : measure (p, least, most) x =
          (x, min least (leadingZeros (x ^^^ p).toNat),
            max most (significantBits (x ^^^ p).toNat)) := by
        rw [measure, BitVec.xor_comm p x]
        by_cases hzero : x ^^^ p = 0
        · have hlead : leadingZeros (0 : BitVec 64).toNat = 64 := rfl
          have hsig : significantBits (0 : BitVec 64).toNat = 0 := significantBits_zero
          simp only [hzero, ne_eq, not_true_eq_false, if_false, hlead, hsig]
          rw [Nat.min_eq_left hle, Nat.max_eq_left (Nat.zero_le most)]
        · simp only [ne_eq, hzero, not_false_eq_true, if_true]
          rfl
      rw [List.foldl_cons, hstep, ih ((Nat.min_le_left _ _).trans hle), min_assoc, max_assoc]
      rfl

/-- and the second one writes what it keeps of them. -/
theorem holds_foldl_writeXor {L S : Nat} (xs : List (BitVec 64)) :
    ∀ {p : BitVec 64} {w : BitWriter} {bs : List Bool}, w.Holds bs →
      (xs.foldl (writeXor L S) (p, w)).2.Holds
        (bs ++ (xors p xs).flatMap fun d => bitsOf S (d.toNat / 2 ^ (64 - L - S))) := by
  induction xs with
  | nil => exact fun h => by rwa [xors, List.flatMap_nil, List.append_nil]
  | cons x xs ih =>
      intro p w bs h
      rw [List.foldl_cons, writeXor, BitVec.xor_comm p x, xors, List.flatMap_cons,
        ← List.append_assoc]
      by_cases hpos : 0 < S
      · simp only [hpos, if_true]
        refine ih ?_
        have hbits := h.writeBits ((x ^^^ p) >>> (64 - L - S)) S
        rwa [BitVec.toNat_ushiftRight, Nat.shiftRight_eq_div_pow] at hbits
      · obtain rfl : S = 0 := by omega
        simp only [hpos, if_false]
        refine ih ?_
        rwa [bitsOf_zero, List.append_nil]

/-- **A block is its layout and the bits in it.** -/
theorem exists_blockOf_eq (x : BitVec 64) (xs : List (BitVec 64)) :
    ∃ data, blockOf x xs =
      ⟨x, minLeading (xors x xs), maxSignificant (xors x xs), data, xs.length + 1⟩ ∧
      ∃ bits, bits = bitsOf 64 x.toNat ++ (xors x xs).flatMap (fun d =>
          bitsOf (maxSignificant (xors x xs)) (d.toNat / 2 ^ cut (xors x xs))) ∧
        stream data = bits ++ List.replicate ((8 - bits.length % 8) % 8) false := by
  have hmeasure : (xs.foldl measure (x, 64, 0)).2 =
      (minLeading (xors x xs), maxSignificant (xors x xs)) := by
    rw [foldl_measure xs le_rfl, Nat.min_eq_right (le_minLeading_iff.mp le_rfl).1,
      Nat.max_eq_right (Nat.zero_le _)]
  have hholds := holds_foldl_writeXor (L := minLeading (xors x xs))
    (S := maxSignificant (xors x xs)) xs (p := x) (BitWriter.holds_new.writeU64 x)
  rw [List.nil_append] at hholds
  refine ⟨_, ?_, _, rfl, hholds.stream_finalize⟩
  rw [blockOf]
  simp only [hmeasure]

/-- The bits written for the words are read back as what the layout keeps of them. -/
theorem map_ofBits_words {ds us : List (BitVec 64)} (hlead : minLeading us = minLeading ds)
    (hsig : maxSignificant us = maxSignificant ds) :
    (us.map fun d => bitsOf (maxSignificant ds) (d.toNat / 2 ^ cut ds)).map ofBits =
      us.map fun d => d.toNat / 2 ^ cut ds := by
  rw [List.map_map]
  refine List.map_congr_left fun u hu => ?_
  have hfits := fits_of_mem hu
  rw [hlead, hsig] at hfits
  rw [Function.comp_apply, ofBits_bitsOf, Nat.mod_eq_of_lt (hfits.div_lt (layout_sum ds))]

/-- **Two blocks are equal** if and only if they start with the same value and their xors look
the same. -/
theorem blockOf_eq_iff {x y : BitVec 64} {xs ys : List (BitVec 64)} :
    blockOf y ys = blockOf x xs ↔ y = x ∧ SameBits (xors x xs) (xors y ys) := by
  obtain ⟨data, hx, bits, hbits, hdata⟩ := exists_blockOf_eq x xs
  obtain ⟨data', hy, bits', hbits', hdata'⟩ := exists_blockOf_eq y ys
  obtain ⟨ds, hds⟩ : ∃ ds, xors x xs = ds := ⟨_, rfl⟩
  obtain ⟨es, hes⟩ : ∃ es, xors y ys = es := ⟨_, rfl⟩
  have hlength : xs.length = ds.length := by rw [← hds, length_xors]
  have hlength' : ys.length = es.length := by rw [← hes, length_xors]
  rw [hx, hy, hds, hes]
  rw [hds] at hbits
  rw [hes] at hbits'
  constructor
  · intro heq
    obtain ⟨rfl, hleading, hsignificant, rfl, hcount⟩ := CompressedBlock.mk.injEq .. ▸ heq
    rw [cut_congr hleading hsignificant, hsignificant] at hbits'
    rw [hdata, hbits, hbits', List.append_assoc, List.append_assoc,
      List.append_cancel_left_eq] at hdata'
    have hcode : SelfDelimiting fun d : BitVec 64 =>
        bitsOf (maxSignificant ds) (d.toNat / 2 ^ cut ds) :=
      fun d e r r' h => List.append_inj_left h (by rw [length_bitsOf, length_bitsOf])
    obtain ⟨hwords, -⟩ := hcode.flatMap_inj (by omega) hdata'
    refine ⟨rfl, hleading, hsignificant, ?_⟩
    rw [← map_ofBits_words rfl rfl, ← map_ofBits_words hleading hsignificant, hwords]
  · rintro ⟨rfl, hsame⟩
    have hbits : bits' = bits := by
      rw [hbits, hbits', cut_congr hsame.leading hsame.significant, hsame.significant,
        List.flatMap_def, List.flatMap_def]
      have hwords := congrArg (List.map (bitsOf (maxSignificant ds))) hsame.bits
      rw [List.map_map, List.map_map] at hwords
      exact congrArg (fun words => bitsOf 64 y.toNat ++ words.flatten) hwords
    have hdata : data' = data := eq_of_stream_eq (by rw [hdata, hdata', hbits])
    have hcount := congrArg List.length hsame.bits
    rw [List.length_map, List.length_map] at hcount
    rw [hsame.leading, hsame.significant, hdata, hlength, hlength', hcount]

/-- **A block determines its values** if and only if its layout keeps their xors. -/
theorem blockOf_determined_iff (first : BitVec 64) (rest : List (BitVec 64)) :
    (∀ (first' : BitVec 64) (rest' : List (BitVec 64)),
        blockOf first' rest' = blockOf first rest → first' :: rest' = first :: rest) ↔
      KeptByLayout (xors first rest) := by
  constructor
  · intro hunique
    by_contra hlost
    obtain ⟨es, hne, hsame⟩ := exists_sameBits hlost
    refine hne (forall_xors_iff.mp (fun ys hys => ?_) es hsame)
    exact (List.cons.inj (hunique first ys (blockOf_eq_iff.mpr ⟨rfl, hys⟩))).2
  · intro hkept first' rest' heq
    obtain ⟨rfl, hsame⟩ := blockOf_eq_iff.mp heq
    rw [xors_inj.mp (hkept.eq hsame)]

/-- The prices 100.0, 101.0 and 101.0 make the same block as 100.0, 101.0 and the next price
above 101.0. -/
theorem not_forall_blockOf_determined :
    ¬ ∀ (first first' : BitVec 64) (rest rest' : List (BitVec 64)),
      blockOf first' rest' = blockOf first rest → first' :: rest' = first :: rest := by
  intro hall
  have heq := hall 0x4059000000000000 0x4059000000000000 [0x4059400000000000, 0x4059400000000000]
    [0x4059400000000000, 0x4059400000000001] (by decide +kernel)
  exact absurd heq (by decide)

end XorBlockCompressor

end StopTrading.TickDb
