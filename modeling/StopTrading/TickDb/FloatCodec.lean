import StopTrading.Library.BitBuffer
import StopTrading.Library.MachineInt

/-!
# The float codec of the tick store

`GorillaFloatCompressor` stores the first value raw and every later one as its
xor with the previous value: the count of leading zeros in five bits, the count
of significant bits in six, and the significant bits.  `TickCompressor` runs one
such compressor for the prices and one for the sizes.

A leading-zero count does not fit in five bits once it passes 31, and nothing
clamps it here.  Two xors that differ by a shift of 32 bits therefore get the
same word (`xorCode_mul`), and that is the only way two words agree
(`eq_of_xorWord_eq`).  A series is *determined* by its bytes exactly when none of
its xors lies in one half of the word.

Values are their 64-bit patterns (`to_bits`).

### What is load-bearing

The five bits for the leading zeros are the defect, and everything else about the format is
sound: the words delimit themselves (`selfDelimiting_xorWord`), so a stream determines its words.
What is left is which xors share a word.  A nonzero xor is its significant bits at some place;
the place is written as the count of leading zeros modulo 32; so the only other xor with the same
word has the same bits 32 places away, and there is none if they need more room than that.

### Design decisions

`significantBits` is a function on numbers and `xorWord` on words of 64 bits.  Shifts are
multiplications by a power of two in the proofs.
-/

namespace StopTrading.TickDb

open BitString MachineInt

/-! ## Compressor -/

/-- `GorillaFloatCompressor`. -/
structure GorillaFloatCompressor where
  prevValue : BitVec 64
  first : Bool
  out : BitBuffer
  deriving Repr, DecidableEq

namespace GorillaFloatCompressor

/-- `new`. -/
def new : GorillaFloatCompressor := ⟨0, true, .empty⟩

/-- The encoding of one xor in `add_value`. -/
def writeXor (out : BitBuffer) (xor : Nat) : BitBuffer :=
  if xor = 0 then
    out.writeBit false
  else
    let out := out.writeBit true
    let leading := leadingZeros xor
    let trailing := trailingZeros xor
    let significantBits := 64 - leading - trailing
    ((out.writeBits leading 5).writeBits significantBits 6).writeBits
      (xor >>> trailing) significantBits

/-- `add_value`. -/
def addValue (c : GorillaFloatCompressor) (value : BitVec 64) : GorillaFloatCompressor :=
  if c.first then
    { c with
      prevValue := value
      out := c.out.writeBits value.toNat 64
      first := false }
  else
    { c with
      out := writeXor c.out (value ^^^ c.prevValue).toNat
      prevValue := value }

/-- `finalize`. -/
def finalize (c : GorillaFloatCompressor) : List Byte := c.out.align.buffer

end GorillaFloatCompressor

/-- The bytes of a value series. -/
def compressFloats (xs : List (BitVec 64)) : List Byte :=
  (xs.foldl GorillaFloatCompressor.addValue .new).finalize

/-! ## The code words -/

/-- The number of bits between the highest and the lowest set bit. -/
def significantBits (x : Nat) : Nat := 64 - leadingZeros x - trailingZeros x

/-- The bits written for one xor. -/
def xorCode (x : Nat) : List Bool :=
  if x = 0 then [false]
  else true :: (bitsOf 5 (leadingZeros x) ++ (bitsOf 6 (significantBits x) ++
    bitsOf (significantBits x) (x >>> trailingZeros x)))

/-- The word of a 64-bit xor. -/
def xorWord (x : BitVec 64) : List Bool := xorCode x.toNat

/-- The xors of a series with their predecessors. -/
def xors : BitVec 64 → List (BitVec 64) → List (BitVec 64)
  | _, [] => []
  | p, x :: xs => (x ^^^ p) :: xors x xs

/-- There is a xor for every later value. -/
@[simp] theorem length_xors (p : BitVec 64) (xs : List (BitVec 64)) :
    (xors p xs).length = xs.length := by
  induction xs generalizing p with
  | nil => rfl
  | cons x xs ih => rw [xors, List.length_cons, ih, List.length_cons]

namespace GorillaFloatCompressor

/-- Writing one xor appends its word, -/
theorem holds_writeXor {out : BitBuffer} {bs : List Bool} (h : out.Holds bs) (x : Nat) :
    (writeXor out x).Holds (bs ++ xorCode x) := by
  unfold writeXor xorCode
  split
  · exact h.writeBit false
  · simpa [significantBits] using (((h.writeBit true).writeBits (leadingZeros x) 5).writeBits
      (significantBits x) 6).writeBits (x >>> trailingZeros x) (significantBits x)

/-- and writing a series appends the words of its xors. -/
theorem holds_foldl_addValue (xs : List (BitVec 64)) :
    ∀ (c : GorillaFloatCompressor) (bs : List Bool), c.first = false → c.out.Holds bs →
      (xs.foldl addValue c).out.Holds (bs ++ (xors c.prevValue xs).flatMap xorWord) := by
  induction xs with
  | nil => intro c bs _ h; simpa [xors] using h
  | cons x xs ih =>
      intro c bs hfirst h
      have step : c.addValue x = ⟨x, false, writeXor c.out (x ^^^ c.prevValue).toNat⟩ := by
        simp [addValue, hfirst]
      have rest := ih (c.addValue x) _ (by rw [step])
        (by rw [step]; exact holds_writeXor h (x ^^^ c.prevValue).toNat)
      rw [List.append_assoc, step] at rest
      rw [List.foldl_cons, step, xors, List.flatMap_cons]
      exact rest

/-- The buffer of a nonempty series holds the raw first value and one word for
each later one. -/
theorem holds_compress (x : BitVec 64) (xs : List (BitVec 64)) :
    ((x :: xs).foldl addValue new).out.Holds
      (bitsOf 64 x.toNat ++ (xors x xs).flatMap xorWord) := by
  have hfirst : (new.addValue x).out.Holds ([] ++ bitsOf 64 x.toNat) :=
    BitBuffer.holds_empty.writeBits x.toNat 64
  rw [List.nil_append] at hfirst
  exact holds_foldl_addValue xs (new.addValue x) _ rfl hfirst

end GorillaFloatCompressor

/-! ## When two words agree -/

/-- A nonzero word has at least one significant bit, and they hold its value. -/
theorem significantBits_spec {x : Nat} (hne : x ≠ 0) (h : x < 2 ^ 64) :
    leadingZeros x + trailingZeros x + significantBits x = 64 ∧ 0 < significantBits x ∧
      x >>> trailingZeros x < 2 ^ significantBits x := by
  obtain ⟨hlead, -, hupper⟩ := leadingZeros_spec hne h
  obtain ⟨-, hbit, -⟩ := trailingZeros_spec hne h
  have hpow : trailingZeros x < 64 - leadingZeros x := by
    have := lt_of_le_of_lt (Nat.ge_two_pow_of_testBit hbit) hupper
    exact (Nat.pow_lt_pow_iff_right (by norm_num)).mp this
  have hsum : leadingZeros x + trailingZeros x + significantBits x = 64 := by
    unfold significantBits
    omega
  refine ⟨hsum, by omega, ?_⟩
  rw [Nat.shiftRight_eq_div_pow, Nat.div_lt_iff_lt_mul (by positivity), ← pow_add,
    show significantBits x + trailingZeros x = 64 - leadingZeros x by omega]
  exact hupper

/-- The number of significant bits does not depend on the place. -/
theorem significantBits_mul_two_pow {m t : Nat} (hne : m ≠ 0) (h : m * 2 ^ t < 2 ^ 64) :
    significantBits (m * 2 ^ t) = significantBits m := by
  have hlead := leadingZeros_mul_two_pow hne h
  have htrail := trailingZeros_mul_two_pow hne h
  unfold significantBits
  omega

/-- **The fields of a word.**  Streams that start with the words of two nonzero
xors agree in the leading-zero counts modulo 32, in the significant bits and in
what follows. -/
theorem xorCode_append_inj {x y : Nat} {r r' : List Bool} (hx : x ≠ 0) (hx' : x < 2 ^ 64)
    (hy : y ≠ 0) (hy' : y < 2 ^ 64) (h : xorCode x ++ r = xorCode y ++ r') :
    leadingZeros x % 32 = leadingZeros y % 32 ∧ significantBits x = significantBits y ∧
      x >>> trailingZeros x = y >>> trailingZeros y ∧ r = r' := by
  rw [xorCode, xorCode, if_neg hx, if_neg hy] at h
  simp only [List.cons_append, List.append_assoc, List.cons_eq_cons, true_and] at h
  obtain ⟨hsumx, hposx, hvalx⟩ := significantBits_spec hx hx'
  obtain ⟨hsumy, hposy, hvaly⟩ := significantBits_spec hy hy'
  obtain ⟨hlead, h⟩ := List.append_inj h (by simp)
  obtain ⟨hsig, h⟩ := List.append_inj h (by simp)
  have hcount : significantBits x = significantBits y := by
    have := mod_eq_of_bitsOf_eq hsig
    omega
  obtain ⟨hval, hrest⟩ := List.append_inj h (by simp [hcount])
  rw [hcount] at hval hvalx
  have hvalue := mod_eq_of_bitsOf_eq hval
  rw [Nat.mod_eq_of_lt hvalx, Nat.mod_eq_of_lt hvaly] at hvalue
  exact ⟨mod_eq_of_bitsOf_eq hlead, hcount, hvalue, hrest⟩

/-- The words delimit themselves: the class bit and the two counts fix the
length. -/
theorem selfDelimiting_xorWord : SelfDelimiting xorWord := by
  intro x y r r' h
  by_cases hx : x.toNat = 0 <;> by_cases hy : y.toNat = 0
  · rw [xorWord, xorWord, hx, hy]
  · simp [xorWord, xorCode, hx, hy] at h
  · simp [xorWord, xorCode, hx, hy] at h
  · have hrest := (xorCode_append_inj hx x.isLt hy y.isLt h).2.2.2
    rw [hrest] at h
    exact List.append_cancel_right h

/-- **A shift by 32 bits keeps the word.** -/
theorem xorCode_mul {z : Nat} (hz : z ≠ 0) (h : z < 2 ^ 32) :
    xorCode (z * 2 ^ 32) = xorCode z := by
  have hlt : z * 2 ^ 32 < 2 ^ 64 := by omega
  have hlead := leadingZeros_mul_two_pow hz hlt
  have htrail := trailingZeros_mul_two_pow hz hlt
  have hsig := significantBits_mul_two_pow hz hlt
  have hval : (z * 2 ^ 32) >>> (trailingZeros z + 32) = z >>> trailingZeros z := by
    rw [Nat.add_comm, Nat.shiftRight_add, Nat.shiftRight_eq_div_pow (z * 2 ^ 32),
      Nat.mul_div_cancel _ (by positivity)]
  rw [xorCode, xorCode, if_neg hz, if_neg (by positivity), hsig, htrail, hval,
    bitsOf_congr (n := 5) (v := leadingZeros z) (w := leadingZeros (z * 2 ^ 32)) (by omega)]

/-- A xor with set bits in both halves of the word, or no set bit. -/
def BothHalves (x : BitVec 64) : Prop :=
  x = 0 ∨ (2 ^ 32 ≤ x.toNat ∧ x.toNat % 2 ^ 32 ≠ 0)

instance (x : BitVec 64) : Decidable (BothHalves x) := by
  unfold BothHalves
  infer_instance

/-- **Such a xor is the only one with its word.** -/
theorem eq_of_xorWord_eq {x y : BitVec 64} (hx : BothHalves x) (h : xorWord y = xorWord x) :
    y = x := by
  apply BitVec.eq_of_toNat_eq
  by_cases hx0 : x.toNat = 0 <;> by_cases hy0 : y.toNat = 0
  · rw [hx0, hy0]
  · simp [xorWord, xorCode, hx0, hy0] at h
  · simp [xorWord, xorCode, hx0, hy0] at h
  · obtain ⟨hlow, hhigh⟩ : 2 ^ 32 ≤ x.toNat ∧ x.toNat % 2 ^ 32 ≠ 0 := by
      rcases hx with hx | hx
      · exact absurd (by rw [hx]; rfl) hx0
      · exact hx
    have hcode : xorCode y.toNat ++ [] = xorCode x.toNat ++ [] := by simpa [xorWord] using h
    obtain ⟨hlead, hsig, hval, -⟩ := xorCode_append_inj hy0 y.isLt hx0 x.isLt hcode
    have hsumx := (significantBits_spec hx0 x.isLt).1
    have hsumy := (significantBits_spec hy0 y.isLt).1
    have hbackx := shiftRight_trailingZeros hx0 x.isLt
    have hbacky := shiftRight_trailingZeros hy0 y.isLt
    -- neither count of `x` reaches 32, so the two counts cannot differ by 32
    have hleadx : leadingZeros x.toNat < 32 := by
      by_contra hge
      have hupper := (leadingZeros_spec hx0 x.isLt).2.2
      have : 2 ^ (64 - leadingZeros x.toNat) ≤ 2 ^ 32 :=
        Nat.pow_le_pow_right (by norm_num) (by omega)
      omega
    have htrailx : trailingZeros x.toNat < 32 := by
      by_contra hge
      apply hhigh
      obtain ⟨k, hk⟩ : 2 ^ 32 ∣ x.toNat := by
        rw [← hbackx]
        exact Dvd.dvd.mul_left (pow_dvd_pow 2 (by omega)) _
      rw [hk, Nat.mul_mod_right]
    have htrail : trailingZeros y.toNat = trailingZeros x.toNat := by omega
    rw [← hbackx, ← hbacky, hval, htrail]

/-- **Every other xor shares its word** with a different one. -/
theorem exists_xorWord_eq {x : BitVec 64} (hx : ¬ BothHalves x) :
    ∃ y, y ≠ x ∧ xorWord y = xorWord x := by
  have hne : x.toNat ≠ 0 := fun h => hx (Or.inl (BitVec.eq_of_toNat_eq h))
  obtain ⟨z, hxz⟩ : ∃ z, x.toNat = z := ⟨_, rfl⟩
  have hz : z < 2 ^ 64 := hxz ▸ x.isLt
  rw [hxz] at hne
  -- the shifted number, as a word
  have word : ∀ v < 2 ^ 64, v ≠ z → xorCode v = xorCode z →
      ∃ y, y ≠ x ∧ xorWord y = xorWord x := by
    intro v hv hvz hcode
    have hv' : (BitVec.ofNat 64 v).toNat = v := by
      rw [BitVec.toNat_ofNat, Nat.mod_eq_of_lt hv]
    refine ⟨BitVec.ofNat 64 v, ?_, ?_⟩
    · rintro rfl
      exact hvz (hv'.symm.trans hxz)
    · rw [xorWord, xorWord, hv', hxz, hcode]
  by_cases hlow : z < 2 ^ 32
  · exact word (z * 2 ^ 32) (by omega) (by omega) (xorCode_mul hne hlow)
  · have hzero : z % 2 ^ 32 = 0 := by
      by_contra hmod
      exact hx (Or.inr (by rw [hxz]; exact ⟨not_lt.mp hlow, hmod⟩))
    have hback : z / 2 ^ 32 * 2 ^ 32 = z := Nat.div_mul_cancel (Nat.dvd_of_mod_eq_zero hzero)
    refine word (z / 2 ^ 32) (by omega) (by omega) ?_
    rw [← xorCode_mul (z := z / 2 ^ 32) (by omega) (by omega), hback]

end StopTrading.TickDb
