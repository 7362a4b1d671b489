import StopTrading.TickDb.TimestampCodec

/-!
# Reading the code words of the timestamp codec

What the decompressor makes of each of the four classes of words.

* A word of the zero, small and medium classes is consumed whole; the
  decompressor moves by `valueRead`, which is the value in the word and not the
  previous delta plus that value.
* The class of a large word is one bit for the compressor and two for the
  decompressor, which therefore takes the length from the wrong place: it borrows
  `borrowedBits` bits from the words that follow, and the low bits of the change
  come back as high bits (`readDod_large`).
* The one change whose absolute value wraps is written as a small word
  (`dodCode_min`).

### Design decisions

`valueRead` is a function of the previous delta and of the change, so that one lemma describes a
call for the zero, small and medium classes together (`next_dodCode`).  The large class gets its
own section: there the decompressor does not read the word that was written, and its answer
depends on the words behind it.
-/

namespace StopTrading.TickDb

open BitString MachineInt

/-! ## Words below the large class -/

/-- The delta the decompressor moves by after the word for `dod`, below the
large class. -/
def valueRead (d dod : Int) : Int :=
  if dod = 0 then d
  else if dod.natAbs < 32 then (if 16 ≤ dod % 32 then dod % 32 - 32 else dod % 32)
  else dod.natAbs

/-- The word of a small change, -/
theorem dodCode_small {dod : Int} (hne : dod ≠ 0) (h : dod.natAbs < 32) :
    dodCode dod = true :: (bitsOf 2 0b00 ++ bitsOf 5 (dod % 32).toNat) := by
  have habs : i64 dod.natAbs = dod.natAbs := i64_of_range (by omega) (by omega)
  have hmask : u64 dod &&& 0x1F = (dod % 32).toNat := by
    rw [show (0x1F : Nat) = 2 ^ 5 - 1 from rfl, Nat.and_two_pow_sub_one_eq_mod]
    unfold u64
    omega
  simp only [dodCode]
  rw [if_neg hne, habs, if_pos (by omega), hmask]

/-- and that of a medium one. -/
theorem dodCode_medium {dod : Int} (hlow : 32 ≤ dod.natAbs) (h : dod.natAbs < 1024) :
    dodCode dod = true :: (bitsOf 2 0b01 ++ (bitsOf 5 31 ++ bitsOf 33 dod.natAbs)) := by
  have habs : i64 dod.natAbs = dod.natAbs := i64_of_range (by omega) (by omega)
  have hor : dod.natAbs ||| 1 < 2 ^ 10 := Nat.or_lt_two_pow (by omega) (by norm_num)
  have hlead : min (leadingZeros (dod.natAbs ||| 1)) maxLeadingZeros = 31 := by
    have := le_leadingZeros hor
    unfold maxLeadingZeros
    omega
  simp only [dodCode]
  rw [if_neg (by omega), habs, if_neg (by omega), if_pos (by omega), hlead]

namespace TimestampDecompressor

/-- Sign extension of a five-bit value. -/
theorem signExtend : ∀ v < 32,
    (if v &&& 0x10 ≠ 0 then i64 (v ||| (2 ^ 64 - 1 - 0x1F) : Nat) else i64 v) =
      if 16 ≤ v then (v : Int) - 32 else v := by
  decide

/-- A small word is read with the sign of its five bits, -/
theorem readDod_small {input : BitReader} {rest : List Bool} {v : Nat} (hv : v < 32)
    (h : input.remaining = bitsOf 2 0b00 ++ (bitsOf 5 v ++ rest)) :
    ∃ input', readDod input = (some (if 16 ≤ v then (v : Int) - 32 else v), input') ∧
      input'.remaining = rest := by
  obtain ⟨i₁, hmode, h₁⟩ := BitReader.readBits_append h (length_bitsOf 2 _)
  obtain ⟨i₂, hval, h₂⟩ := BitReader.readBits_append h₁ (length_bitsOf 5 _)
  rw [ofBits_bitsOf] at hmode hval
  have hword : v % 2 ^ 5 % 2 ^ 64 = v := by omega
  rw [hword] at hval
  refine ⟨i₂, ?_, h₂⟩
  rw [← signExtend v hv]
  simp only [readDod, show input.readBits 2 = (some 0, i₁) from hmode, hval]
  split <;> rfl

/-- and a medium one without a sign. -/
theorem readDod_medium {input : BitReader} {rest : List Bool} {v : Nat} (hv : v < 2 ^ 33)
    (h : input.remaining = bitsOf 2 0b01 ++ (bitsOf 5 31 ++ (bitsOf 33 v ++ rest))) :
    ∃ input', readDod input = (some (v : Int), input') ∧ input'.remaining = rest := by
  obtain ⟨i₁, hmode, h₁⟩ := BitReader.readBits_append h (length_bitsOf 2 _)
  obtain ⟨i₂, hlead, h₂⟩ := BitReader.readBits_append h₁ (length_bitsOf 5 _)
  obtain ⟨i₃, hval, h₃⟩ := BitReader.readBits_append h₂ (length_bitsOf 33 _)
  rw [ofBits_bitsOf] at hmode hlead hval
  have hword : v % 2 ^ 33 % 2 ^ 64 = v := by omega
  rw [hword] at hval
  refine ⟨i₃, ?_, h₃⟩
  have hrange : i64 v = v := i64_of_range (by omega) (by omega)
  simp [readDod, hmode, hlead, hval, hrange]

/-- **One call on a word below the large class** moves by `valueRead` and consumes
exactly the word. -/
theorem next_dodCode {dec : TimestampDecompressor} {dod : Int} {rest : List Bool}
    (hfirst : dec.first = false) (hclass : dod.natAbs < 1024)
    (h : dec.input.remaining = dodCode dod ++ rest) :
    ∃ input, dec.next =
        (some (u64 (i64 dec.prevTimestamp + valueRead dec.prevDelta dod)),
          ⟨input, u64 (i64 dec.prevTimestamp + valueRead dec.prevDelta dod),
            valueRead dec.prevDelta dod, false⟩) ∧
      input.remaining = rest := by
  unfold valueRead
  by_cases hzero : dod = 0
  · rw [if_pos hzero]
    subst hzero
    exact next_same hfirst h
  · rw [if_neg hzero]
    by_cases hsmall : dod.natAbs < 32
    · rw [if_pos hsmall]
      rw [dodCode_small hzero hsmall, List.cons_append, List.append_assoc] at h
      refine next_dod hfirst h fun input hinput => ?_
      obtain ⟨input', hread, hrest⟩ := readDod_small (by omega) hinput
      refine ⟨input', ?_, hrest⟩
      rw [hread]
      congr 2
      split <;> split <;> omega
    · rw [if_neg hsmall]
      rw [dodCode_medium (by omega) hclass, List.cons_append, List.append_assoc,
        List.append_assoc] at h
      refine next_dod hfirst h fun input hinput => ?_
      obtain ⟨input', hread, hrest⟩ := readDod_medium (by omega) hinput
      refine ⟨input', ?_, hrest⟩
      rw [hread, Int.natCast_natAbs]

end TimestampDecompressor

/-! ## Words of the large class -/

/-- The number of bits the compressor gives to a change of the delta. -/
def changeBits (dod : Int) : Nat :=
  64 - min (leadingZeros (dod.natAbs ||| 1)) maxLeadingZeros

/-- The bits the decompressor takes from the words that follow a large change: one
for every bit of the change, and one more if its first bit is set. -/
def borrowedBits (dod : Int) : Nat :=
  changeBits dod + (dod.natAbs.testBit (changeBits dod - 1)).toNat

/-- A large change takes between 33 and 63 bits. -/
theorem changeBits_range {dod : Int} (h : dod.natAbs < 2 ^ 63) :
    33 ≤ changeBits dod ∧ changeBits dod ≤ 63 := by
  have hor : dod.natAbs ||| 1 < 2 ^ 63 := Nat.or_lt_two_pow h (by norm_num)
  have := le_leadingZeros hor
  unfold changeBits maxLeadingZeros
  omega

/-- The word of a large change. -/
theorem dodCode_large {dod : Int} (hlow : 1024 ≤ dod.natAbs) (h : dod.natAbs < 2 ^ 63) :
    dodCode dod = true :: true :: (bitsOf 5 (64 - changeBits dod) ++
      (bitsOf 10 (changeBits dod - 1) ++ bitsOf (changeBits dod) dod.natAbs)) := by
  have habs : i64 dod.natAbs = dod.natAbs := i64_of_range (by omega) (by omega)
  have hlead : min (leadingZeros (dod.natAbs ||| 1)) maxLeadingZeros = 64 - changeBits dod := by
    unfold changeBits maxLeadingZeros
    omega
  simp only [dodCode]
  rw [if_neg (by omega), habs, if_neg (by omega), if_neg (by omega), hlead,
    show 64 - (64 - changeBits dod) = changeBits dod by have := changeBits_range h; omega]

/-- The change without an absolute value is written as a small one. -/
theorem dodCode_min : dodCode (-2 ^ 63) = true :: (bitsOf 2 0b00 ++ bitsOf 5 0) := by
  decide +kernel

namespace TimestampDecompressor

/-- On the word of a large change the decompressor finds the class in the first
bit of the length, and the length in what is left of it and the first bit of the
change. -/
theorem readDod_largeHeader {input : BitReader} {rest : List Bool} {s abs : Nat}
    (hs : 32 ≤ s ∧ s ≤ 62)
    (h : input.remaining = true :: (bitsOf 5 (63 - s) ++ (bitsOf 10 s ++
      (bitsOf (s + 1) abs ++ rest)))) :
    ∃ input' : BitReader, (readDod input).1 =
        (input'.readBits (2 * s + (abs.testBit s).toNat + 1)).1.map (fun val : Nat => i64 val) ∧
      input'.remaining = bitsOf s abs ++ rest := by
  have hregroup : input.remaining = [true, (63 - s).testBit 4] ++
      ((bitsOf 4 (63 - s) ++ [s.testBit 9]) ++
        ((bitsOf 9 s ++ [abs.testBit s]) ++ (bitsOf s abs ++ rest))) := by
    simp only [h, bitsOf_succ, List.cons_append, List.append_assoc, List.nil_append]
  obtain ⟨i₁, hmode, h₁⟩ := BitReader.readBits_append hregroup (n := 2) rfl
  obtain ⟨i₂, hskip, h₂⟩ := BitReader.readBits_append h₁ (n := 5) (by simp)
  obtain ⟨i₃, hlen, h₃⟩ := BitReader.readBits_append h₂ (n := 10) (by simp)
  have hmode' : input.readBits 2 = (some 2, i₁) ∨ input.readBits 2 = (some 3, i₁) := by
    cases hb : (63 - s).testBit 4
    · exact Or.inl (by rw [hmode, hb]; rfl)
    · exact Or.inr (by rw [hmode, hb]; rfl)
  have hlen' : i₂.readBits 10 = (some (2 * s + (abs.testBit s).toNat), i₃) := by
    have hbit := Bool.toNat_lt (abs.testBit s)
    have hone : ofBits [abs.testBit s] = (abs.testBit s).toNat := by
      cases abs.testBit s <;> rfl
    rw [hlen, ofBits_append, ofBits_bitsOf, hone, List.length_singleton]
    congr 2
    omega
  refine ⟨i₃, ?_, h₃⟩
  rcases hmode' with hmode' | hmode' <;>
  · simp only [readDod, hmode', hskip, hlen']
    cases i₃.readBits (2 * s + (abs.testBit s).toNat + 1) with
    | mk val input => cases val <;> rfl

/-- **What the decompressor reads from the word of a large change**: it borrows
bits from the words that follow, and the low bits of the change come back as high
bits. -/
theorem readDod_large {input : BitReader} {rest : List Bool} {dod v : Int}
    (h : dod.natAbs < 2 ^ 63)
    (hrem : input.remaining = true :: (bitsOf 5 (64 - changeBits dod) ++
      (bitsOf 10 (changeBits dod - 1) ++ (bitsOf (changeBits dod) dod.natAbs ++ rest))))
    (hv : (readDod input).1 = some v) :
    borrowedBits dod ≤ rest.length ∧
      u64 v / 2 ^ borrowedBits dod = dod.natAbs % 2 ^ (64 - borrowedBits dod) := by
  have hrange := changeBits_range h
  unfold borrowedBits
  obtain ⟨s, hs⟩ : ∃ s, changeBits dod = s + 1 := ⟨changeBits dod - 1, by omega⟩
  generalize dod.natAbs = abs at hrem ⊢
  rw [hs] at hrem hrange ⊢
  rw [Nat.add_sub_cancel, show 64 - (s + 1) = 63 - s by omega] at hrem
  obtain ⟨input', hread, hrest⟩ := readDod_largeHeader (by omega) hrem
  rw [hv] at hread
  obtain ⟨val, hval, rfl⟩ := Option.map_eq_some_iff.mp hread.symm
  have htop := Bool.toNat_lt (abs.testBit s)
  rw [Nat.add_sub_cancel]
  generalize hk : s + 1 + (abs.testBit s).toNat = k
  rw [show 2 * s + (abs.testBit s).toNat + 1 = s + k by omega] at hval
  have henough : k ≤ rest.length := by
    by_contra hshort
    obtain ⟨i, hnone⟩ := BitReader.readBits_short (r := input') (n := s + k)
      (by rw [hrest, List.length_append, length_bitsOf]; omega)
    rw [hnone] at hval
    cases hval
  refine ⟨henough, ?_⟩
  have hlength : (rest.take k).length = k := List.length_take_of_le henough
  have hlow := ofBits_lt (rest.take k)
  rw [hlength] at hlow
  rw [← List.take_append_drop k rest, ← List.append_assoc] at hrest
  obtain ⟨i, hsome, -⟩ := BitReader.readBits_append hrest (n := s + k)
    (by rw [List.length_append, length_bitsOf, hlength])
  rw [hsome, ofBits_append, ofBits_bitsOf, hlength] at hval
  have hword : (abs % 2 ^ s * 2 ^ k + ofBits (rest.take k)) % (2 ^ k * 2 ^ (64 - k)) = val := by
    rw [← pow_add, show k + (64 - k) = 64 by omega]
    exact Option.some.inj hval
  have hval64 : val < 2 ^ 64 := Option.some.inj hval ▸ Nat.mod_lt _ (by norm_num)
  rw [u64_i64, u64_natCast hval64, ← hword, Nat.mod_mul_right_div_self, Nat.mul_comm,
    Nat.mul_add_div (by positivity), Nat.div_eq_of_lt hlow, Nat.add_zero,
    Nat.mod_mod_of_dvd _ (Nat.pow_dvd_pow 2 (by omega))]

/-- A call after a set class bit answers with the timestamp the value read leads
to. -/
theorem next_fst {dec : TimestampDecompressor} {rest : List Bool}
    (hfirst : dec.first = false) (h : dec.input.remaining = true :: rest) :
    ∃ input : BitReader, input.remaining = rest ∧ dec.next.1 =
      (readDod input).1.map (fun dod : Int => u64 (i64 dec.prevTimestamp + dod)) := by
  obtain ⟨hread, hrest⟩ := BitReader.readBit_cons h
  refine ⟨_, hrest, ?_⟩
  simp only [next, hfirst, hread, u64_i64]
  cases readDod ⟨dec.input.data, dec.input.bitPosition + 1⟩ with
  | mk val input => cases val <;> rfl

end TimestampDecompressor

end StopTrading.TickDb
