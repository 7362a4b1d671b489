import Mathlib.Data.BitVec
import Mathlib.Logic.Function.Iterate
import Mathlib.Tactic.Common

/-!
# Checksums folded from symbols

A checksum that takes one symbol at a time is a fold.  If each step is injective in the
register and in the symbol, then two strings that differ in one symbol have different
checksums, wherever the symbol stands (`foldl_ne_of_ne`): the registers differ right behind
it, and no later step can make them equal again.

The reflected cyclic redundancy check of any width is such a fold.  A bit step shifts the
register down and adds the polynomial if a one falls out; as the polynomial has its top bit
set, the top bit of the result tells whether it was added (`bitStep_injective`).

Steps are linear in exclusive or, so that a step of a byte is an entry of a table for the low
byte of the register and the rest of the register (`byteStep_eq`).  A table with wrong entries
leads away from the check by what their errors add up to, each carried through the bytes
behind it (`drift`, `foldl_tableStep`).

### What is load-bearing

Two different arguments are kept apart.  *Detection* needs only injectivity, of a step in the
register and in the symbol, and no algebra; it is about one changed symbol and says nothing about
two.  *The table* needs linearity: a register is the exclusive or of its low byte and the rest,
the rest is shifted out without meeting the polynomial, and the low byte contributes its entry.

A program with a typo in its table still computes a linear function of the errors.  `drift` is
that function; whether a wrong table gives a wrong checksum for a given string is the question
whether the errors cancel, and no weaker condition is exact.
-/

namespace StopTrading.Checksum

universe u v

section Fold

variable {S : Type u} {A : Type v} {f : S → A → S}

/-- If no step loses anything about the register, neither does the fold. -/
theorem foldl_injective (hstate : ∀ a, Function.Injective fun s => f s a) (as : List A) :
    Function.Injective fun s => as.foldl f s := by
  induction as with
  | nil => exact Function.injective_id
  | cons a as ih => exact ih.comp (hstate a)

/-- **A change of one symbol changes the checksum.** -/
theorem foldl_ne_of_ne (hstate : ∀ a, Function.Injective fun s => f s a)
    (hsymbol : ∀ s, Function.Injective (f s)) (before after : List A) {a b : A} (hne : a ≠ b)
    (s : S) : (before ++ a :: after).foldl f s ≠ (before ++ b :: after).foldl f s := by
  intro heq
  rw [List.foldl_append, List.foldl_append, List.foldl_cons, List.foldl_cons] at heq
  exact hne (hsymbol _ (foldl_injective hstate after heq))

end Fold

section Reflected

variable {w : Nat}

/-- A step of one bit. -/
def bitStep (poly crc : BitVec w) : BitVec w :=
  if crc &&& 1#w ≠ 0#w then (crc >>> 1) ^^^ poly else crc >>> 1

/-- A step of one byte. -/
def byteStep (poly crc : BitVec w) (byte : UInt8) : BitVec w :=
  (bitStep poly)^[8] (crc ^^^ byte.toBitVec.setWidth w)

/-- The bit that falls out. -/
theorem and_one_eq_zero_iff (x : BitVec w) : x &&& 1#w = 0#w ↔ x.getLsbD 0 = false := by
  constructor
  · intro hzero
    have hbit := congrArg (fun y => BitVec.getLsbD y 0) hzero
    rw [BitVec.getLsbD_and, BitVec.getLsbD_zero] at hbit
    by_contra hset
    have hone : (1#w).getLsbD 0 = true := by
      have hw : 0 < w := BitVec.lt_of_getLsbD (Bool.of_not_eq_false hset)
      simp [hw]
    rw [hone, Bool.and_true] at hbit
    exact hset hbit
  · intro hclear
    refine BitVec.eq_of_getLsbD_eq fun i hi => ?_
    by_cases hi0 : i = 0
    · simp [hi0, hclear]
    · simp [hi0]

/-- A bit step by the bit that falls out. -/
theorem bitStep_eq (poly crc : BitVec w) :
    bitStep poly crc = if crc.getLsbD 0 = true then (crc >>> 1) ^^^ poly else crc >>> 1 := by
  have hbit := and_one_eq_zero_iff crc
  unfold bitStep
  cases hlow : crc.getLsbD 0 with
  | false => exact if_neg (not_not.mpr (hbit.mpr hlow))
  | true => exact if_pos fun hzero => Bool.false_ne_true ((hbit.mp hzero).symm.trans hlow)

/-- The top bit of the result is the bit that fell out. -/
theorem msb_bitStep {poly : BitVec w} (hpoly : poly.msb = true) (crc : BitVec w) :
    (bitStep poly crc).msb = crc.getLsbD 0 := by
  have hshift : (crc >>> 1).msb = false := by
    rw [BitVec.msb_ushiftRight]
    simp
  rw [bitStep_eq]
  cases hbit : crc.getLsbD 0 with
  | false => simp [hshift]
  | true => simp [hshift, hpoly]

/-- **A bit step loses nothing** when the polynomial has its top bit set. -/
theorem bitStep_injective {poly : BitVec w} (hpoly : poly.msb = true) :
    Function.Injective (bitStep poly) := by
  intro x y heq
  have hlow : x.getLsbD 0 = y.getLsbD 0 := by
    rw [← msb_bitStep hpoly x, ← msb_bitStep hpoly y, heq]
  have hhigh : x >>> 1 = y >>> 1 := by
    rw [bitStep_eq, bitStep_eq, hlow] at heq
    cases hbit : y.getLsbD 0 with
    | false => simpa [hbit] using heq
    | true => simpa [hbit] using heq
  refine BitVec.eq_of_getLsbD_eq fun i _ => ?_
  cases i with
  | zero => exact hlow
  | succ i =>
      have hbit := congrArg (fun z => BitVec.getLsbD z i) hhigh
      simpa [BitVec.getLsbD_ushiftRight, Nat.add_comm 1 i] using hbit

/-- A byte step is injective in the register. -/
theorem byteStep_injective_register {poly : BitVec w} (hpoly : poly.msb = true) (byte : UInt8) :
    Function.Injective fun crc => byteStep poly crc byte := by
  intro x y heq
  have hxor := (bitStep_injective hpoly).iterate 8 heq
  exact (BitVec.xor_left_inj _).mp hxor

/-- A byte step is injective in the byte, when the register has room for one. -/
theorem byteStep_injective_byte {poly : BitVec w} (hpoly : poly.msb = true) (hw : 8 ≤ w)
    (crc : BitVec w) : Function.Injective (byteStep poly crc) := by
  intro a b heq
  have hxor := (bitStep_injective hpoly).iterate 8 heq
  have hwide : a.toBitVec.setWidth w = b.toBitVec.setWidth w := (BitVec.xor_right_inj _).mp hxor
  have hbyte : a.toBitVec = b.toBitVec := by
    have hnarrow := congrArg (BitVec.setWidth 8) hwide
    simpa [BitVec.setWidth_setWidth_of_le _ hw] using hnarrow
  exact UInt8.toBitVec_inj.mp hbyte

/-- **The check detects a change of one byte**, wherever it stands. -/
theorem foldl_byteStep_ne {poly : BitVec w} (hpoly : poly.msb = true) (hw : 8 ≤ w)
    (before after : List UInt8) {a b : UInt8} (hne : a ≠ b) (crc : BitVec w) :
    (before ++ a :: after).foldl (byteStep poly) crc ≠
      (before ++ b :: after).foldl (byteStep poly) crc :=
  foldl_ne_of_ne (byteStep_injective_register hpoly) (byteStep_injective_byte hpoly hw)
    before after hne crc

/-! ## Tables -/

/-- **A bit step is linear.** -/
theorem bitStep_xor (poly x y : BitVec w) :
    bitStep poly (x ^^^ y) = bitStep poly x ^^^ bitStep poly y := by
  rw [bitStep_eq, bitStep_eq, bitStep_eq, BitVec.getLsbD_xor, BitVec.ushiftRight_xor_distrib]
  cases x.getLsbD 0 <;> cases y.getLsbD 0
  · rfl
  · exact BitVec.xor_assoc _ _ _
  · show (x >>> 1 ^^^ y >>> 1) ^^^ poly = (x >>> 1 ^^^ poly) ^^^ y >>> 1
    rw [BitVec.xor_assoc, BitVec.xor_comm (y >>> 1), ← BitVec.xor_assoc]
  · show x >>> 1 ^^^ y >>> 1 = (x >>> 1 ^^^ poly) ^^^ (y >>> 1 ^^^ poly)
    rw [BitVec.xor_assoc, ← BitVec.xor_assoc poly, BitVec.xor_comm poly (y >>> 1),
      BitVec.xor_assoc (y >>> 1), BitVec.xor_self, BitVec.xor_zero]

/-- So are several. -/
theorem iterate_bitStep_xor (poly : BitVec w) (n : Nat) (x y : BitVec w) :
    (bitStep poly)^[n] (x ^^^ y) = (bitStep poly)^[n] x ^^^ (bitStep poly)^[n] y := by
  induction n generalizing x y with
  | zero => rfl
  | succ n ih => rw [Function.iterate_succ_apply, bitStep_xor, ih]; rfl

/-- As long as only zeros fall out, the register is shifted. -/
theorem iterate_bitStep_of_low {poly x : BitVec w} {n : Nat}
    (h : ∀ i < n, x.getLsbD i = false) : (bitStep poly)^[n] x = x >>> n := by
  induction n with
  | zero => exact (BitVec.ushiftRight_zero x).symm
  | succ n ih =>
      have hbit : (x >>> n).getLsbD 0 = false := by
        rw [BitVec.getLsbD_ushiftRight]
        exact h n (Nat.lt_succ_self n)
      rw [Function.iterate_succ_apply', ih fun i hi => h i (by omega), bitStep_eq, hbit,
        if_neg Bool.false_ne_true, ← BitVec.shiftRight_add]

/-- The entry for a byte in the table of a polynomial. -/
def byteEntry (poly : BitVec w) (i : BitVec 8) : BitVec w := (bitStep poly)^[8] (i.setWidth w)

/-- A step of one byte by a table. -/
def tableStep (entry : BitVec 8 → BitVec w) (crc : BitVec w) (byte : UInt8) : BitVec w :=
  entry ((crc ^^^ byte.toBitVec.setWidth w).setWidth 8) ^^^ (crc >>> 8)

/-- **A byte step is a table step.** -/
theorem byteStep_eq (hw : 8 ≤ w) (poly crc : BitVec w) (byte : UInt8) :
    byteStep poly crc byte = tableStep (byteEntry poly) crc byte := by
  obtain ⟨x, hx⟩ : ∃ x, crc ^^^ byte.toBitVec.setWidth w = x := ⟨_, rfl⟩
  have hhigh : crc >>> 8 = x >>> 8 := by
    refine BitVec.eq_of_getLsbD_eq fun i _ => ?_
    rw [← hx, BitVec.getLsbD_ushiftRight, BitVec.getLsbD_ushiftRight, BitVec.getLsbD_xor,
      BitVec.getLsbD_setWidth, BitVec.getLsbD_of_ge byte.toBitVec (8 + i) (by omega),
      Bool.and_false, Bool.xor_false]
  -- the register is its low byte and the rest
  obtain ⟨low, hlow⟩ : ∃ low, (x.setWidth 8).setWidth w = low := ⟨_, rfl⟩
  have hbit : ∀ i, low.getLsbD i = (decide (i < 8) && x.getLsbD i) := by
    intro i
    rw [← hlow, BitVec.getLsbD_setWidth, BitVec.getLsbD_setWidth]
    by_cases hi : i < 8
    · simp [hi, show i < w by omega]
    · simp [hi]
  have hrest : (bitStep poly)^[8] (low ^^^ x) = x >>> 8 := by
    rw [iterate_bitStep_of_low]
    · refine BitVec.eq_of_getLsbD_eq fun i _ => ?_
      rw [BitVec.getLsbD_ushiftRight, BitVec.getLsbD_ushiftRight, BitVec.getLsbD_xor, hbit,
        decide_eq_false (by omega), Bool.false_and, Bool.false_xor]
    · intro i hi
      rw [BitVec.getLsbD_xor, hbit]
      simp [hi]
  have hsplit : x = low ^^^ (low ^^^ x) := by
    rw [← BitVec.xor_assoc, BitVec.xor_self, BitVec.zero_xor]
  rw [byteStep, tableStep, hx, hhigh, byteEntry, hlow, ← hrest, ← iterate_bitStep_xor, ← hsplit]

section Errors

variable (poly : BitVec w) (entry : BitVec 8 → BitVec w)

/-- What is wrong with an entry. -/
def entryError (i : BitVec 8) : BitVec w := entry i ^^^ byteEntry poly i

/-- **The error of a register** behind some bytes: that of each entry that is looked up,
carried through the bytes behind it. -/
def drift : BitVec w → BitVec w → List UInt8 → BitVec w
  | _, error, [] => error
  | crc, error, byte :: bytes =>
      drift (byteStep poly crc byte)
        ((bitStep poly)^[8] error ^^^
          entryError poly entry ((crc ^^^ error ^^^ byte.toBitVec.setWidth w).setWidth 8)) bytes

variable {poly entry}

/-- A table step is a byte step and the error of the entry. -/
theorem tableStep_eq (hw : 8 ≤ w) (crc : BitVec w) (byte : UInt8) :
    tableStep entry crc byte = byteStep poly crc byte ^^^
      entryError poly entry ((crc ^^^ byte.toBitVec.setWidth w).setWidth 8) := by
  rw [byteStep_eq hw, tableStep, tableStep, entryError]
  obtain ⟨i, -⟩ : ∃ i, (crc ^^^ byte.toBitVec.setWidth w).setWidth 8 = i := ⟨_, rfl⟩
  rw [BitVec.xor_comm (byteEntry poly _) (crc >>> 8), BitVec.xor_comm (entry _) (byteEntry _ _),
    ← BitVec.xor_assoc, BitVec.xor_assoc (crc >>> 8), BitVec.xor_self, BitVec.xor_zero,
    BitVec.xor_comm]

/-- **What a table computes** differs from the check by the error. -/
theorem foldl_tableStep (hw : 8 ≤ w) (bytes : List UInt8) (crc error : BitVec w) :
    bytes.foldl (tableStep entry) (crc ^^^ error) =
      bytes.foldl (byteStep poly) crc ^^^ drift poly entry crc error bytes := by
  induction bytes generalizing crc error with
  | nil => rfl
  | cons byte bytes ih =>
      have hcarry : byteStep poly (crc ^^^ error) byte =
          byteStep poly crc byte ^^^ (bitStep poly)^[8] error := by
        rw [byteStep, byteStep, BitVec.xor_assoc, BitVec.xor_comm error, ← BitVec.xor_assoc,
          iterate_bitStep_xor]
      rw [List.foldl_cons, List.foldl_cons, drift, ← ih, tableStep_eq hw, hcarry,
        BitVec.xor_assoc]

/-- **A right table computes the check**, and so does one whose wrong entries are not met. -/
theorem drift_eq_zero (bytes : List UInt8) (crc : BitVec w)
    (h : ∀ before byte after, bytes = before ++ byte :: after →
      entryError poly entry
        ((before.foldl (byteStep poly) crc ^^^ byte.toBitVec.setWidth w).setWidth 8) = 0#w) :
    drift poly entry crc 0#w bytes = 0#w := by
  induction bytes generalizing crc with
  | nil => rfl
  | cons byte bytes ih =>
      have hzero : (bitStep poly)^[8] (0#w) = 0#w := by
        rw [iterate_bitStep_of_low fun i _ => BitVec.getLsbD_zero]
        exact BitVec.zero_ushiftRight
      have hfirst := h [] byte bytes rfl
      rw [List.foldl_nil] at hfirst
      rw [drift, BitVec.xor_zero, hfirst, hzero, BitVec.xor_zero]
      refine ih _ fun before byte' after heq => ?_
      exact h (byte :: before) byte' after (by rw [heq, List.cons_append])

end Errors

end Reflected

end StopTrading.Checksum
