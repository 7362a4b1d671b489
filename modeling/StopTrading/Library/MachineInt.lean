import Mathlib.Data.Int.Basic
import Mathlib.Data.Nat.Bitwise
import Mathlib.Tactic.Positivity
import Mathlib.Tactic.Common
import Mathlib.Tactic.NormNum

/-!
# Fixed-width integers

Unsigned machine words are natural numbers below their modulus and signed words
are integers in the two's complement range; an operation that can leave the
range is the exact operation followed by `u64` or `i64`.  Both reduce modulo
`2 ^ 64`, which is what wrapping arithmetic and the `as` casts do; saturating signed
arithmetic is followed by `saturateI64`.

`leadingZeros` and `trailingZeros` are the two bit counts of a 64-bit word, with
the value 64 at zero.

### Conventions

A word is a number together with the promise that it is in range; the promise is made where the
number is produced (`u64`, `i64`, `% 2 ^ 64`) and not carried by a type.  So exact arithmetic and
machine arithmetic live in one type, and "the machine computes the exact result" is an equation,
with the range as its hypothesis.  In definitions of narrower words the modulus is written out.
-/

namespace StopTrading.MachineInt

/-- The unsigned 64-bit word congruent to an integer. -/
def u64 (x : Int) : Nat := (x % 2 ^ 64).toNat

/-- The signed 64-bit word congruent to an integer. -/
def i64 (x : Int) : Int := Int.bmod x (2 ^ 64)

/-- The signed 64-bit word nearest to an integer: saturating arithmetic. -/
def saturateI64 (x : Int) : Int := max (-2 ^ 63) (min x (2 ^ 63 - 1))

/-- A number in range is its own word. -/
theorem u64_of_range {x : Int} (lower : 0 ≤ x) (upper : x < 2 ^ 64) : u64 x = x.toNat := by
  unfold u64
  rw [Int.emod_eq_of_lt lower upper]

/-- So is a natural number. -/
theorem u64_natCast {n : Nat} (h : n < 2 ^ 64) : u64 n = n :=
  u64_of_range (Int.natCast_nonneg n) (by omega)

/-- The same for signed words. -/
theorem i64_of_range {x : Int} (lower : -2 ^ 63 ≤ x) (upper : x < 2 ^ 63) : i64 x = x := by
  unfold i64
  rw [Int.bmod_def]
  omega

/-- A signed word is in range. -/
theorem i64_range (x : Int) : -2 ^ 63 ≤ i64 x ∧ i64 x < 2 ^ 63 := by
  unfold i64
  rw [Int.bmod_def]
  omega

/-- **Saturation**: in range, above it, or below it. -/
theorem saturateI64_cases (x : Int) :
    (-2 ^ 63 ≤ x ∧ x < 2 ^ 63 ∧ saturateI64 x = x) ∨
      (2 ^ 63 ≤ x ∧ saturateI64 x = 2 ^ 63 - 1) ∨ (x < -2 ^ 63 ∧ saturateI64 x = -2 ^ 63) := by
  unfold saturateI64
  omega

/-- The unsigned words that are negative when they are signed. -/
theorem i64_of_ge {x : Int} (lower : 2 ^ 63 ≤ x) (upper : x < 2 ^ 64 + 2 ^ 63) :
    i64 x = x - 2 ^ 64 := by
  unfold i64
  rw [Int.bmod_def]
  omega

/-- Casting a signed word to unsigned and reducing first agree. -/
theorem u64_i64 (x : Int) : u64 (i64 x) = u64 x := by
  unfold u64 i64
  rw [Int.bmod_def]
  omega

/-! ## Bit counts -/

/-- The number of zero bits above the highest set bit of a 64-bit word. -/
def leadingZeros (v : Nat) : Nat := if v = 0 then 64 else 63 - v.log2

/-- The number of zero bits below the lowest set bit of a 64-bit word. -/
def trailingZeros (v : Nat) : Nat :=
  (List.range 64).findIdx fun i => v.testBit i

/-- A number below `2 ^ k` has at least `64 - k` leading zeros. -/
theorem le_leadingZeros {v k : Nat} (h : v < 2 ^ k) : 64 - k ≤ leadingZeros v := by
  unfold leadingZeros
  split
  · omega
  · rename_i hne
    have := (Nat.log2_lt hne).mpr h
    omega

/-- The highest set bit of a nonzero word. -/
theorem leadingZeros_spec {v : Nat} (hne : v ≠ 0) (h : v < 2 ^ 64) :
    leadingZeros v ≤ 63 ∧ 2 ^ (63 - leadingZeros v) ≤ v ∧ v < 2 ^ (64 - leadingZeros v) := by
  have hlog := (Nat.log2_lt hne).mpr h
  rw [leadingZeros, if_neg hne]
  refine ⟨by omega, ?_, ?_⟩
  · rw [show 63 - (63 - v.log2) = v.log2 by omega]
    exact Nat.log2_self_le hne
  · rw [show 64 - (63 - v.log2) = v.log2 + 1 by omega]
    exact Nat.lt_log2_self

/-- Shifting a word up by `k` takes `k` leading zeros away. -/
theorem leadingZeros_mul_two_pow {v k : Nat} (hne : v ≠ 0) (h : v * 2 ^ k < 2 ^ 64) :
    leadingZeros v = leadingZeros (v * 2 ^ k) + k := by
  have hne' : v * 2 ^ k ≠ 0 := Nat.mul_ne_zero hne (by positivity)
  have hlog : (v * 2 ^ k).log2 = v.log2 + k := by
    rw [Nat.log2_eq_iff hne', pow_add, show v.log2 + k + 1 = v.log2 + 1 + k by omega, pow_add]
    exact ⟨Nat.mul_le_mul_right _ (Nat.log2_self_le hne),
      Nat.mul_lt_mul_of_pos_right Nat.lt_log2_self (by positivity)⟩
  have hlt := (Nat.log2_lt hne').mpr h
  rw [leadingZeros, leadingZeros, if_neg hne, if_neg hne', hlog]
  omega

/-- What the count says of the bits. -/
theorem trailingZeros_eq_iff {v t : Nat} (ht : t < 64) :
    trailingZeros v = t ↔ v.testBit t = true ∧ ∀ j < t, v.testBit j = false := by
  unfold trailingZeros
  rw [List.findIdx_eq (by simpa using ht)]
  simp only [List.getElem_range]

/-- The lowest set bit of a nonzero word. -/
theorem trailingZeros_spec {v : Nat} (hne : v ≠ 0) (h : v < 2 ^ 64) :
    trailingZeros v < 64 ∧ v.testBit (trailingZeros v) = true ∧
      ∀ j < trailingZeros v, v.testBit j = false := by
  have hlt : trailingZeros v < 64 := by
    have hbit : v.testBit v.log2 = true := Nat.testBit_log2 hne
    have hmem : v.log2 ∈ List.range 64 := List.mem_range.mpr ((Nat.log2_lt hne).mpr h)
    simpa [trailingZeros] using List.findIdx_lt_length_of_exists ⟨v.log2, hmem, hbit⟩
  exact ⟨hlt, (trailingZeros_eq_iff hlt).mp rfl⟩

/-- Shifting a word up by `k` adds `k` trailing zeros. -/
theorem trailingZeros_mul_two_pow {v k : Nat} (hne : v ≠ 0) (h : v * 2 ^ k < 2 ^ 64) :
    trailingZeros (v * 2 ^ k) = trailingZeros v + k := by
  have hv : v < 2 ^ 64 := lt_of_le_of_lt (Nat.le_mul_of_pos_right v (by positivity)) h
  obtain ⟨-, hbit, hlow⟩ := trailingZeros_spec hne hv
  have hlt : trailingZeros v + k < 64 := by
    by_contra hge
    have hbig : 2 ^ 64 ≤ v * 2 ^ k := by
      calc 2 ^ 64 ≤ 2 ^ (trailingZeros v + k) := Nat.pow_le_pow_right (by norm_num) (by omega)
        _ = 2 ^ trailingZeros v * 2 ^ k := pow_add _ _ _
        _ ≤ v * 2 ^ k := Nat.mul_le_mul_right _ (Nat.ge_two_pow_of_testBit hbit)
    omega
  rw [trailingZeros_eq_iff hlt]
  refine ⟨?_, fun j hj => ?_⟩
  · rw [Nat.testBit_mul_two_pow]
    simpa using hbit
  · rw [Nat.testBit_mul_two_pow]
    by_cases hjk : k ≤ j
    · simp [hlow (j - k) (by omega)]
    · simp [hjk]

/-- A word is its part above the trailing zeros, shifted back. -/
theorem shiftRight_trailingZeros {v : Nat} (hne : v ≠ 0) (h : v < 2 ^ 64) :
    (v >>> trailingZeros v) * 2 ^ trailingZeros v = v := by
  obtain ⟨-, -, hlow⟩ := trailingZeros_spec hne h
  apply Nat.eq_of_testBit_eq
  intro j
  rw [Nat.testBit_mul_two_pow, Nat.testBit_shiftRight]
  by_cases hj : trailingZeros v ≤ j
  · rw [Nat.add_sub_cancel' hj]
    simp [hj]
  · simp [hj, hlow j (by omega)]

end StopTrading.MachineInt
