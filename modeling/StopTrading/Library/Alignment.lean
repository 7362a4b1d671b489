import Mathlib.Data.Nat.Bitwise
import Mathlib.Tactic.Common

/-!
# Rounding up to a power of two

`alignUp x align` is the mask expression by which allocators round an address up:
`(x + align - 1) & !(align - 1)`.  For a power of two, and a sum that does not leave the
word, it is a multiple of `align` from `x` on (`le_alignUp`, `dvd_alignUp`).

### Why a power of two

`!(align - 1)` is a mask of high ones only if `align - 1` is a mask of low ones.  Clearing the
low `k` bits is then rounding down to a multiple of `2 ^ k` (`toNat_and_not`), and everything
else is arithmetic of quotients.  For another `align` the expression is defined and means
nothing; the hypothesis is what a client has to establish.
-/

namespace StopTrading.Alignment

variable {w : Nat}

/-- `(x + align - 1) & !(align - 1)`. -/
def alignUp (x align : BitVec w) : BitVec w := (x + align - 1#w) &&& ~~~(align - 1#w)

/-- **Clearing the low bits** of a word. -/
theorem toNat_and_not {mask : BitVec w} {k : Nat} (hmask : mask.toNat = 2 ^ k - 1)
    (x : BitVec w) : (x &&& ~~~mask).toNat = x.toNat / 2 ^ k * 2 ^ k := by
  apply Nat.eq_of_testBit_eq
  intro i
  have hlow : mask.getLsbD i = decide (i < k) := by
    rw [BitVec.getLsbD, hmask, Nat.testBit_two_pow_sub_one]
  rw [BitVec.testBit_toNat, BitVec.getLsbD_and, BitVec.getLsbD_not, hlow,
    Nat.testBit_mul_two_pow, Nat.testBit_div_two_pow]
  by_cases hi : k ≤ i
  · rw [Nat.sub_add_cancel hi, BitVec.testBit_toNat, decide_eq_true hi, Bool.true_and,
      decide_eq_false (Nat.not_lt_of_le hi)]
    by_cases hw : i < w
    · rw [decide_eq_true hw, Bool.not_false, Bool.and_true, Bool.and_true]
    · rw [BitVec.getLsbD_of_ge x i (Nat.le_of_not_lt hw), Bool.false_and]
  · rw [decide_eq_false hi, Bool.false_and, decide_eq_true (Nat.lt_of_not_le hi), Bool.not_true,
      Bool.and_false, Bool.and_false]

section PowerOfTwo

variable {x align : BitVec w} (halign : align.toNat.isPowerOfTwo)
  (hfits : x.toNat + align.toNat < 2 ^ w)

include halign hfits

/-- **The expression as a quotient**, from which the three properties follow. -/
theorem toNat_alignUp :
    (alignUp x align).toNat = (x.toNat + align.toNat - 1) / align.toNat * align.toNat := by
  obtain ⟨k, hk⟩ := halign
  have hpos : 0 < 2 ^ k := Nat.two_pow_pos k
  have hlt : 2 ^ k < 2 ^ w := hk ▸ align.isLt
  have hone : (1#w).toNat = 1 := by
    rw [BitVec.toNat_ofNat, Nat.mod_eq_of_lt (by omega)]
  have hpred : ∀ y : BitVec w, 0 < y.toNat → (y - 1#w).toNat = y.toNat - 1 := by
    intro y hy
    rw [BitVec.toNat_sub_of_le (by rw [BitVec.le_def, hone]; exact hy), hone]
  have hsum : (x + align).toNat = x.toNat + align.toNat := by
    rw [BitVec.toNat_add, Nat.mod_eq_of_lt hfits]
  rw [alignUp, toNat_and_not ((hpred align (by omega)).trans (by rw [hk])),
    hpred _ (by omega), hsum, hk]

/-- Rounding up does not go down, -/
theorem le_alignUp : x.toNat ≤ (alignUp x align).toNat := by
  have hpos : 0 < align.toNat := Nat.pos_of_isPowerOfTwo halign
  have hdiv := Nat.lt_div_mul_add hpos (a := x.toNat + align.toNat - 1)
  rw [toNat_alignUp halign hfits]
  omega

/-- and ends at a multiple. -/
theorem dvd_alignUp : align.toNat ∣ (alignUp x align).toNat := by
  rw [toNat_alignUp halign hfits]
  exact Nat.dvd_mul_left _ _

end PowerOfTwo

end StopTrading.Alignment
