import Mathlib.Data.List.Induction
import Mathlib.Data.Nat.Digits.Defs
import Mathlib.Tactic.Common
import Mathlib.Tactic.Ring

/-!
# Decimal numbers as bytes

A number is written as ASCII digits (`numeral`, without leading zeros) and read back
by `value`, which accepts leading zeros.

* `value_numeral` — reading undoes writing.
* `eq_zeros_append_numeral` — a digit string is the numeral of its value after some
  zeros, so the value determines it up to those.

### Leading zeros

Parsers accept them and printers do not write them, so reading is not injective and a byte string
is not recovered from its value.  `eq_zeros_append_numeral` is the exact statement: it is
recovered up to zeros in front.  Protocols with fields of fixed width depend on it, as do proofs
that one digit string is not another.
-/

namespace StopTrading.Decimal

/-- The byte `'0'`. -/
def zero : UInt8 := 48

/-- The byte is one of `'0'` to `'9'`. -/
def IsDigit (b : UInt8) : Prop := 48 ≤ b.toNat ∧ b.toNat ≤ 57

instance (b : UInt8) : Decidable (IsDigit b) := inferInstanceAs (Decidable (_ ∧ _))

/-- The byte of a digit. -/
def ofDigit (d : Nat) : UInt8 := UInt8.ofNat (48 + d)

/-- The digit of a byte. -/
def digit (b : UInt8) : Nat := b.toNat - 48

/-- The number a digit string stands for. -/
def value (bs : List UInt8) : Nat := bs.foldl (fun acc b => acc * 10 + digit b) 0

/-- The shortest digit string of a number. -/
def numeral (n : Nat) : List UInt8 :=
  if n = 0 then [zero] else ((Nat.digits 10 n).map ofDigit).reverse

/-- The digits are consecutive bytes. -/
@[simp]
theorem toNat_ofDigit {d : Nat} (h : d < 10) : (ofDigit d).toNat = 48 + d := by
  rw [ofDigit, UInt8.toNat_ofNat']
  omega

/-- A digit is read as it was written, -/
@[simp]
theorem digit_ofDigit {d : Nat} (h : d < 10) : digit (ofDigit d) = d := by
  rw [digit, toNat_ofDigit h]
  omega

/-- and written as a digit. -/
theorem isDigit_ofDigit {d : Nat} (h : d < 10) : IsDigit (ofDigit d) := by
  rw [IsDigit, toNat_ofDigit h]
  omega

/-- A digit is below ten. -/
theorem digit_lt {b : UInt8} (h : IsDigit b) : digit b < 10 := by
  unfold digit
  have := h.2
  omega

/-- A digit byte is that of its digit. -/
theorem ofDigit_digit {b : UInt8} (h : IsDigit b) : ofDigit (digit b) = b := by
  apply UInt8.toNat_inj.mp
  rw [toNat_ofDigit (digit_lt h), digit]
  have := h.1
  omega

/-! ## Values -/

/-- No digits are zero. -/
@[simp]
theorem value_nil : value [] = 0 := rfl

/-- One more digit. -/
@[simp]
theorem value_concat (bs : List UInt8) (b : UInt8) :
    value (bs ++ [b]) = value bs * 10 + digit b := by
  rw [value, List.foldl_append]
  rfl

/-- Leading zeros do not count. -/
@[simp]
theorem value_zeros_append (zeros : Nat) (bs : List UInt8) :
    value (List.replicate zeros zero ++ bs) = value bs := by
  induction zeros with
  | zero => rfl
  | succ zeros ih => exact ih

/-! ## Numerals -/

/-- One digit. -/
theorem numeral_of_lt {d : Nat} (h : d < 10) : numeral d = [ofDigit d] := by
  unfold numeral
  split
  · rename_i hzero
    subst hzero
    rfl
  · rename_i hpos
    rw [Nat.digits_of_lt 10 d hpos h]
    rfl

/-- The numeral of a number of more than one digit. -/
theorem numeral_mul_add {n d : Nat} (hn : 0 < n) (h : d < 10) :
    numeral (n * 10 + d) = numeral n ++ [ofDigit d] := by
  rw [numeral, if_neg (by omega), numeral, if_neg (by omega),
    show n * 10 + d = d + 10 * n by ring, Nat.digits_add 10 (by norm_num) d n h (Or.inr hn.ne'),
    List.map_cons, List.reverse_cons]

/-- There is always a digit. -/
theorem numeral_ne_nil (n : Nat) : numeral n ≠ [] := by
  unfold numeral
  split
  · exact List.cons_ne_nil _ _
  · rename_i hpos
    simpa [Nat.digits_ne_nil_iff_ne_zero] using hpos

/-- And nothing else. -/
theorem isDigit_of_mem_numeral {n : Nat} {b : UInt8} (h : b ∈ numeral n) : IsDigit b := by
  unfold numeral at h
  split at h
  · rw [List.mem_singleton.mp h]
    decide
  · obtain ⟨d, hd, rfl⟩ := List.mem_map.mp (List.mem_reverse.mp h)
    exact isDigit_ofDigit (Nat.digits_lt_base (by norm_num) hd)

/-- **A digit string is the numeral of its value after some zeros.**  By induction
from the right: while only zeros have been read, the next digit starts the numeral
anew, and afterwards it extends it. -/
theorem eq_zeros_append_numeral {bs : List UInt8} (hne : bs ≠ []) (h : ∀ b ∈ bs, IsDigit b) :
    ∃ zeros, bs = List.replicate zeros zero ++ numeral (value bs) := by
  induction bs using List.reverseRecOn with
  | nil => exact absurd rfl hne
  | append_singleton bs b ih =>
      have hb : IsDigit b := h b (by simp)
      rw [value_concat]
      by_cases hnil : bs = []
      · subst hnil
        refine ⟨0, ?_⟩
        rw [value_nil, Nat.zero_mul, Nat.zero_add, numeral_of_lt (digit_lt hb), ofDigit_digit hb]
        rfl
      · obtain ⟨zeros, hzeros⟩ := ih hnil fun c hc => h c (List.mem_append_left _ hc)
        rcases Nat.eq_zero_or_pos (value bs) with hvalue | hvalue
        · refine ⟨zeros + 1, ?_⟩
          rw [hvalue, Nat.zero_mul, Nat.zero_add, numeral_of_lt (digit_lt hb), ofDigit_digit hb,
            List.replicate_succ']
          conv_lhs => rw [hzeros, hvalue, numeral_of_lt (by norm_num)]
          rfl
        · refine ⟨zeros, ?_⟩
          rw [numeral_mul_add hvalue (digit_lt hb), ofDigit_digit hb, ← List.append_assoc, ← hzeros]

/-- **Reading undoes writing.** -/
@[simp]
theorem value_numeral (n : Nat) : value (numeral n) = n := by
  induction n using Nat.strongRecOn with
  | ind n ih =>
      by_cases hsmall : n < 10
      · rw [numeral_of_lt hsmall]
        exact (Nat.zero_add _).trans (digit_ofDigit hsmall)
      · have hsplit : n = n / 10 * 10 + n % 10 := by omega
        conv_lhs => rw [hsplit]
        rw [numeral_mul_add (by omega) (by omega), value_concat, ih (n / 10) (by omega),
          digit_ofDigit (by omega), ← hsplit]

end StopTrading.Decimal
