import Mathlib.Algebra.Order.Ring.Nat
import Mathlib.Data.Nat.ModEq
import Mathlib.Tactic.Common

/-!
# Byte strings

Numbers in a fixed number of little-endian bytes, and files that are written in place.

`readLE` takes a number off the front of a byte string; what `toLE` has written it finds
again, whatever follows (`readLE_toLE`).  `splice` overwrites a part of a file and `window`
is a part of it.

### Two ways to read

A header is parsed from the front, with the rest handed on; a file is addressed by positions.
`readLE` is for the first and `window` for the second, and they meet in `readLE_toLE`, whose rest
is arbitrary.  `splice` is written with `take` and `drop` and so is defined for every position;
all that is proved about it assumes that the part lies inside the file, which is what a caller
has checked before it writes.
-/

namespace StopTrading.ByteFile

/-! ## Little-endian numbers -/

/-- The little-endian bytes of a number; what does not fit in them is dropped. -/
def toLE : Nat → Nat → List UInt8
  | 0, _ => []
  | w + 1, n => UInt8.ofNat n :: toLE w (n / 256)

/-- The number in the first bytes, and the bytes behind it. -/
def readLE : Nat → List UInt8 → Option (Nat × List UInt8)
  | 0, bytes => some (0, bytes)
  | _ + 1, [] => none
  | w + 1, b :: bytes => (readLE w bytes).map fun r => (b.toNat + 256 * r.1, r.2)

/-- A number has as many bytes as it is given. -/
@[simp]
theorem length_toLE (w n : Nat) : (toLE w n).length = w := by
  induction w generalizing n with
  | zero => rfl
  | succ w ih => rw [toLE, List.length_cons, ih]

/-- **A number is read as it was written**, up to what does not fit. -/
theorem readLE_toLE (w n : Nat) (rest : List UInt8) :
    readLE w (toLE w n ++ rest) = some (n % 256 ^ w, rest) := by
  induction w generalizing n with
  | zero => rw [toLE, List.nil_append, readLE, Nat.pow_zero, Nat.mod_one]
  | succ w ih =>
      have hbyte : (UInt8.ofNat n).toNat = n % 256 := UInt8.toNat_ofNat'
      rw [toLE, List.cons_append, readLE, ih, Option.map_some, hbyte, Nat.pow_succ',
        Nat.mod_mul]

/-- A number that fits is read exactly. -/
theorem readLE_toLE_of_lt {w n : Nat} (h : n < 256 ^ w) (rest : List UInt8) :
    readLE w (toLE w n ++ rest) = some (n, rest) := by
  rw [readLE_toLE, Nat.mod_eq_of_lt h]

/-- **A number is read from every string that is long enough**, and is written as what was
read. -/
theorem readLE_of_le {w : Nat} {bytes : List UInt8} (h : w ≤ bytes.length) :
    ∃ n rest, readLE w bytes = some (n, rest) ∧ n < 256 ^ w ∧ bytes = toLE w n ++ rest := by
  induction w generalizing bytes with
  | zero => exact ⟨0, bytes, rfl, Nat.one_pos, rfl⟩
  | succ w ih =>
      cases bytes with
      | nil => exact absurd h (Nat.not_succ_le_zero w)
      | cons b bytes =>
          obtain ⟨n, rest, hread, hn, rfl⟩ := ih (Nat.le_of_succ_le_succ h)
          have hb := b.toNat_lt
          refine ⟨b.toNat + 256 * n, rest, ?_, ?_, ?_⟩
          · rw [readLE, hread, Option.map_some]
          · rw [Nat.pow_succ]
            omega
          · have hlow : UInt8.ofNat (b.toNat + 256 * n) = b := by
              rw [← UInt8.toNat_inj, UInt8.toNat_ofNat']
              omega
            have hrest : (b.toNat + 256 * n) / 256 = n := by omega
            rw [toLE, hlow, hrest, List.cons_append]

/-- No number is read from a string that is too short. -/
theorem readLE_of_lt {w : Nat} {bytes : List UInt8} (h : bytes.length < w) :
    readLE w bytes = none := by
  induction w generalizing bytes with
  | zero => exact absurd h (Nat.not_lt_zero _)
  | succ w ih =>
      cases bytes with
      | nil => rfl
      | cons b bytes => rw [readLE, ih (Nat.lt_of_succ_lt_succ h), Option.map_none]

/-- The bytes one by one. -/
theorem toLE_eq_map (w n : Nat) :
    toLE w n = (List.range w).map fun i => UInt8.ofNat (n / 256 ^ i) := by
  induction w generalizing n with
  | zero => rfl
  | succ w ih =>
      rw [toLE, ih, List.range_succ_eq_map, List.map_cons, List.map_map, Nat.pow_zero,
        Nat.div_one]
      congr 1
      refine List.map_congr_left fun i _ => ?_
      rw [Function.comp_apply, Nat.div_div_eq_div_mul, Nat.pow_succ']

/-- The number in all of the bytes. -/
def ofLE : List UInt8 → Nat
  | [] => 0
  | b :: bytes => b.toNat + 256 * ofLE bytes

/-- The bytes of a number are the number, up to what does not fit. -/
theorem ofLE_toLE (w n : Nat) : ofLE (toLE w n) = n % 256 ^ w := by
  induction w generalizing n with
  | zero => rw [toLE, ofLE, Nat.pow_zero, Nat.mod_one]
  | succ w ih =>
      have hbyte : (UInt8.ofNat n).toNat = n % 256 := UInt8.toNat_ofNat'
      rw [toLE, ofLE, ih, hbyte, Nat.pow_succ', Nat.mod_mul]

/-- Exactly, if it fits. -/
theorem ofLE_toLE_of_lt {w n : Nat} (h : n < 256 ^ w) : ofLE (toLE w n) = n := by
  rw [ofLE_toLE, Nat.mod_eq_of_lt h]

/-- `n` bytes are a number below `256 ^ n`. -/
theorem ofLE_lt (bytes : List UInt8) : ofLE bytes < 256 ^ bytes.length := by
  induction bytes with
  | nil => exact Nat.one_pos
  | cons b bytes ih =>
      have hb := b.toNat_lt
      rw [ofLE, List.length_cons, Nat.pow_succ]
      omega

/-- **As many bytes with the same number** are the same bytes. -/
theorem eq_of_ofLE_eq {bytes bytes' : List UInt8} (hlength : bytes.length = bytes'.length)
    (h : ofLE bytes = ofLE bytes') : bytes = bytes' := by
  induction bytes generalizing bytes' with
  | nil => exact (List.length_eq_zero_iff.mp hlength.symm).symm
  | cons b bytes ih =>
      cases bytes' with
      | nil => exact absurd hlength (Nat.succ_ne_zero _)
      | cons b' bytes' =>
          have hb := b.toNat_lt
          have hb' := b'.toNat_lt
          rw [ofLE, ofLE] at h
          have hlow : b = b' := UInt8.toNat_inj.mp (by omega)
          have hrest : ofLE bytes = ofLE bytes' := by omega
          rw [hlow, ih (Nat.succ.inj hlength) hrest]

/-! ## Files -/

universe u

variable {α : Type u}

/-- Overwrite a part of a file. -/
def splice (file : List α) (pos : Nat) (data : List α) : List α :=
  file.take pos ++ data ++ file.drop (pos + data.length)

/-- A part of a file. -/
def window (file : List α) (pos len : Nat) : List α := (file.drop pos).take len

/-- What was written is there. -/
theorem window_splice {file : List α} {pos : Nat} (h : pos ≤ file.length) (data : List α) :
    window (splice file pos data) pos data.length = data := by
  have hpos : (file.take pos).length = pos := by
    rw [List.length_take, Nat.min_eq_left h]
  rw [window, splice, List.append_assoc, List.drop_append_of_le_length hpos.ge,
    List.drop_of_length_le hpos.le, List.nil_append, List.take_append_of_le_length le_rfl,
    List.take_length]

/-- Overwriting does not change the length. -/
theorem length_splice {file data : List α} {pos : Nat} (h : pos + data.length ≤ file.length) :
    (splice file pos data).length = file.length := by
  rw [splice, List.length_append, List.length_append, List.length_take, List.length_drop]
  omega

/-- What was written follows what is before it. -/
theorem take_splice {file data : List α} {pos : Nat} (h : pos ≤ file.length) :
    (splice file pos data).take (pos + data.length) = file.take pos ++ data := by
  have hlength : (file.take pos ++ data).length = pos + data.length := by
    rw [List.length_append, List.length_take, Nat.min_eq_left h]
  rw [splice, List.take_append_of_le_length hlength.ge, List.take_of_length_le hlength.le]

/-! ### Changing one element -/

/-- A change before a part is not seen in it, -/
theorem window_modify_of_lt {f : α → α} {file : List α} {i pos len : Nat} (h : i < pos) :
    window (file.modify i f) pos len = window file pos len := by
  rw [window, List.drop_modify_of_lt f i pos file h, window]

/-- nor one behind it. -/
theorem window_modify_of_ge {f : α → α} {file : List α} {i pos len : Nat} (h : pos + len ≤ i) :
    window (file.modify i f) pos len = window file pos len := by
  rw [window, List.drop_modify_of_ge f i pos file (by omega), List.take_modify,
    List.modify_eq_self (by rw [List.length_take]; omega), window]

/-- An element inside a part. -/
theorem window_modify {f : α → α} {file : List α} {i pos len : Nat} (h : pos ≤ i)
    (_hlt : i < pos + len) :
    window (file.modify i f) pos len = (window file pos len).modify (i - pos) f := by
  rw [window, List.drop_modify_of_ge f i pos file h, List.take_modify, window]

/-- A change in the first of two parts, -/
theorem modify_append_left {f : α → α} {file rest : List α} {i : Nat} (h : i < file.length) :
    (file ++ rest).modify i f = file.modify i f ++ rest := by
  induction file generalizing i with
  | nil => exact absurd h (Nat.not_lt_zero i)
  | cons a file ih =>
      cases i with
      | zero => rfl
      | succ i =>
          rw [List.cons_append, List.modify_succ_cons, ih (Nat.lt_of_succ_lt_succ h),
            List.modify_succ_cons, List.cons_append]

/-- and in the second. -/
theorem modify_append_right {f : α → α} (file rest : List α) (i : Nat) :
    (file ++ rest).modify (file.length + i) f = file ++ rest.modify i f := by
  induction file with
  | nil => rw [List.nil_append, List.length_nil, Nat.zero_add, List.nil_append]
  | cons a file ih =>
      rw [List.cons_append, List.length_cons, Nat.succ_add, List.modify_succ_cons, ih,
        List.cons_append]

/-- A changed byte changes the number. -/
theorem ofLE_modify_ne {f : UInt8 → UInt8} (hf : ∀ b, f b ≠ b) {bytes : List UInt8} {i : Nat}
    (h : i < bytes.length) : ofLE (bytes.modify i f) ≠ ofLE bytes := by
  intro heq
  have hsame := eq_of_ofLE_eq (List.length_modify ..) heq
  have hi : (bytes.modify i f)[i]? = some (f bytes[i]) := by
    rw [List.getElem?_modify_eq, List.getElem?_eq_getElem h, Option.map_eq_map, Option.map_some]
  rw [hsame, List.getElem?_eq_getElem h] at hi
  exact hf bytes[i] (Option.some.inj hi).symm

/-! ### Overwriting parts -/

/-- Overwriting one of three parts. -/
theorem splice_append {before old data after : List α} (h : old.length = data.length) :
    splice (before ++ old ++ after) before.length data = before ++ data ++ after := by
  rw [splice, ← h, List.append_assoc before old after, List.take_append_of_le_length le_rfl,
    List.take_length, ← List.append_assoc, ← List.length_append,
    List.drop_append_of_le_length le_rfl, List.drop_length, List.nil_append]

/-- Overwriting the first of two parts. -/
theorem splice_zero {old data after : List α} (h : old.length = data.length) :
    splice (old ++ after) 0 data = data ++ after := by
  have hsplice : splice ([] ++ old ++ after) ([] : List α).length data = [] ++ data ++ after :=
    splice_append h
  exact hsplice

end StopTrading.ByteFile
