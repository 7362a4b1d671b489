import Mathlib.Data.Nat.Bitwise
import Mathlib.Data.List.Basic
import Mathlib.Tactic.Common
import Mathlib.Tactic.Ring

/-!
# Bit strings

Bit streams written most significant bit first.

* `bitsOf n v` — the low `n` bits of `v`, as a writer emits them.
* `ofBits bs` — the number a reader accumulates from `bs`.
* `SelfDelimiting code` — a family of code words in which no word runs into what
  follows it: equal streams that start with two words start with the same word.

The two facts the codecs rest on are `ofBits_bitsOf` (reading undoes writing,
modulo the width) and `SelfDelimiting.flatMap_inj` (a stream of self-delimiting
words determines the words, whatever padding follows).

### Why self-delimiting is a property of pairs

A stream is decoded from the front, and what follows a word is arbitrary: more words, or the
padding of the last byte.  So it is not enough that code words differ, nor that none is a prefix
of another in isolation; `SelfDelimiting` compares two words together with all that follows them.
The gain is that `SelfDelimiting.flatMap_inj` needs no knowledge of the decoder.
-/

namespace StopTrading.BitString

universe u v

/-- The low `n` bits of `v`, most significant first. -/
def bitsOf : Nat → Nat → List Bool
  | 0, _ => []
  | n + 1, v => v.testBit n :: bitsOf n v

/-- The number whose binary digits, most significant first, are `bs`. -/
def ofBits (bs : List Bool) : Nat :=
  bs.foldl (fun acc b => 2 * acc + b.toNat) 0

/-- No bits. -/
@[simp] theorem bitsOf_zero (v : Nat) : bitsOf 0 v = [] := rfl

/-- The highest bit first, then the lower ones. -/
theorem bitsOf_succ (n v : Nat) : bitsOf (n + 1) v = v.testBit n :: bitsOf n v := rfl

/-- As many bits as were asked for. -/
@[simp] theorem length_bitsOf (n v : Nat) : (bitsOf n v).length = n := by
  induction n with
  | zero => rfl
  | succ n ih => rw [bitsOf_succ, List.length_cons, ih]

/-- What a reader accumulates behind an accumulator: the form in which the induction goes
through. -/
theorem foldl_bitsOf (n v acc : Nat) :
    (bitsOf n v).foldl (fun acc b => 2 * acc + b.toNat) acc = acc * 2 ^ n + v % 2 ^ n := by
  induction n generalizing acc with
  | zero => simp [Nat.mod_one]
  | succ n ih =>
      rw [bitsOf_succ, List.foldl_cons, ih, Nat.mod_pow_succ, Nat.toNat_testBit, pow_succ]
      ring

/-- **Reading undoes writing**, up to the width that was written. -/
@[simp] theorem ofBits_bitsOf (n v : Nat) : ofBits (bitsOf n v) = v % 2 ^ n := by
  rw [ofBits, foldl_bitsOf, Nat.zero_mul, Nat.zero_add]

/-- Two numbers with the same written form agree modulo the width. -/
theorem mod_eq_of_bitsOf_eq {n v w : Nat} (h : bitsOf n v = bitsOf n w) :
    v % 2 ^ n = w % 2 ^ n := by
  rw [← ofBits_bitsOf, ← ofBits_bitsOf, h]

/-- Only the low bits are written. -/
theorem bitsOf_congr {n v w : Nat} (h : v % 2 ^ n = w % 2 ^ n) : bitsOf n v = bitsOf n w := by
  induction n with
  | zero => rfl
  | succ n ih =>
      have bit : v.testBit n = w.testBit n := by
        have := congrArg (fun x => x.testBit n) h
        simpa [Nat.testBit_mod_two_pow] using this
      have low : v % 2 ^ n = w % 2 ^ n := by
        have := congrArg (fun x => x % 2 ^ n) h
        simpa [pow_succ, Nat.mod_mul_right_mod] using this
      rw [bitsOf_succ, bitsOf_succ, bit, ih low]

/-- The bits by their positions. -/
theorem bitsOf_eq_map (n v : Nat) : bitsOf n v = (List.range n).reverse.map v.testBit := by
  induction n with
  | zero => rfl
  | succ n ih => rw [bitsOf_succ, List.range_succ, List.reverse_concat, List.map_cons, ih]

/-- The last bit of a string. -/
theorem bitsOf_concat (n v : Nat) (b : Bool) :
    bitsOf (n + 1) (2 * v + b.toNat) = bitsOf n v ++ [b] := by
  have hlt : b.toNat < 2 := Bool.toNat_lt b
  induction n with
  | zero => cases b <;> simp [bitsOf_succ, Nat.testBit_zero]
  | succ n ih =>
      rw [bitsOf_succ, ih, bitsOf_succ n v, List.cons_append, Nat.testBit_succ,
        show (2 * v + b.toNat) / 2 = v by omega]

/-- Zeros behind a string. -/
theorem bitsOf_mul_two_pow (n k v : Nat) :
    bitsOf (n + k) (v * 2 ^ k) = bitsOf n v ++ List.replicate k false := by
  induction k with
  | zero => simp
  | succ k ih =>
      have hshift : v * 2 ^ (k + 1) = 2 * (v * 2 ^ k) + false.toNat := by
        rw [pow_succ, Bool.toNat_false]
        ring
      rw [hshift, ← Nat.add_assoc, bitsOf_concat, ih, List.append_assoc, ← List.replicate_succ']

/-- Reading one string after another. -/
theorem ofBits_append (xs ys : List Bool) :
    ofBits (xs ++ ys) = ofBits xs * 2 ^ ys.length + ofBits ys := by
  have fold : ∀ acc : Nat, ys.foldl (fun acc b => 2 * acc + b.toNat) acc =
      acc * 2 ^ ys.length + ofBits ys := by
    induction ys with
    | nil => intro acc; simp [ofBits]
    | cons y ys ih =>
        intro acc
        rw [ofBits, List.foldl_cons, List.foldl_cons, ih, ih, List.length_cons, pow_succ]
        ring
  rw [ofBits, List.foldl_append, fold, ← ofBits]

/-- A string of `n` bits is a number below `2 ^ n`. -/
theorem ofBits_lt (bs : List Bool) : ofBits bs < 2 ^ bs.length := by
  induction bs with
  | nil => exact Nat.one_pos
  | cons b bs ih =>
      have hb : ofBits [b] ≤ 1 := by cases b <;> decide
      have happend := ofBits_append [b] bs
      rw [List.singleton_append] at happend
      rw [happend, List.length_cons, pow_succ]
      calc ofBits [b] * 2 ^ bs.length + ofBits bs
          < ofBits [b] * 2 ^ bs.length + 2 ^ bs.length := Nat.add_lt_add_left ih _
        _ ≤ 1 * 2 ^ bs.length + 2 ^ bs.length :=
            Nat.add_le_add_right (Nat.mul_le_mul_right _ hb) _
        _ = 2 ^ bs.length * 2 := by ring

/-! ## Self-delimiting code words -/

variable {α : Type u} {β : Type v}

/-- No code word runs into what follows it. -/
def SelfDelimiting (code : α → List β) : Prop :=
  ∀ a b r r', code a ++ r = code b ++ r' → code a = code b

/-- **A stream of self-delimiting words determines its words**: two streams of
the same number of words that agree, padding included, agree word by word and in
their padding. -/
theorem SelfDelimiting.flatMap_inj {code : α → List β} (hcode : SelfDelimiting code) :
    ∀ {as bs : List α} {r r' : List β}, as.length = bs.length →
      as.flatMap code ++ r = bs.flatMap code ++ r' →
      as.map code = bs.map code ∧ r = r' := by
  intro as
  induction as with
  | nil =>
      intro bs r r' hlen h
      have : bs = [] := List.length_eq_zero_iff.mp hlen.symm
      subst this
      exact ⟨rfl, by simpa using h⟩
  | cons a as ih =>
      intro bs r r' hlen h
      cases bs with
      | nil => simp at hlen
      | cons b bs =>
          simp only [List.flatMap_cons, List.append_assoc] at h
          have word : code a = code b := hcode a b _ _ h
          rw [word, List.append_cancel_left_eq] at h
          obtain ⟨words, pad⟩ := ih (by simpa using hlen) h
          exact ⟨by rw [List.map_cons, List.map_cons, word, words], pad⟩

end StopTrading.BitString
