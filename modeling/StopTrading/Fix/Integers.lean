import StopTrading.Fix.Codec

/-!
# Integers in fields

`parse_uint` and `parse_int` read digit by digit with checked arithmetic.  The first reads
the nonempty digit strings below `2 ^ 64` and nothing else (`parseUint_eq_ok_iff`).

The second takes a sign off and then no longer asks whether anything is left, and it checks
the magnitude before it negates.  So it reads a sign alone as zero, and it does not read
`-2 ^ 63`; otherwise it does what it should (`integerGrammar_iff`).

### What is load-bearing

`Denotes` is the grammar that the parsers are compared with, and it has no state: a numeral is
digits, perhaps behind a sign, and stands for one number.  The two parsers read from the left
with a register that is checked at every digit.  That this accepts exactly the numerals that fit
is one lemma for each loop, by induction from any value of the register, as a register that
overflows has overflowed for good.

The two exceptions are where `parse_int` treats the sign apart.  It does not ask for a digit
behind a sign, and it negates a magnitude that had to fit as a positive number.
-/

namespace StopTrading.Fix

open Decimal MachineInt

/-- The byte `'-'`. -/
def minus : UInt8 := 45

/-- The byte `'+'`. -/
def plus : UInt8 := 43

/-- The number is an `i64`. -/
def InI64 (x : Int) : Prop := -2 ^ 63 ≤ x ∧ x < 2 ^ 63

instance (x : Int) : Decidable (InI64 x) := inferInstanceAs (Decidable (_ ∧ _))

/-- The loop of `parse_int`. -/
def parseIntDigits : Int → List UInt8 → Except FixError Int
  | result, [] => .ok result
  | result, b :: bs =>
      if IsDigit b then
        -- `checked_mul` and `checked_add`
        if InI64 (result * 10) ∧ InI64 (result * 10 + digit b) then
          parseIntDigits (result * 10 + digit b) bs
        else .error .parseError
      else .error .parseError

/-- `parse_int`. -/
def parseInt : List UInt8 → Except FixError Int
  | [] => .error .emptyValue
  | b :: bs =>
      if b = minus then (parseIntDigits 0 bs).map fun result => i64 (-result)
      else if b = plus then parseIntDigits 0 bs
      else parseIntDigits 0 (b :: bs)

/-! ## The grammar -/

/-- At least one digit, and nothing else. -/
def Digits (bs : List UInt8) : Prop := bs ≠ [] ∧ ∀ b ∈ bs, IsDigit b

/-- **The bytes denote a number**: digits, perhaps behind a sign. -/
inductive Denotes : List UInt8 → Int → Prop
  | unsigned {ds : List UInt8} (digits : Digits ds) : Denotes ds (value ds)
  | positive {ds : List UInt8} (digits : Digits ds) : Denotes (plus :: ds) (value ds)
  | negative {ds : List UInt8} (digits : Digits ds) : Denotes (minus :: ds) (-value ds)

/-- **The integer grammar**, at some bytes: what the two parsers accept, and with which
result. -/
structure IntegerGrammar (bs : List UInt8) : Prop where
  /-- `parse_uint` reads digits that fit -/
  uint : ∀ n, parseUint bs = .ok n ↔ Digits bs ∧ n = value bs ∧ n < 2 ^ 64
  /-- `parse_int` reads what denotes a number that fits -/
  int : ∀ v, parseInt bs = .ok v ↔ Denotes bs v ∧ InI64 v

/-- A sign is no digit, -/
theorem not_isDigit_minus : ¬ IsDigit minus := by decide

/-- nor is the other. -/
theorem not_isDigit_plus : ¬ IsDigit plus := by decide

/-- Behind a minus sign there is only one way to read digits. -/
theorem denotes_minus_iff {ds : List UInt8} {v : Int} :
    Denotes (minus :: ds) v ↔ Digits ds ∧ v = -value ds := by
  constructor
  · intro h
    cases h with
    | unsigned digits => exact absurd (digits.2 minus List.mem_cons_self) not_isDigit_minus
    | negative digits => exact ⟨digits, rfl⟩
  · rintro ⟨digits, rfl⟩
    exact .negative digits

/-- Behind a plus sign there are digits, -/
theorem denotes_plus_iff {ds : List UInt8} {v : Int} :
    Denotes (plus :: ds) v ↔ Digits ds ∧ v = value ds := by
  constructor
  · intro h
    cases h with
    | unsigned digits => exact absurd (digits.2 plus List.mem_cons_self) not_isDigit_plus
    | positive digits => exact ⟨digits, rfl⟩
  · rintro ⟨digits, rfl⟩
    exact .positive digits

/-- and without a sign there are only digits. -/
theorem denotes_unsigned_iff {bs : List UInt8} {v : Int} (hminus : bs.head? ≠ some minus)
    (hplus : bs.head? ≠ some plus) : Denotes bs v ↔ Digits bs ∧ v = value bs := by
  constructor
  · intro h
    cases h with
    | unsigned digits => exact ⟨digits, rfl⟩
    | positive digits => exact absurd rfl hplus
    | negative digits => exact absurd rfl hminus
  · rintro ⟨digits, rfl⟩
    exact .unsigned digits

/-! ## What the loops read -/

/-- The checked loop of `parse_int` succeeds exactly on digits whose number fits. -/
theorem parseIntDigits_eq_ok_iff {r : Nat} {v : Int} {bs : List UInt8} (hr : r < 2 ^ 63) :
    parseIntDigits r bs = .ok v ↔
      (∀ b ∈ bs, IsDigit b) ∧ bs.foldl (fun acc b => acc * 10 + digit b) r < 2 ^ 63 ∧
        v = (bs.foldl (fun acc b => acc * 10 + digit b) r : Nat) := by
  induction bs generalizing r with
  | nil =>
      rw [parseIntDigits, Except.ok.injEq]
      exact ⟨fun h => ⟨nofun, hr, h.symm⟩, fun h => h.2.2.symm⟩
  | cons b bs ih =>
      rw [parseIntDigits, List.forall_mem_cons, List.foldl_cons]
      have hle := le_foldl_digits (r * 10 + digit b) bs
      have hcast : (r : Int) * 10 + digit b = (r * 10 + digit b : Nat) := by push_cast; rfl
      split
      · rename_i hb
        rw [hcast]
        split
        · rename_i hfits
          rw [ih (by have := hfits.2.2; omega)]
          simp only [hb, true_and]
        · rename_i hover
          refine ⟨nofun, fun h => absurd h.2.1 ?_⟩
          unfold InI64 at hover
          omega
      · rename_i hb
        exact ⟨nofun, fun h => absurd h.1.1 hb⟩

/-- The same from zero on. -/
theorem parseIntDigits_zero_eq_ok_iff {v : Int} {bs : List UInt8} :
    parseIntDigits 0 bs = .ok v ↔
      (∀ b ∈ bs, IsDigit b) ∧ value bs < 2 ^ 63 ∧ v = value bs :=
  parseIntDigits_eq_ok_iff (r := 0) (by norm_num)

/-- Behind a minus sign `parse_int` reads digits, perhaps none, -/
theorem parseInt_minus_eq_ok_iff {ds : List UInt8} {v : Int} :
    parseInt (minus :: ds) = .ok v ↔
      (∀ b ∈ ds, IsDigit b) ∧ value ds < 2 ^ 63 ∧ v = -value ds := by
  rw [parseInt, if_pos rfl]
  constructor
  · intro h
    cases hdigits : parseIntDigits 0 ds with
    | error e =>
        rw [hdigits] at h
        cases h
    | ok r =>
        rw [hdigits] at h
        obtain ⟨hall, hlt, rfl⟩ := parseIntDigits_zero_eq_ok_iff.mp hdigits
        cases h
        exact ⟨hall, hlt, i64_of_range (by omega) (by omega)⟩
  · rintro ⟨hall, hlt, rfl⟩
    rw [parseIntDigits_zero_eq_ok_iff.mpr ⟨hall, hlt, rfl⟩]
    exact congrArg Except.ok (i64_of_range (by omega) (by omega))

/-- and so behind a plus sign, -/
theorem parseInt_plus (ds : List UInt8) : parseInt (plus :: ds) = parseIntDigits 0 ds := by
  rw [parseInt, if_neg (by decide), if_pos rfl]

/-- and without a sign. -/
theorem parseInt_unsigned {bs : List UInt8} (hne : bs ≠ []) (hminus : bs.head? ≠ some minus)
    (hplus : bs.head? ≠ some plus) : parseInt bs = parseIntDigits 0 bs := by
  cases bs with
  | nil => exact absurd rfl hne
  | cons b bs =>
      rw [parseInt, if_neg fun h => hminus (congrArg some h),
        if_neg fun h => hplus (congrArg some h)]

/-! ## Where `parse_int` keeps to the grammar -/

/-- **`parse_int` keeps to the grammar** at some bytes. -/
def ReadsInt (bs : List UInt8) : Prop := ∀ v, parseInt bs = .ok v ↔ Denotes bs v ∧ InI64 v

/-- Behind a minus sign it keeps to the grammar but for two cases, -/
theorem readsInt_minus_iff {ds : List UInt8} :
    ReadsInt (minus :: ds) ↔ ds ≠ [] ∧ ¬ (Digits ds ∧ value ds = 2 ^ 63) := by
  simp only [ReadsInt, parseInt_minus_eq_ok_iff, denotes_minus_iff]
  constructor
  · intro h
    constructor
    · rintro rfl
      have hzero := (h 0).mp ⟨nofun, by decide, rfl⟩
      exact hzero.1.1.1 rfl
    · rintro ⟨hdigits, hvalue⟩
      have hparsed := (h (-value ds)).mpr ⟨⟨hdigits, rfl⟩, by rw [InI64]; omega⟩
      omega
  · rintro ⟨hne, hleast⟩ v
    constructor
    · rintro ⟨hall, hlt, rfl⟩
      exact ⟨⟨⟨hne, hall⟩, rfl⟩, by rw [InI64]; omega⟩
    · rintro ⟨⟨hdigits, rfl⟩, hrange⟩
      have hvalue : value ds ≠ 2 ^ 63 := fun h => hleast ⟨hdigits, h⟩
      rw [InI64] at hrange
      exact ⟨hdigits.2, by omega, rfl⟩

/-- behind a plus sign but for one, -/
theorem readsInt_plus_iff {ds : List UInt8} : ReadsInt (plus :: ds) ↔ ds ≠ [] := by
  simp only [ReadsInt, parseInt_plus, parseIntDigits_zero_eq_ok_iff, denotes_plus_iff]
  constructor
  · rintro h rfl
    have hzero := (h 0).mp ⟨nofun, by decide, rfl⟩
    exact hzero.1.1.1 rfl
  · intro hne v
    constructor
    · rintro ⟨hall, hlt, rfl⟩
      exact ⟨⟨⟨hne, hall⟩, rfl⟩, by rw [InI64]; omega⟩
    · rintro ⟨⟨hdigits, rfl⟩, hrange⟩
      rw [InI64] at hrange
      exact ⟨hdigits.2, by omega, rfl⟩

/-- and without a sign always. -/
theorem readsInt_unsigned {bs : List UInt8} (hminus : bs.head? ≠ some minus)
    (hplus : bs.head? ≠ some plus) : ReadsInt bs := by
  intro v
  rw [denotes_unsigned_iff hminus hplus]
  by_cases hne : bs = []
  · subst hne
    exact ⟨nofun, fun h => absurd rfl h.1.1.1⟩
  · rw [parseInt_unsigned hne hminus hplus, parseIntDigits_zero_eq_ok_iff]
    constructor
    · rintro ⟨hall, hlt, rfl⟩
      exact ⟨⟨⟨hne, hall⟩, rfl⟩, by rw [InI64]; omega⟩
    · rintro ⟨⟨hdigits, rfl⟩, hrange⟩
      rw [InI64] at hrange
      exact ⟨hdigits.2, by omega, rfl⟩

/-- **`parse_int` keeps to the grammar** but for a sign alone and `-2 ^ 63`. -/
theorem readsInt_iff (bs : List UInt8) :
    ReadsInt bs ↔ bs ≠ [minus] ∧ bs ≠ [plus] ∧ ¬ Denotes bs (-2 ^ 63) := by
  by_cases hminus : bs.head? = some minus
  · obtain ⟨ds, rfl⟩ := List.head?_eq_some_iff.mp hminus
    have hsign : minus ≠ plus := by decide
    rw [readsInt_minus_iff, denotes_minus_iff]
    constructor
    · rintro ⟨hne, hleast⟩
      refine ⟨by simpa using hne, by simp [hsign], fun h => hleast ⟨h.1, by omega⟩⟩
    · rintro ⟨hne, -, hleast⟩
      exact ⟨by simpa using hne, fun h => hleast ⟨h.1, by omega⟩⟩
  · by_cases hplus : bs.head? = some plus
    · obtain ⟨ds, rfl⟩ := List.head?_eq_some_iff.mp hplus
      have hsign : plus ≠ minus := by decide
      rw [readsInt_plus_iff, denotes_plus_iff]
      constructor
      · intro hne
        exact ⟨by simp [hsign], by simpa using hne, fun h => by omega⟩
      · rintro ⟨-, hne, -⟩
        simpa using hne
    · refine iff_of_true (readsInt_unsigned hminus hplus) ⟨?_, ?_, fun h => ?_⟩
      · rintro rfl
        exact hminus rfl
      · rintro rfl
        exact hplus rfl
      · have hvalue := ((denotes_unsigned_iff hminus hplus).mp h).2
        omega

/-- **The integer grammar**: the two parsers keep to it at all bytes but a sign alone and the
numerals of `-2 ^ 63`. -/
theorem integerGrammar_iff (bs : List UInt8) :
    IntegerGrammar bs ↔ bs ≠ [minus] ∧ bs ≠ [plus] ∧ ¬ Denotes bs (-2 ^ 63) := by
  rw [← readsInt_iff]
  refine ⟨fun h => h.int, fun h => ⟨fun n => ?_, h⟩⟩
  rw [parseUint_eq_ok_iff]
  constructor
  · rintro ⟨hne, hall, hlt, rfl⟩
    exact ⟨⟨hne, hall⟩, rfl, hlt⟩
  · rintro ⟨hdigits, rfl, hlt⟩
    exact ⟨hdigits.1, hdigits.2, hlt, rfl⟩

/-- **A minus sign alone** is read as zero. -/
theorem not_forall_integerGrammar : ¬ ∀ bs, IntegerGrammar bs := by
  intro h
  have hzero : parseInt [minus] = .ok 0 := rfl
  exact ((denotes_minus_iff.mp (((h [minus]).int 0).mp hzero).1).1).1 rfl

end StopTrading.Fix
