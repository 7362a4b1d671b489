import Mathlib.Data.Rat.Floor
import Mathlib.Tactic.Common

/-!
# Uninterpreted floating-point arithmetic

A program that computes with floating point can be followed without saying what its
operations return: `FloatOps F` is a choice of them on a type `F`, and what is proved for
every choice is proved of the machine's.  Only what the language fixes about the casts is
required: a cast to a machine integer yields one.

`FloatOps.exact` is the choice of exact rationals.  It agrees with the machine wherever
the machine rounds nothing that a cast keeps, which makes it a choice to compute examples
with.

### What a proof over all choices means

Rounding, infinities and what a comparison with NaN returns are left open by the operations being
arbitrary functions.  A theorem for every `FloatOps` therefore holds of the machine's operations,
and cannot use any law of arithmetic: not even `add` need be commutative.  Programs that are
correct for this reason are those whose safety comes from comparisons of integers behind the
casts.

The two bounds are fields because they are facts of the language: a cast from a float saturates.
-/

namespace StopTrading

universe u

/-- **The operations of a floating-point type.**  `lit` is the value of a decimal literal,
`lt` the comparison, `ofU64` and `ofI64` are the casts from integers, `toU64` and `toI64` the
saturating casts back. -/
structure FloatOps (F : Type u) where
  /-- a literal of the program text -/
  lit : Rat → F
  ofU64 : Nat → F
  ofI64 : Int → F
  add : F → F → F
  sub : F → F → F
  mul : F → F → F
  div : F → F → F
  neg : F → F
  lt : F → F → Bool
  toU64 : F → Nat
  toI64 : F → Int
  /-- casts to unsigned words saturate -/
  toU64_lt : ∀ x, toU64 x < 2 ^ 64
  /-- and casts to signed ones -/
  toI64_range : ∀ x, -2 ^ 63 ≤ toI64 x ∧ toI64 x < 2 ^ 63

namespace FloatOps

/-- A rational without its fraction. -/
def truncate (x : Rat) : Int := x.num.tdiv x.den

/-- **Exact arithmetic** on rationals; the casts back saturate. -/
def exact : FloatOps Rat where
  lit x := x
  ofU64 n := n
  ofI64 n := n
  add x y := x + y
  sub x y := x - y
  mul x y := x * y
  div x y := x / y
  neg x := -x
  lt x y := decide (x < y)
  toU64 x := (max 0 (min (truncate x) (2 ^ 64 - 1))).toNat
  toI64 x := max (-2 ^ 63) (min (truncate x) (2 ^ 63 - 1))
  toU64_lt x := by omega
  toI64_range x := by omega

/-- Of a number that is not negative this is the floor. -/
theorem truncate_of_nonneg {x : Rat} (h : 0 ≤ x) : truncate x = ⌊x⌋ := by
  rw [truncate, Rat.floor_def', Int.tdiv_eq_ediv_of_nonneg (Rat.num_nonneg.mpr h)]

/-- A cast back does not exceed what was cast. -/
theorem exact_toU64_le {x : Rat} (h : 0 ≤ x) : (exact.toU64 x : Rat) ≤ x := by
  have hfloor : (exact.toU64 x : Int) ≤ ⌊x⌋ := by
    have hpos : 0 ≤ ⌊x⌋ := Int.floor_nonneg.mpr h
    simp only [exact, truncate_of_nonneg h]
    omega
  calc (exact.toU64 x : Rat) = ((exact.toU64 x : Int) : Rat) := (Int.cast_natCast _).symm
    _ ≤ (⌊x⌋ : Rat) := Int.cast_le.mpr hfloor
    _ ≤ x := Int.floor_le x

end FloatOps

end StopTrading
