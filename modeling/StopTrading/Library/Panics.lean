import Mathlib.Data.List.Basic
import Mathlib.Tactic.Common

/-!
# Operations that may panic

A computation that may panic is an `Except Panic α`, and it `Completes` if it does not.  A
slice panics outside of its list, an unsigned subtraction below zero; what a program does
whose build wraps instead is the same program with another subtraction.

### Two builds, one model

A program may be built with or without overflow checks, and unsigned subtraction then panics or
wraps.  To compare the builds the subtraction is a parameter of the function that uses it, and
`checkedSub` is one of the arguments.  Slices panic in both.
-/

namespace StopTrading.Panics

universe u

variable {α : Type u}

/-- What panics. -/
inductive Panic where
  /-- `&xs[start..stop]` with an end outside, or the ends out of order -/
  | sliceOutOfBounds
  /-- `a - b` with `a < b`, where overflow is checked -/
  | subtractBelowZero
  deriving Repr, DecidableEq

/-- **The computation does not panic.** -/
def Completes (x : Except Panic α) : Prop := ∃ a, x = .ok a

/-- A result is no panic, -/
@[simp]
theorem completes_ok (a : α) : Completes (.ok a : Except Panic α) := ⟨a, rfl⟩

/-- and a panic is no result. -/
@[simp]
theorem not_completes_error (p : Panic) : ¬ Completes (.error p : Except Panic α) := nofun

/-! ## Slices -/

/-- `&xs[start..]`. -/
def sliceFrom (xs : List α) (start : Nat) : Except Panic (List α) :=
  if start ≤ xs.length then .ok (xs.drop start) else .error .sliceOutOfBounds

/-- `&xs[start..stop]`. -/
def sliceRange (xs : List α) (start stop : Nat) : Except Panic (List α) :=
  if start ≤ stop ∧ stop ≤ xs.length then .ok ((xs.drop start).take (stop - start))
  else .error .sliceOutOfBounds

/-- A slice inside of its list. -/
theorem sliceFrom_eq_ok {xs : List α} {start : Nat} (h : start ≤ xs.length) :
    sliceFrom xs start = .ok (xs.drop start) := if_pos h

/-- A slice with two ends. -/
theorem sliceRange_eq_ok {xs : List α} {start stop : Nat} (h : start ≤ stop)
    (h' : stop ≤ xs.length) :
    sliceRange xs start stop = .ok ((xs.drop start).take (stop - start)) := if_pos ⟨h, h'⟩

/-! ## Subtractions -/

/-- `a - b` where overflow is checked. -/
def checkedSub (a b : Nat) : Except Panic Nat :=
  if b ≤ a then .ok (a - b) else .error .subtractBelowZero

/-- A subtraction that stays above zero, -/
theorem checkedSub_eq_ok {a b : Nat} (h : b ≤ a) : checkedSub a b = .ok (a - b) := if_pos h

/-- and one that does not. -/
theorem checkedSub_eq_error {a b : Nat} (h : a < b) :
    checkedSub a b = .error .subtractBelowZero := if_neg (Nat.not_le_of_lt h)

end StopTrading.Panics
