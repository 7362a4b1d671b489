import Mathlib.Algebra.BigOperators.Group.Finset.Piecewise
import Mathlib.Data.Fintype.Card
import Mathlib.Tactic.Common

/-!
# How many of a family

`headcount Q f` is the number of members of a finite family `f` that satisfy `Q`: threads at a
point of their program, slots in a state.  When one member changes, the count follows it
(`headcount_update`).

### Where it is used

A counter that threads increase before they do something and decrease after it lags behind by as
many threads as are in between.  The invariant of such a counter is an equation with a headcount,
and a step of one thread changes the headcount by what that thread was and what it is now.  The
family is finite only to be counted; no proof enumerates it.
-/

namespace StopTrading.Headcount

universe u v

variable {T : Type u} {P : Type v} [Fintype T]

/-- The number of members that satisfy a test. -/
def headcount (Q : P → Bool) (f : T → P) : Nat := (Finset.univ.filter fun t => Q (f t) = true).card

/-- As a sum, which is how it is computed with. -/
theorem headcount_eq_sum (Q : P → Bool) (f : T → P) :
    headcount Q f = ∑ t, (Q (f t)).toNat := by
  rw [headcount, Finset.card_filter]
  refine Finset.sum_congr rfl fun t _ => ?_
  cases Q (f t) <;> rfl

/-- **One member changes.** -/
theorem headcount_update [DecidableEq T] (Q : P → Bool) (f : T → P) (t : T) (p : P) :
    headcount Q (Function.update f t p) + (Q (f t)).toNat = headcount Q f + (Q p).toNat := by
  have hsum : ∀ g : T → P, headcount Q g =
      (Q (g t)).toNat + ∑ u ∈ Finset.univ.erase t, (Q (g u)).toNat := by
    intro g
    rw [headcount_eq_sum, Finset.add_sum_erase _ (fun u => (Q (g u)).toNat) (Finset.mem_univ t)]
  have hothers : ∑ u ∈ Finset.univ.erase t, (Q (Function.update f t p u)).toNat =
      ∑ u ∈ Finset.univ.erase t, (Q (f u)).toNat := by
    refine Finset.sum_congr rfl fun u hu => ?_
    rw [Function.update_of_ne (Finset.ne_of_mem_erase hu)]
  rw [hsum (Function.update f t p), hsum f, Function.update_self, hothers]
  omega

/-- Nobody satisfies the test. -/
theorem headcount_eq_zero {Q : P → Bool} {f : T → P} (h : ∀ t, Q (f t) = false) :
    headcount Q f = 0 := by
  rw [headcount_eq_sum]
  exact Finset.sum_eq_zero fun t _ => by rw [h t]; rfl

/-- All do. -/
theorem headcount_eq_card {Q : P → Bool} {f : T → P} (h : ∀ t, Q (f t) = true) :
    headcount Q f = Fintype.card T := by
  rw [headcount, Finset.filter_true_of_mem fun t _ => h t]
  rfl

/-- Someone does. -/
theorem headcount_pos {Q : P → Bool} {f : T → P} {t : T} (h : Q (f t) = true) :
    0 < headcount Q f :=
  Finset.card_pos.mpr ⟨t, Finset.mem_filter.mpr ⟨Finset.mem_univ t, h⟩⟩

end StopTrading.Headcount
