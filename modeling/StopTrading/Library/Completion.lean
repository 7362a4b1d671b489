import StopTrading.Library.ListSplits
import Mathlib.Data.List.Basic
import Mathlib.Tactic.Common

/-!
# The arrival that completes a set

Items arrive one after another, and a set `S` of them is awaited.  An arrival of
interest is one that satisfies `relevant`, which all awaited items do.  `completeCount`
counts the arrivals of interest after which all of `S` has arrived, `NoneLate` says
that no arrival of interest finds `S` complete already.

If `S` is complete in the end, but not at the beginning, one arrival completes it, and
the count is one just when none is late (`completeCount_eq_one_iff`).

### Why "late" is the right notion

Programs that wait for several parts often react to every part that arrives and finds the set
complete.  As long as no part comes twice this happens once.  The count goes wrong by arrivals
after the completing one, and only by those that are of interest; `NoneLate` says that there are
none and mentions no count, so it can be read as a condition on the callers.
-/

namespace StopTrading.Completion

open ListSplits

universe u

variable {α : Type u} [DecidableEq α] (S : List α) (relevant : α → Prop)
  [DecidablePred relevant]

/-- The arrivals of interest, after `before`, that leave `S` complete. -/
def completeCount : List α → List α → Nat
  | _, [] => 0
  | before, x :: rest =>
      (if relevant x ∧ S ⊆ before ++ [x] then 1 else 0) + completeCount (before ++ [x]) rest

/-- **No arrival of interest is late**: none finds `S` complete. -/
def NoneLate (arrivals : List α) : Prop :=
  ∀ before x after, arrivals = before ++ x :: after → relevant x → ¬ S ⊆ before

/-- The same after some arrivals. -/
def NoneLateAfter : List α → List α → Prop
  | _, [] => True
  | before, x :: rest => (relevant x → ¬ S ⊆ before) ∧ NoneLateAfter (before ++ [x]) rest

variable {S relevant}

omit [DecidableEq α] [DecidablePred relevant] in
/-- The recursion, as a statement about the place of an arrival. -/
theorem noneLateAfter_iff {arrivals : List α} :
    ∀ earlier, NoneLateAfter S relevant earlier arrivals ↔
      ∀ before x after, arrivals = before ++ x :: after → relevant x →
        ¬ S ⊆ earlier ++ before := by
  induction arrivals with
  | nil =>
      intro earlier
      exact iff_of_true trivial forall_split_nil
  | cons y rest ih =>
      intro earlier
      rw [NoneLateAfter, ih,
        forall_split_cons (P := fun before x => relevant x → ¬ S ⊆ earlier ++ before),
        List.append_nil]
      refine and_congr_right fun _ => forall₄_congr fun before x _ _ => ?_
      rw [List.append_cons earlier y before]

omit [DecidableEq α] [DecidablePred relevant] in
/-- From the start nothing has arrived. -/
theorem noneLate_iff {arrivals : List α} :
    NoneLate S relevant arrivals ↔ NoneLateAfter S relevant [] arrivals :=
  (noneLateAfter_iff []).symm

/-- Once complete, every arrival of interest counts, and each would be late. -/
theorem completeCount_eq_zero_iff {arrivals : List α} :
    ∀ before, S ⊆ before →
      (completeCount S relevant before arrivals = 0 ↔
        NoneLateAfter S relevant before arrivals) := by
  induction arrivals with
  | nil => intro before _; exact iff_of_true rfl trivial
  | cons x rest ih =>
      intro before hbefore
      have hgrown : S ⊆ before ++ [x] := List.subset_append_of_subset_left [x] hbefore
      rw [completeCount, NoneLateAfter, Nat.add_eq_zero_iff, ih _ hgrown]
      refine and_congr_left fun _ => ?_
      by_cases hx : relevant x
      · simp [hx, hbefore, hgrown]
      · simp [hx]

/-- **The set is completed once**, and the count tells whether that was the last arrival
of interest. -/
theorem completeCount_eq_one_iff (hS : ∀ x ∈ S, relevant x) {arrivals : List α} :
    ∀ before, ¬ S ⊆ before → S ⊆ before ++ arrivals →
      (completeCount S relevant before arrivals = 1 ↔
        NoneLateAfter S relevant before arrivals) := by
  induction arrivals with
  | nil =>
      intro before hnot hend
      rw [List.append_nil] at hend
      exact absurd hend hnot
  | cons x rest ih =>
      intro before hnot hend
      rw [List.append_cons] at hend
      rw [completeCount, NoneLateAfter, and_iff_right fun _ => hnot]
      by_cases hgrown : S ⊆ before ++ [x]
      · -- `x` completes the set, so it is awaited
        have hx : relevant x := by
          by_contra hx
          refine hnot fun y hy => ?_
          rcases List.mem_append.mp (hgrown hy) with hmem | hmem
          · exact hmem
          · rw [List.mem_singleton] at hmem
            subst hmem
            exact absurd (hS y hy) hx
        rw [if_pos ⟨hx, hgrown⟩, Nat.add_eq_left, completeCount_eq_zero_iff _ hgrown]
      · rw [if_neg fun h => hgrown h.2, Nat.zero_add]
        exact ih _ hgrown hend

end StopTrading.Completion
