import Mathlib.Data.List.Basic
import Mathlib.Tactic.Common

/-!
# The last write wins

Where every step of a run either writes a place of the state or leaves it alone, the place
holds in the end what the last of the steps that write it wrote (`read_foldl`).

### Where it is used

Logs that are replayed and feeds that are processed one after the other leave behind, for each
key, what the last element for that key said.  The hypotheses of `read_foldl` are about one step:
it writes the place, or it does not change what is read there.
-/

namespace StopTrading.LastWrite

universe u v w

variable {α : Type u} {β : Type v} {σ : Type w}

/-- The last element that passes a test. -/
def last (writes : α → Bool) (l : List α) : Option α := (l.filter writes).getLast?

/-- An element that passes is the last one if none behind it does. -/
theorem last_cons_of_pos {writes : α → Bool} {a : α} (h : writes a = true) (l : List α) :
    last writes (a :: l) = some ((last writes l).getD a) := by
  rw [last, List.filter_cons_of_pos h, List.getLast?_cons, last]

/-- One that does not is skipped. -/
theorem last_cons_of_neg {writes : α → Bool} {a : α} (h : writes a = false) (l : List α) :
    last writes (a :: l) = last writes l := by
  rw [last, List.filter_cons_of_neg (Bool.eq_false_iff.mp h), last]

/-- **The last write wins.** -/
theorem read_foldl (read : σ → β) (step : σ → α → σ) (value : α → β) (writes : α → Bool)
    (hwrites : ∀ s a, writes a = true → read (step s a) = value a)
    (hkeeps : ∀ s a, writes a = false → read (step s a) = read s) (l : List α) (s : σ) :
    read (l.foldl step s) = ((last writes l).map value).getD (read s) := by
  induction l generalizing s with
  | nil => rfl
  | cons a l ih =>
      refine (ih (step s a)).trans ?_
      cases h : writes a with
      | true =>
          rw [last_cons_of_pos h, hwrites s a h]
          cases last writes l <;> rfl
      | false => rw [last_cons_of_neg h, hkeeps s a h]

end StopTrading.LastWrite
