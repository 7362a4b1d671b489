import Mathlib.Data.List.DropRight
import Mathlib.Data.List.Rotate
import Mathlib.Data.List.TakeDrop

/-!
# Sliding windows

The last `n` entries of a growing list, `List.rtake n`, and two ways to keep them: a queue that
gives up its first entry once it is full (`slide`), and an array of length `n` that is written
around, of which a rotation is the window (`rotate_set`).

### Two implementations of one list

`List.rtake n` of everything that was ever added is the specification; neither the queue nor the
array mentions the past.  For the queue the equation is direct.  For the array it holds up to a
rotation by the place that is written next, and only once the array has been filled; before that
its unwritten places hold what they held at first, which `rtake_append` accounts for by putting
them in front of the history.
-/

namespace StopTrading.SlidingWindow

universe u

variable {α : Type u}

/-- A window is full, or it is the whole list. -/
theorem length_rtake (xs : List α) (n : Nat) : (xs.rtake n).length = min xs.length n := by
  rw [List.rtake, List.length_drop]
  omega

/-- A window on a short list is the list. -/
theorem rtake_of_le {xs : List α} {n : Nat} (h : xs.length ≤ n) : xs.rtake n = xs := by
  rw [List.rtake, Nat.sub_eq_zero_of_le h, List.drop_zero]

/-- Behind a full number of last entries, one more takes the place of the first. -/
theorem rtake_concat {xs : List α} {n : Nat} (h : n ≤ xs.length) (x : α) (hn : 0 < n) :
    (xs ++ [x]).rtake n = (xs.rtake n).tail ++ [x] := by
  obtain ⟨n, rfl⟩ : ∃ m, n = m + 1 := ⟨n - 1, by omega⟩
  rw [List.rtake_concat_succ, List.rtake, List.rtake, List.tail_drop]
  congr 2
  omega

/-- The window over two lists, one behind the other. -/
theorem rtake_append (xs ys : List α) (n : Nat) :
    (xs ++ ys).rtake n = xs.rtake (n - ys.length) ++ ys.rtake n := by
  simp [List.rtake_eq_reverse_take_reverse, List.take_append]

/-- Entries of the window, counted from the last one. -/
theorem getElem?_reverse_rtake {xs : List α} {n k : Nat} (hk : k < n) :
    (xs.rtake n).reverse[k]? = xs.reverse[k]? := by
  rw [List.rtake_eq_reverse_take_reverse, List.reverse_reverse, List.getElem?_take_of_lt hk]

/-! ## A queue -/

/-- One more entry, in place of the first one if there are `n`. -/
def slide (n : Nat) (window : List α) (x : α) : List α :=
  (if n ≤ window.length then window.tail else window) ++ [x]

/-- **The queue holds the window**, of at least one entry. -/
theorem slide_rtake (n : Nat) (xs : List α) (x : α) :
    slide n (xs.rtake (max 1 n)) x = (xs ++ [x]).rtake (max 1 n) := by
  unfold slide
  rw [length_rtake]
  by_cases hfull : max 1 n ≤ xs.length
  · rw [if_pos (by omega), rtake_concat hfull x (by omega)]
  · by_cases hn : n ≤ min xs.length (max 1 n)
    · have hnil : xs = [] := List.length_eq_zero_iff.mp (by omega)
      rw [hnil, List.rtake_nil, List.tail_nil, ite_self, List.nil_append,
        rtake_of_le (le_max_left 1 n)]
    · rw [if_neg hn, rtake_of_le (by omega), rtake_of_le (by simp; omega)]

/-! ## An array -/

/-- The entry to which an array is rotated comes first. -/
theorem rotate_eq_cons {xs : List α} {p : Nat} (hp : p < xs.length) :
    xs.rotate p = xs[p] :: (xs.rotate p).tail := by
  rw [List.rotate_eq_drop_append_take hp.le, List.drop_eq_getElem_cons hp]
  rfl

/-- **A step of an array that is written around**: the oldest entry is written over, and the next
one is the oldest. -/
theorem rotate_set {xs : List α} {p : Nat} (hp : p < xs.length) (x : α) :
    (xs.set p x).rotate ((p + 1) % xs.length) = (xs.rotate p).tail ++ [x] := by
  have hlength : (xs.set p x).length = xs.length := List.length_set
  rw [← hlength, List.rotate_mod, List.rotate_eq_drop_append_take (by omega),
    List.rotate_eq_drop_append_take hp.le, List.tail_append_of_ne_nil (by simpa using hp),
    List.tail_drop, List.append_assoc, List.drop_set_of_lt (Nat.lt_succ_self p),
    List.take_set, List.take_succ_eq_append_getElem hp, List.set_append_right _ _ (by simp [hp.le])]
  simp [hp.le]

end StopTrading.SlidingWindow
