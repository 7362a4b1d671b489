import Mathlib.Data.List.Infix
import Mathlib.Tactic.Common

/-!
# Lists cut greedily

A list that grows is cut as soon as the segment behind the last cut is full.  `IsCut` says what
comes of it, without the order in which it was done; `IsCut.grow` and `IsCut.close` are the two
steps.

### Why "shortest"

That full segments follow one another does not determine the cut: a program could let a segment
run on.  `shortest` says that no segment was full before its last entry, and with `unfilled` for
the rest the cut is unique.  Both are about all prefixes and not only about the segment without
its last entry, so `full` need not be monotone.
-/

namespace StopTrading.GreedyCut

universe u

variable {α : Type u}

/-- No segment at the front, but the empty one, is full. -/
def Unfilled (full : List α → Prop) (xs : List α) : Prop := ∀ s, s <+: xs → s ≠ [] → ¬ full s

/-- **The list is cut** into segments that are full, and were not before their last entry, and a
rest that is not. -/
structure IsCut (full : List α → Prop) (xs : List α) (segments : List (List α)) (rest : List α) :
    Prop where
  /-- nothing is lost and nothing changes places -/
  flatten : segments.flatten ++ rest = xs
  /-- segments are full -/
  filled : ∀ s ∈ segments, full s
  /-- and were not before -/
  shortest : ∀ s ∈ segments, Unfilled full s.dropLast
  /-- the rest is not full -/
  unfilled : Unfilled full rest

variable {full : List α → Prop} {xs rest : List α} {segments : List (List α)}

/-- Nothing has no front. -/
theorem unfilled_nil : Unfilled full [] := fun _ hs hne => absurd (List.prefix_nil.mp hs) hne

/-- One more entry, if it fills nothing. -/
theorem Unfilled.concat (h : Unfilled full xs) {x : α} (hx : ¬ full (xs ++ [x])) :
    Unfilled full (xs ++ [x]) := by
  intro s hs hne
  rcases List.prefix_concat_iff.mp hs with rfl | hs
  · exact hx
  · exact h s hs hne

namespace IsCut

/-- Nothing is cut. -/
theorem nil : IsCut full [] [] [] := ⟨rfl, nofun, nofun, unfilled_nil⟩

/-- One more entry that fills nothing. -/
theorem grow (h : IsCut full xs segments rest) {x : α} (hx : ¬ full (rest ++ [x])) :
    IsCut full (xs ++ [x]) segments (rest ++ [x]) where
  flatten := by rw [← List.append_assoc, h.flatten]
  filled := h.filled
  shortest := h.shortest
  unfilled := h.unfilled.concat hx

/-- **One more entry that fills the rest.** -/
theorem close (h : IsCut full xs segments rest) {x : α} (hx : full (rest ++ [x])) :
    IsCut full (xs ++ [x]) (segments ++ [rest ++ [x]]) [] where
  flatten := by simp [← h.flatten]
  filled := by
    intro s hs
    rcases List.mem_append.mp hs with hs | hs
    · exact h.filled s hs
    · rwa [List.mem_singleton.mp hs]
  shortest := by
    intro s hs
    rcases List.mem_append.mp hs with hs | hs
    · exact h.shortest s hs
    · rw [List.mem_singleton.mp hs, List.dropLast_concat]
      exact h.unfilled
  unfilled := unfilled_nil

end IsCut

end StopTrading.GreedyCut
