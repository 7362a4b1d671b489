import Mathlib.Data.List.AList
import Mathlib.Algebra.BigOperators.Group.List.Basic
import Mathlib.Tactic.Abel
import Mathlib.Tactic.Common

/-!
# Totals over a finite map

A map with finitely many keys is an `AList`, which carries the proof that its keys
are distinct.  `total f m` adds `f` over the values of `m`; what an insertion does
to it is `total_insert`.  Code that looks a key up, creates a default entry when
there is none and writes the changed entry back uses `total_insert_getD`.

### Why an additive group

Replacing an entry takes the old value out and puts the new one in.  In a group this is one
equation (`total_insert`) whether or not the key was there, because the old value can be
subtracted; over the natural numbers it would be two cases everywhere.  Clients that count with
naturals cast to the integers.
-/

namespace StopTrading.KeyedTotal

universe u v w

variable {K : Type u} {V : Type v} {M : Type w} [AddCommGroup M]

/-- The sum of `f` over the values of a finite map. -/
def total (f : V → M) (m : AList fun _ : K => V) : M := (m.entries.map fun e => f e.2).sum

/-- Nothing adds up to zero. -/
@[simp]
theorem total_empty (f : V → M) : total f (∅ : AList fun _ : K => V) = 0 := rfl

variable [DecidableEq K]

/-- Erasing a key takes its value out of the sum. -/
theorem sum_kerase (f : V → M) (k : K) :
    ∀ l : List (Sigma fun _ : K => V),
      ((l.kerase k).map fun e => f e.2).sum + (l.dlookup k).elim 0 f =
        (l.map fun e => f e.2).sum := by
  intro l
  induction l with
  | nil => exact add_zero 0
  | cons e l ih =>
      obtain ⟨k', v⟩ := e
      by_cases hk : k = k'
      · subst hk
        have herase : List.kerase k (⟨k, v⟩ :: l) = l := List.kerase_cons_eq rfl
        rw [herase, List.dlookup_cons_eq, List.map_cons, List.sum_cons]
        exact add_comm _ _
      · rw [List.kerase_cons_ne hk, List.dlookup_cons_ne _ _ hk, List.map_cons, List.sum_cons,
          List.map_cons, List.sum_cons, ← ih, add_assoc]

/-- **What an insertion does to the total.** -/
theorem total_insert (f : V → M) (m : AList fun _ : K => V) (k : K) (v : V) :
    total f (m.insert k v) + (m.lookup k).elim 0 f = total f m + f v := by
  have herase := sum_kerase f k m.entries
  unfold total
  rw [AList.entries_insert, List.map_cons, List.sum_cons, ← herase, AList.lookup]
  abel

/-- Replacing an entry that is created with a default of value zero. -/
theorem total_insert_getD {f : V → M} {d : V} (hd : f d = 0) (m : AList fun _ : K => V) (k : K)
    (v : V) :
    total f (m.insert k v) + f ((m.lookup k).getD d) = total f m + f v := by
  rw [← total_insert f m k v]
  cases m.lookup k with
  | none => exact congrArg _ hd
  | some _ => rfl

/-- A total of zeros. -/
theorem total_eq_zero {f : V → M} {m : AList fun _ : K => V}
    (h : ∀ k v, m.lookup k = some v → f v = 0) : total f m = 0 := by
  apply List.sum_eq_zero
  intro x hx
  obtain ⟨⟨k, v⟩, hmem, rfl⟩ := List.mem_map.mp hx
  exact h k v (AList.mem_lookup_iff.mpr hmem)

end StopTrading.KeyedTotal
