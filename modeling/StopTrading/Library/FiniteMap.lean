import Mathlib.Data.List.AList
import Mathlib.Tactic.Common

/-!
# Finite maps

What a finite map has, and how many keys, after an insertion or a removal.  The maps are
association lists whose values all have one type.

The model of a hash map of the source, where only its content matters: iteration orders are
parameters wherever a program iterates.  `AList` brings lookup, insertion and removal with their
laws; what is added here is the number of keys, which programs compare with a limit, and the laws
in the form of equivalences, which is how a proof about a step uses them.
-/

namespace StopTrading.FiniteMap

universe u v

variable {K : Type u} {V : Type v} [DecidableEq K] (s : AList fun _ : K => V)

/-- What a map has after an insertion. -/
theorem lookup_insert_iff (k : K) (v : V) (k' : K) (v' : V) :
    AList.lookup k' (AList.insert k v s) = some v' ↔
      (k' = k ∧ v' = v) ∨ (k' ≠ k ∧ AList.lookup k' s = some v') := by
  by_cases h : k' = k
  · subst h
    rw [AList.lookup_insert, Option.some.injEq]
    simp [eq_comm]
  · rw [AList.lookup_insert_ne h]
    simp [h]

/-- What a map has after a removal. -/
theorem lookup_erase_iff (k k' : K) (v' : V) :
    AList.lookup k' (AList.erase k s) = some v' ↔ k' ≠ k ∧ AList.lookup k' s = some v' := by
  by_cases h : k' = k
  · subst h
    rw [AList.lookup_erase]
    simp
  · rw [AList.lookup_erase_ne h]
    simp [h]

variable {s}

/-- A key with a value is a key. -/
theorem mem_of_lookup {k : K} {v : V} (h : AList.lookup k s = some v) : k ∈ s :=
  AList.lookup_isSome.mp (by rw [h]; rfl)

/-- A new key is one key more. -/
theorem length_insert_new {k : K} (h : k ∉ s) (v : V) :
    (AList.insert k v s).keys.length = s.keys.length + 1 := by
  rw [AList.keys_insert, List.length_cons,
    List.erase_of_not_mem fun hmem => h (AList.mem_keys.mpr hmem)]

/-- A key that is there is none. -/
theorem length_insert_old {k : K} (h : k ∈ s) (v : V) :
    (AList.insert k v s).keys.length = s.keys.length := by
  have hmem := AList.mem_keys.mp h
  have hpos := List.length_pos_of_mem hmem
  rw [AList.keys_insert, List.length_cons, List.length_erase_of_mem hmem]
  omega

/-- A key that is removed is one key less. -/
theorem length_erase {k : K} (h : k ∈ s) :
    (AList.erase k s).keys.length + 1 = s.keys.length := by
  have hmem := AList.mem_keys.mp h
  have hpos := List.length_pos_of_mem hmem
  rw [AList.keys_erase, List.length_erase_of_mem hmem]
  omega

/-- Removing a key that is not there changes nothing. -/
theorem erase_of_not_mem {k : K} (h : k ∉ s) : AList.erase k s = s :=
  AList.ext (List.kerase_of_notMem_keys h)

end StopTrading.FiniteMap
