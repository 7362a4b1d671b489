import Mathlib.Algebra.GroupWithZero.Nat
import Mathlib.Data.List.Rotate
import Mathlib.Data.List.FinRange
import Mathlib.Tactic.Common

/-!
# Taking turns

A cursor goes round a table and stops behind the first position that passes a test.  The
positions it will stop at, in their order, are `waiting`; a stop moves the first one to the
end (`waiting_next`), so that the stops follow the rotations of one list.

### Why rotations

A cursor that is advanced modulo the size of a table and skips what fails the test visits
positions in an order that depends on where it stands.  `waiting` is the list of stops to come,
and a stop is a rotation of it by one.  That every position gets its turn once in each round is
then a fact about rotations (`map_head?_rotate`), and a test that changes between stops shows up
as another list.
-/

namespace StopTrading.RoundRobin

universe u

variable {n : Nat}

/-- The positions from a start on, once round. -/
def turn (n start : Nat) : List (Fin n) := (List.finRange n).rotate start

/-- The start counts modulo the size. -/
theorem turn_mod (n start : Nat) : turn n (start % n) = turn n start := by
  have hmod := List.rotate_mod (List.finRange n) start
  rwa [List.length_finRange] at hmod

/-- A later start is a rotation. -/
theorem turn_rotate (n start k : Nat) : (turn n start).rotate k = turn n (start + k) :=
  List.rotate_rotate _ _ _

/-- Once round. -/
theorem length_turn (n start : Nat) : (turn n start).length = n := by
  rw [turn, List.length_rotate, List.length_finRange]

/-- The positions by their numbers. -/
theorem val_getElem_turn {start k : Nat} (hk : k < (turn n start).length) :
    ((turn n start)[k]).val = (start + k) % n := by
  have hpos : 0 < (List.finRange n).length := by
    rw [List.length_finRange]
    exact (Nat.zero_le k).trans_lt (length_turn n start ▸ hk)
  have hlt := Nat.mod_lt (k + start) hpos
  have hget : (turn n start)[k] = (List.finRange n)[(k + start) % (List.finRange n).length] :=
    List.getElem_rotate _ _ _ hk
  rw [hget, List.getElem_finRange]
  simp [Nat.add_comm k start]

/-- A turn as the positions of the numbers from its start on. -/
theorem turn_eq_map [NeZero n] (start : Nat) :
    turn n start = (List.range' start n).map (Fin.ofNat n) := by
  refine List.ext_getElem (by simp [length_turn]) fun k hk _ => Fin.ext ?_
  rw [val_getElem_turn hk, List.getElem_map, List.getElem_range', Nat.one_mul]
  rfl

/-- The positions that pass the test, in the order of a turn. -/
def waiting (p : Fin n → Bool) (start : Nat) : List (Fin n) := (turn n start).filter p

/-- The same for those that pass the test. -/
theorem waiting_mod (p : Fin n → Bool) (start : Nat) : waiting p (start % n) = waiting p start :=
  congrArg (List.filter p) (turn_mod n start)

/-- **Everyone who passes has a turn**, once. -/
theorem waiting_perm (p : Fin n → Bool) (start : Nat) :
    (waiting p start).Perm ((List.finRange n).filter p) :=
  (List.rotate_perm _ _).filter p

/-- The first position that is waiting is the first of the turn that passes the test. -/
theorem head?_waiting (p : Fin n → Bool) (start : Nat) :
    (waiting p start).head? = (turn n start).find? p :=
  List.head?_filter

/-- **A stop moves the first position to the end.** -/
theorem waiting_next {p : Fin n → Bool} {start : Nat} {i : Fin n}
    (h : (waiting p start).head? = some i) :
    waiting p (i.val + 1) = (waiting p start).rotate 1 := by
  obtain ⟨rest, hrest⟩ : ∃ rest, waiting p start = i :: rest := List.head?_eq_some_iff.mp h
  obtain ⟨before, behind, hturn, hskipped, -, hbehind⟩ := List.filter_eq_cons_iff.mp hrest
  have hval : i.val = (start + before.length) % n := by
    have hlen : before.length < (turn n start).length := by
      rw [hturn, List.length_append, List.length_cons]
      omega
    rw [← val_getElem_turn hlen]
    simp [hturn]
  have hnext : turn n (i.val + 1) = behind ++ (before ++ [i]) := by
    calc turn n (i.val + 1) = turn n ((start + before.length + 1) % n) := by
          rw [hval, ← turn_mod, Nat.mod_add_mod]
      _ = (turn n start).rotate (before.length + 1) := by rw [turn_mod, turn_rotate, Nat.add_assoc]
      _ = ((before ++ [i]) ++ behind).rotate (before ++ [i]).length := by
          rw [hturn, List.append_assoc, List.length_append]
          rfl
      _ = behind ++ (before ++ [i]) := List.rotate_append_length_eq _ _
  have hnone : before.filter p = [] := List.filter_eq_nil_iff.mpr hskipped
  have hkept : [i].filter p = [i] :=
    List.filter_eq_self.mpr fun j hj => List.mem_singleton.mp hj ▸ (List.mem_filter.mp
      (hrest ▸ List.mem_cons_self : i ∈ waiting p start)).2
  rw [waiting, hnext, List.filter_append, List.filter_append, hnone, hkept, hbehind, hrest,
    List.rotate_cons_succ, List.rotate_zero, List.nil_append]

/-- The first elements of the rotations, one round long, are the list. -/
theorem map_head?_rotate {α : Type u} (l : List α) :
    ((List.range l.length).map fun m => (l.rotate m).head?) = l.map some := by
  refine List.ext_getElem (by simp) fun m hm _ => ?_
  have hlt : m < l.length := by simpa using hm
  rw [List.getElem_map, List.getElem_map, List.getElem_range, List.head?_rotate hlt,
    List.getElem?_eq_getElem hlt]

end StopTrading.RoundRobin
