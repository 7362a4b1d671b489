import StopTrading.Library.MachineInt
import StopTrading.Library.PointerWalk
import StopTrading.Library.Transition
import Mathlib.Data.List.AList

/-!
# The skip list

`LockFreeSkipList` keeps its nodes in an arena and its head is a node like the others, that
of the first key.  Only single calls are considered, one after the other; the level of a new
node is an argument of `insert`.

The searches of `get`, `remove`, `ceiling` and `range` look at the nodes behind the one they
are at, and so never at the head: the key that was inserted first is not found
(`get_of_first`).

### Design decisions

A node is a number into the arena and a pointer is such a number or null.  The searches are
written in the library's terms, as walks along the pointers of a level that stop where a
predicate on the next key fails; `walk` is `none` where the walk of the source would not end.  A
walk is given as many rounds as the arena has nodes and one more, and `walk_eq_none` says that
this is no restriction.

The level of a new node is drawn by a generator with a fixed seed.  It is an argument of `insert`
here, so that what is proved does not depend on the draws.
-/

namespace StopTrading.DataStructures

open Transition MachineInt PointerWalk

/-- `MAX_HEIGHT`. -/
def maxHeight : Nat := 16

/-- `ARENA_CAPACITY`. -/
def arenaCapacity : Nat := 4096

/-- A pointer to a node; `none` is null. -/
abbrev Ptr := Option (Fin arenaCapacity)

/-- `SkipListNode`. -/
structure SkipListNode where
  key : Int
  value : Int
  forward : Nat → Ptr
  height : Nat

/-- What `random_level` may return. -/
abbrev Level := {n : Nat // 1 ≤ n ∧ n ≤ maxHeight}

/-- `LockFreeSkipList`. -/
structure LockFreeSkipList where
  head : Ptr
  height : Nat
  count : Nat
  nodes : Fin arenaCapacity → SkipListNode
  allocated : Nat

namespace LockFreeSkipList

/-- `new`. -/
def new : LockFreeSkipList := ⟨none, 0, 0, fun _ => ⟨0, 0, fun _ => none, 0⟩, 0⟩

/-- Write a node. -/
def setNode (m : LockFreeSkipList) (n : Fin arenaCapacity) (node : SkipListNode) :
    LockFreeSkipList :=
  { m with nodes := Function.update m.nodes n node }

/-- Write a forward pointer. -/
def setForward (m : LockFreeSkipList) (n : Fin arenaCapacity) (i : Nat) (p : Ptr) :
    LockFreeSkipList :=
  m.setNode n { m.nodes n with forward := Function.update (m.nodes n).forward i p }

/-- Writing a node writes no other one, -/
theorem setNode_nodes (m : LockFreeSkipList) (n n' : Fin arenaCapacity) (node : SkipListNode) :
    (m.setNode n node).nodes n' = if n' = n then node else m.nodes n' :=
  Function.update_apply ..

/-- and a pointer leaves the key, -/
@[simp]
theorem setForward_key (m : LockFreeSkipList) (n n' : Fin arenaCapacity) (i : Nat) (p : Ptr) :
    ((m.setForward n i p).nodes n').key = (m.nodes n').key := by
  rw [setForward, setNode_nodes]
  split
  · next h => rw [h]
  · rfl

/-- and all other pointers. -/
theorem setForward_forward (m : LockFreeSkipList) (n n' : Fin arenaCapacity) (i i' : Nat)
    (p : Ptr) :
    ((m.setForward n i p).nodes n').forward i' =
      if n' = n ∧ i' = i then p else (m.nodes n').forward i' := by
  rw [setForward, setNode_nodes]
  by_cases hn : n' = n
  · subst hn
    simp only [if_pos, true_and]
    exact Function.update_apply ..
  · simp only [hn, if_false, false_and]

/-! ## Searching -/

/-- The next node on a level, if a search goes on to its key. -/
def next (m : LockFreeSkipList) (i : Nat) (onward : Int → Bool) (n : Fin arenaCapacity) : Ptr :=
  ((m.nodes n).forward i).filter fun n' => onward (m.nodes n').key

/-- The inner loop of a search; `none` says that it does not end. -/
def walk (m : LockFreeSkipList) (i : Nat) (onward : Int → Bool) (n : Fin arenaCapacity) :
    Option (Fin arenaCapacity) :=
  follow (m.next i onward) arenaCapacity n

/-- The outer loop of a search, from a number of levels down, with `current` and `update`. -/
def descend (m : LockFreeSkipList) (onward : Int → Bool) :
    Nat → Fin arenaCapacity → Option (Fin arenaCapacity × (Nat → Ptr))
  | 0, n => some (n, fun _ => none)
  | i + 1, n =>
      (m.walk i onward n).bind fun n' =>
        (m.descend onward i n').map fun r => (r.1, Function.update r.2 i (some n'))

/-- A search: where it ends, if the list has a head, and `update`. -/
def search (m : LockFreeSkipList) (onward : Int → Bool) : Option (Ptr × (Nat → Ptr)) :=
  match m.head with
  | none => some (none, fun _ => none)
  | some head => (m.descend onward m.height head).map fun r => (some r.1, r.2)

/-! ## Inserting -/

/-- The outer loop of `insert`: the node that has the key already, or `update`.  A search
goes on while the next key is smaller, and then looks whether it is the key. -/
def insertDescend (m : LockFreeSkipList) (key : Int) :
    Nat → Fin arenaCapacity → Option (Fin arenaCapacity ⊕ (Nat → Ptr))
  | 0, _ => some (.inr fun _ => none)
  | i + 1, n =>
      (m.walk i (fun k => k < key) n).bind fun n' =>
        match m.next i (fun k => k = key) n' with
        | some found => some (.inl found)
        | none =>
            (m.insertDescend key i n').map fun
              | .inl found => .inl found
              | .inr update => .inr (Function.update update i (some n'))

/-- Insert a node on one level, at the head if there is nothing to insert it behind.  Nobody
else writes, so that the exchange succeeds at once. -/
def link (update : Nat → Ptr) (node : Fin arenaCapacity) (m : LockFreeSkipList) (i : Nat) :
    LockFreeSkipList :=
  match update i with
  | none => { m.setForward node i m.head with head := some node }
  | some n => (m.setForward node i ((m.nodes n).forward i)).setForward n i (some node)

/-- The part of `insert` behind the search.  Above the old height `update` is null. -/
def insertNew (m : LockFreeSkipList) (update : Nat → Ptr) (key value : Int) (level : Level) :
    LockFreeSkipList × Bool :=
  let idx := m.allocated
  let m := { m with height := max m.height level, allocated := (m.allocated + 1) % 2 ^ 64 }
  if h : idx < arenaCapacity then
    let m := m.setNode ⟨idx, h⟩ ⟨key, value, fun _ => none, level⟩
    let m := (List.range level).foldl (link update ⟨idx, h⟩) m
    ({ m with count := (m.count + 1) % 2 ^ 64 }, true)
  else (m, false)

/-- `insert`, with the level of the new node. -/
def insert (m : LockFreeSkipList) (key value : Int) (level : Level) :
    Option (LockFreeSkipList × Bool) :=
  match m.head with
  | none => some (m.insertNew (fun _ => none) key value level)
  | some head =>
      (m.insertDescend key m.height head).map fun
        | .inl n => (m.setNode n { m.nodes n with value := value }, true)
        | .inr update => m.insertNew update key value level

/-! ## The other operations -/

/-- `get`. -/
def get (m : LockFreeSkipList) (key : Int) : Option (Option Int) :=
  (m.search fun k => k < key).map fun r =>
    r.1.bind fun n => (m.next 0 (fun k => k = key) n).map fun n' => (m.nodes n').value

/-- Take the target out on one level. -/
def unlink (update : Nat → Ptr) (target : Fin arenaCapacity) (m : LockFreeSkipList) (i : Nat) :
    LockFreeSkipList :=
  match update i with
  | none => m
  | some n =>
      if (m.nodes n).forward i = some target then m.setForward n i ((m.nodes target).forward i)
      else m

/-- The height after a removal: levels on which the head has no next node are given up. -/
def shrink (m : LockFreeSkipList) : Nat → Nat
  | h + 2 =>
      if (m.head.bind fun head => (m.nodes head).forward (h + 1)) = none then m.shrink (h + 1)
      else h + 2
  | h => h

/-- `remove`. -/
def remove (m : LockFreeSkipList) (key : Int) : Option (LockFreeSkipList × Bool) :=
  (m.search fun k => k < key).map fun r =>
    match r.1.bind (m.next 0 fun k => k = key) with
    | none => (m, false)
    | some target =>
        let m := (List.range m.height).foldl (unlink r.2 target) m
        ({ m with height := m.shrink m.height, count := u64 ((m.count : Int) - 1) }, true)

/-- The entry of a node. -/
def entry (m : LockFreeSkipList) (n : Fin arenaCapacity) : Int × Int :=
  ((m.nodes n).key, (m.nodes n).value)

/-- `floor`. -/
def floor (m : LockFreeSkipList) (key : Int) : Option (Option (Int × Int)) :=
  (m.search fun k => k ≤ key).map fun r =>
    r.1.bind fun n =>
      if (m.nodes n).key ≤ key then some (m.entry n)
      else (m.next 0 (fun k => k ≤ key) n).map m.entry

/-- `ceiling`. -/
def ceiling (m : LockFreeSkipList) (key : Int) : Option (Option (Int × Int)) :=
  (m.search fun k => k < key).map fun r =>
    r.1.bind fun n => (m.next 0 (fun k => key ≤ k) n).map m.entry

/-- `range`: the entries that are visited. -/
def range (m : LockFreeSkipList) (start stop : Int) : Option (List (Int × Int)) :=
  (m.search fun k => k < start).bind fun r =>
    match r.1.bind (m.next 0 fun k => k ≤ stop) with
    | none => some []
    | some first =>
        (trail (m.next 0 fun k => k ≤ stop) arenaCapacity first).map fun visited =>
          (visited.map m.entry).filter fun e => start ≤ e.1

/-- `len`. -/
def len (m : LockFreeSkipList) : Nat := m.count

/-- **A walk that does not end within the arena** does not end. -/
theorem walk_eq_none {m : LockFreeSkipList} {i : Nat} {onward : Int → Bool}
    {n : Fin arenaCapacity} (h : m.walk i onward n = none) (rounds : Nat) :
    follow (m.next i onward) rounds n = none :=
  follow_eq_none (by rw [Fintype.card_fin]; exact h) rounds

/-- The same of the nodes that `range` visits. -/
theorem visited_eq_none {m : LockFreeSkipList} {onward : Int → Bool} {n : Fin arenaCapacity}
    (h : trail (m.next 0 onward) arenaCapacity n = none) (rounds : Nat) :
    trail (m.next 0 onward) rounds n = none :=
  trail_eq_none (by rw [Fintype.card_fin]; exact h) rounds

end LockFreeSkipList

end StopTrading.DataStructures
