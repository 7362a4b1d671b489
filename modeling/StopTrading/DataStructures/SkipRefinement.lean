import StopTrading.DataStructures.SkipList

/-!
# The skip list and the sorted map

A run carries the finite map of the entries that were inserted last and not removed.  `Agrees`
says that every lookup returns and finds what the finite map has.

The first insertion makes its node the head, and no lookup looks at the head.  So a run agrees
with the finite map only as long as nothing is inserted (`agrees_iff_noInsert`).

### What is load-bearing

It looks like a corner case that the head is never searched, and it is the first thing that
happens: the first insertion of a run takes place on an empty list, and that key is not found.
All the work is in showing that this is so on every level of the new node.  `Alone` describes the
list while the node is linked level by level: it is the head, its lowest pointer leads nowhere,
and the others lead nowhere or to itself.  A search that starts there either stays or does not
end; in no case does it find the key.

The relations `IsFloor`, `IsCeiling` and `IsRange` say what the other lookups are for.  They are
not needed to see that a run goes wrong, but they are part of what `Agrees` claims of one that
does not.
-/

namespace StopTrading.DataStructures

open Transition MachineInt PointerWalk

/-- A call on the list. -/
inductive SkipCall where
  | insert (key value : Int) (level : Level)
  | remove (key : Int)
  deriving DecidableEq

/-- What a call leaves behind; `none` if it does not return. -/
def LockFreeSkipList.call (m : LockFreeSkipList) : SkipCall → Option (LockFreeSkipList × Bool)
  | .insert key value level => m.insert key value level
  | .remove key => m.remove key

/-- The finite map. -/
abbrev SortedMap := AList fun _ : Int => Int

namespace SortedMap

/-- What a call does to the finite map. -/
def after (ref : SortedMap) : SkipCall → SortedMap
  | .insert key value _ => AList.insert key value ref
  | .remove key => AList.erase key ref

/-- The entry of the largest key up to a key. -/
def IsFloor (ref : SortedMap) (key : Int) : Option (Int × Int) → Prop
  | none => ∀ key' value', ref.lookup key' = some value' → key < key'
  | some e => ref.lookup e.1 = some e.2 ∧ e.1 ≤ key ∧
      ∀ key' value', ref.lookup key' = some value' → key' ≤ key → key' ≤ e.1

/-- The entry of the smallest key from a key on. -/
def IsCeiling (ref : SortedMap) (key : Int) : Option (Int × Int) → Prop
  | none => ∀ key' value', ref.lookup key' = some value' → key' < key
  | some e => ref.lookup e.1 = some e.2 ∧ key ≤ e.1 ∧
      ∀ key' value', ref.lookup key' = some value' → key ≤ key' → e.1 ≤ key'

/-- The entries of the keys in an interval, in order. -/
def IsRange (ref : SortedMap) (start stop : Int) (es : List (Int × Int)) : Prop :=
  es.Pairwise (fun e e' => e.1 < e'.1) ∧
    ∀ e, e ∈ es ↔ ref.lookup e.1 = some e.2 ∧ start ≤ e.1 ∧ e.1 ≤ stop

end SortedMap

/-- **The lookups return** and find what the finite map has. -/
structure LockFreeSkipList.Agrees (m : LockFreeSkipList) (ref : SortedMap) : Prop where
  /-- `get` finds what the finite map has -/
  get : ∀ key, m.get key = some (ref.lookup key)
  /-- `floor` the entry of the largest key that is not above -/
  floor : ∀ key, ∃ e, m.floor key = some e ∧ ref.IsFloor key e
  /-- `ceiling` that of the smallest that is not below -/
  ceiling : ∀ key, ∃ e, m.ceiling key = some e ∧ ref.IsCeiling key e
  /-- `range` those in between -/
  range : ∀ start stop, ∃ es, m.range start stop = some es ∧ ref.IsRange start stop es
  /-- and the length is the number of keys -/
  len : m.len = ref.keys.length

/-- A list and its finite map. -/
structure SkipRun where
  list : LockFreeSkipList
  reference : SortedMap

namespace SkipRun

/-- A new list. -/
def init : SkipRun := ⟨.new, ∅⟩

/-- One call.  A call that does not return leaves the list as it is. -/
def step (r : SkipRun) (c : SkipCall) : Option SkipRun :=
  some ⟨((r.list.call c).map Prod.fst).getD r.list, r.reference.after c⟩

/-- **A call returns**, and the lookups agree afterwards. -/
def Agrees (r : SkipRun) (c : SkipCall) (r' : SkipRun) : Prop :=
  (r.list.call c).isSome ∧ r'.list.Agrees r'.reference

/-- A new list agrees with the empty map. -/
theorem agrees_init : init.list.Agrees init.reference where
  get _ := rfl
  floor _ := ⟨none, rfl, nofun⟩
  ceiling _ := ⟨none, rfl, nofun⟩
  range _ _ := ⟨[], rfl, .nil, fun _ => iff_of_false nofun nofun⟩
  len := rfl

end SkipRun

/-! ## The first insertion -/

namespace LockFreeSkipList

/-- **The node of the first insertion**, when it is linked on some levels: its pointers lead
nowhere on the lowest level, and to itself on the others. -/
structure Alone (m : LockFreeSkipList) (n : Fin arenaCapacity) (key : Int) (levels : Nat) :
    Prop where
  /-- the node is the head as soon as it is linked -/
  head : m.head = if levels = 0 then none else some n
  /-- it has its key -/
  key_eq : (m.nodes n).key = key
  /-- on the lowest level nothing is behind it -/
  lowest : (m.nodes n).forward 0 = none
  /-- and on the others at most itself -/
  above : ∀ i, (m.nodes n).forward i = none ∨ (m.nodes n).forward i = some n

namespace Alone

variable {m : LockFreeSkipList} {n : Fin arenaCapacity} {key : Int}

/-- Linking the node on one level more, -/
theorem link {levels : Nat} (h : m.Alone n key levels) :
    Alone (LockFreeSkipList.link (fun _ => none) n m levels) n key (levels + 1) := by
  have hforward : ∀ i, ((LockFreeSkipList.link (fun _ => none) n m levels).nodes n).forward i =
      if i = levels then m.head else (m.nodes n).forward i := by
    intro i
    exact (setForward_forward ..).trans (by simp only [true_and])
  refine ⟨rfl, (setForward_key ..).trans h.key_eq, ?_, fun i => ?_⟩
  · rw [hforward]
    split
    · next hlevel => rw [h.head, if_pos hlevel.symm]
    · exact h.lowest
  · rw [hforward]
    split
    · rw [h.head]
      split
      · exact .inl rfl
      · exact .inr rfl
    · exact h.above i

/-- and on all of its levels. -/
theorem foldl_link (h : m.Alone n key 0) (levels : Nat) :
    Alone ((List.range levels).foldl (LockFreeSkipList.link (fun _ => none) n) m) n key levels := by
  induction levels with
  | zero => exact h
  | succ levels ih =>
      rw [List.range_succ, List.foldl_append]
      exact ih.link

/-- A search for a key that is not greater stays at the node. -/
theorem descend {levels : Nat} (h : m.Alone n key levels) {key' : Int} (hkey : key' ≤ key)
    (height : Nat) : ∃ update, m.descend (fun k => k < key') height n = some (n, update) := by
  have hnext : ∀ i, m.next i (fun k => k < key') n = none := by
    intro i
    rw [LockFreeSkipList.next]
    rcases h.above i with hnull | hself
    · rw [hnull]
      rfl
    · rw [hself, Option.filter_some_neg]
      rw [h.key_eq]
      exact decide_eq_false (by omega)
  have hwalk : ∀ i, m.walk i (fun k => k < key') n = some n := fun i =>
    (Trail.stop (hnext i)).follow_eq (by rw [List.length_singleton]; decide)
  induction height with
  | zero => exact ⟨_, rfl⟩
  | succ height ih =>
      obtain ⟨update, hupdate⟩ := ih
      exact ⟨_, by rw [LockFreeSkipList.descend, hwalk, Option.bind_some, hupdate]; rfl⟩

/-- **The key of a node that is alone is not found.** -/
theorem get {levels : Nat} (h : m.Alone n key levels) (hlevels : 0 < levels) :
    m.get key = some none := by
  obtain ⟨update, hdescend⟩ := h.descend (le_refl key) m.height
  have hnext : m.next 0 (fun k => k = key) n = none := by
    rw [LockFreeSkipList.next, h.lowest]
    rfl
  rw [LockFreeSkipList.get, search, h.head, if_neg (by omega)]
  simp only [hdescend, Option.map_some, Option.bind_some, hnext, Option.map_none]

end Alone

/-- **The key that is inserted first** is not found afterwards. -/
theorem get_of_first {m : LockFreeSkipList} (hhead : m.head = none)
    (hroom : m.allocated < arenaCapacity) (key value : Int) (level : Level) :
    ∃ m', m.insert key value level = some (m', true) ∧ m'.get key = some none := by
  have halone : Alone (setNode { m with
      height := max m.height level, allocated := (m.allocated + 1) % 2 ^ 64 }
      ⟨m.allocated, hroom⟩ ⟨key, value, fun _ => none, level⟩) ⟨m.allocated, hroom⟩ key 0 := by
    refine ⟨hhead, ?_, ?_, fun i => .inl ?_⟩ <;> rw [setNode_nodes, if_pos rfl]
  have hlinked := halone.foldl_link level
  rw [insert, hhead]
  simp only [insertNew, hroom, dite_true]
  exact ⟨_, rfl, Alone.get ⟨hlinked.head, hlinked.key_eq, hlinked.lowest, hlinked.above⟩ level.2.1⟩

end LockFreeSkipList

/-! ## Runs -/

namespace SkipRun

/-- Nothing is inserted. -/
def NoInsert (_ : SkipRun) (c : SkipCall) (_ : SkipRun) : Prop :=
  match c with
  | .insert .. => False
  | .remove _ => True

/-- Removing from a new list does nothing. -/
theorem step_remove (key : Int) : init.step (.remove key) = some init := by
  have hempty : AList.erase key (∅ : SortedMap) = ∅ := rfl
  show some (SkipRun.mk LockFreeSkipList.new (AList.erase key ∅)) = _
  rw [hempty]
  rfl

/-- **The lookups agree with the finite map** exactly in the runs that insert nothing. -/
theorem agrees_iff_noInsert (calls : List SkipCall) :
    AllSteps step NoInsert init calls ↔ AllSteps step Agrees init calls := by
  refine allSteps_iff_of_invariant (fun r c r' (inv : r = init) hstep (_ : True) hremove => ?_)
    (fun r c r' (inv : r = init) hstep _ hagrees => ?_) calls init rfl
    (allSteps_of_forall (fun _ _ _ _ => trivial) calls init)
  · subst inv
    cases c with
    | insert key value level => exact hremove.elim
    | remove key =>
        rw [step_remove] at hstep
        cases hstep
        exact ⟨rfl, rfl, agrees_init⟩
  · subst inv
    cases c with
    | remove key => trivial
    | insert key value level =>
        obtain ⟨m', hinsert, hget⟩ :=
          LockFreeSkipList.get_of_first (m := .new) rfl (by decide) key value level
        have hcall : LockFreeSkipList.new.call (.insert key value level) = some (m', true) :=
          hinsert
        cases hstep
        have hagrees' := hagrees.2.get key
        simp only [init, hcall, Option.map_some, Option.getD_some, SortedMap.after,
          AList.lookup_insert, hget] at hagrees'
        cases hagrees'

/-- **One key is inserted**, and not found. -/
theorem not_forall_agrees : ¬ ∀ calls : List SkipCall, AllSteps step Agrees init calls := by
  intro hall
  obtain ⟨⟨-, hagrees⟩, -⟩ := hall [.insert 100 1000 ⟨1, by decide⟩]
  exact absurd (hagrees.get 100) (by decide)

end SkipRun

end StopTrading.DataStructures
