import Mathlib.Algebra.Order.Ring.Nat
import Mathlib.Data.List.Basic
import StopTrading.Library.Transition

/-!
# The slab allocator

`SlabAllocator` cuts an arena into blocks of one size.  `allocate` hands out the next block
that has never been handed out; `deallocate` counts, and puts nothing back.

`World` adds the list of the live objects, in the order of their allocation.  The blocks that
have been handed out are the first ones of the arena, and the live ones are some of them
(`Inv`), so live blocks never overlap and stay in the arena, and the counter of allocated
objects is right.  Only the promise of a free slab is broken: as soon as an object has been
freed and as many as the slab holds have been allocated, `allocate` refuses although there is
room (`safe_iff_unspent`).

### What is load-bearing

`free_list` is no list but a counter, the number of blocks handed out so far.  That is why so
much is easy: blocks are handed out in the order of their addresses, a block is never handed out
twice, and the live ones are a sublist of the first `freeList` blocks.  Safety of memory is
immediate.

It is also why the promise of reuse fails.  Room is what was never handed out, and `Unspent` says
when that is enough: some is left, or nothing was ever freed, so that all of it is live.
-/

namespace StopTrading.Memory

open Transition

/-- `SlabAllocator`. -/
structure SlabAllocator where
  arena : Nat
  arenaSize : Nat
  objectSize : Nat
  objectsPerSlab : Nat
  freeList : Nat
  allocatedCount : Nat
  allocCount : Nat
  deallocCount : Nat
  deriving Repr, DecidableEq

namespace SlabAllocator

/-- The largest arena that has a layout with the alignment of a cache line. -/
def maxLayoutSize : Nat := 2 ^ 63 - 64

/-- `new`, with the address the system allocator answers; `none` when it panics. -/
def new (arena objectSize arenaSize : Nat) : Option SlabAllocator :=
  if arenaSize > maxLayoutSize then none
  else if arena = 0 then none
  else if objectSize = 0 then none
  else some {
    arena := arena
    arenaSize := arenaSize
    objectSize := objectSize
    objectsPerSlab := arenaSize / objectSize
    freeList := 0
    allocatedCount := 0
    allocCount := 0
    deallocCount := 0 }

/-- `fetch_sub(1)` wraps. -/
def wrappingPred (n : Nat) : Nat := if n = 0 then 2 ^ 64 - 1 else n - 1

/-- `allocate`.  The allocator belongs to one thread, so its compare-exchange succeeds. -/
def allocate (a : SlabAllocator) : Option Nat × SlabAllocator :=
  if a.freeList ≥ a.objectsPerSlab then (none, a)
  else
    (some (a.arena + a.freeList * a.objectSize),
      { a with
        freeList := a.freeList + 1
        allocatedCount := (a.allocatedCount + 1) % 2 ^ 64
        allocCount := (a.allocCount + 1) % 2 ^ 64 })

/-- `deallocate`; `none` when the debug assertion fails. -/
def deallocate (a : SlabAllocator) (ptr : Nat) : Option SlabAllocator :=
  if (ptr - a.arena) / a.objectSize < a.objectsPerSlab then
    -- `free_list` stays where it is: the block is not handed out again
    some { a with
      allocatedCount := wrappingPred a.allocatedCount
      deallocCount := (a.deallocCount + 1) % 2 ^ 64 }
  else none

/-- `allocated`. -/
def allocated (a : SlabAllocator) : Nat := a.allocatedCount

/-- `is_full`. -/
def isFull (a : SlabAllocator) : Bool := a.allocated ≥ a.objectsPerSlab

/-- `is_empty`. -/
def isEmpty (a : SlabAllocator) : Bool := a.allocated = 0

end SlabAllocator

/-- A call. -/
inductive SlabCall where
  | allocate
  | deallocate (ptr : Nat)
  deriving Repr, DecidableEq

/-- An allocator and the objects that are live. -/
structure World where
  slab : SlabAllocator
  live : List Nat
  deriving Repr, DecidableEq

namespace World

/-- One call; a `deallocate` is of a live object. -/
def step (w : World) : SlabCall → Option World
  | .allocate => some ⟨w.slab.allocate.2, w.live ++ w.slab.allocate.1.toList⟩
  | .deallocate ptr =>
      if ptr ∈ w.live then (w.slab.deallocate ptr).map fun a => ⟨a, w.live.erase ptr⟩ else none

/-- The addresses of the first `n` blocks of an arena. -/
def blocks (arena objectSize n : Nat) : List Nat :=
  (List.range n).map fun i => arena + i * objectSize

/-- Two blocks do not overlap. -/
def Disjoint (size p q : Nat) : Prop := p + size ≤ q ∨ q + size ≤ p

instance (size p q : Nat) : Decidable (Disjoint size p q) := inferInstanceAs (Decidable (_ ∨ _))

/-- **The promises of the allocator**: while fewer objects are live than the slab holds the
next `allocate` is served, live blocks are disjoint and in the arena, and the live objects are
counted. -/
structure Safe (w : World) : Prop where
  /-- where there is room there is a block -/
  serves : w.live.length < w.slab.objectsPerSlab → w.slab.allocate.1.isSome
  /-- blocks do not overlap -/
  disjoint : w.live.Pairwise (Disjoint w.slab.objectSize)
  /-- and stay in the arena -/
  inside : ∀ p ∈ w.live, w.slab.arena ≤ p ∧
    p + w.slab.objectSize ≤ w.slab.arena + w.slab.arenaSize
  /-- and are counted -/
  counted : w.slab.allocated = w.live.length

/-- **The slab is not spent**: it has a block that was never handed out, or none of its
objects has been freed. -/
def Unspent (w : World) : Prop :=
  w.slab.allocCount < w.slab.objectsPerSlab ∨ w.slab.deallocCount = 0

instance (w : World) : Decidable w.Unspent := inferInstanceAs (Decidable (_ ∨ _))

/-- What holds between the calls. -/
structure Inv (w : World) : Prop where
  /-- the arena has a layout -/
  layout : w.slab.arenaSize ≤ SlabAllocator.maxLayoutSize
  /-- objects have a size -/
  positive : 0 < w.slab.objectSize
  /-- which says how many there is room for -/
  capacity_eq : w.slab.objectsPerSlab = w.slab.arenaSize / w.slab.objectSize
  /-- no more are handed out -/
  freeList_le : w.slab.freeList ≤ w.slab.objectsPerSlab
  /-- the live ones are some of them -/
  live_sublist : w.live.Sublist (blocks w.slab.arena w.slab.objectSize w.slab.freeList)
  /-- and are counted -/
  allocatedCount_eq : w.slab.allocatedCount = w.live.length
  /-- allocations are counted -/
  allocCount_eq : w.slab.allocCount = w.slab.freeList
  /-- and so are deallocations -/
  deallocCount_eq : w.slab.deallocCount + w.live.length = w.slab.freeList

/-! ## What the calls keep -/

variable {w w' : World}

/-- A new slab has handed out nothing. -/
theorem Inv.new {arena objectSize arenaSize : Nat} {a : SlabAllocator}
    (hnew : SlabAllocator.new arena objectSize arenaSize = some a) : Inv ⟨a, []⟩ := by
  unfold SlabAllocator.new at hnew
  split at hnew
  · cases hnew
  · rename_i hlayout
    split at hnew
    · cases hnew
    · split at hnew
      · cases hnew
      · rename_i hsize
        obtain rfl := Option.some.inj hnew
        exact
          { layout := not_lt.mp hlayout
            positive := Nat.pos_of_ne_zero hsize
            capacity_eq := rfl
            freeList_le := Nat.zero_le _
            live_sublist := List.Sublist.refl []
            allocatedCount_eq := rfl
            allocCount_eq := rfl
            deallocCount_eq := rfl }

namespace Inv

/-- The counters stay far below their bound. -/
theorem capacity_lt (inv : Inv w) : w.slab.objectsPerSlab < 2 ^ 63 := by
  rw [inv.capacity_eq]
  exact lt_of_le_of_lt (le_trans (Nat.div_le_self _ _) inv.layout) (by decide)

/-- **Allocating** hands out the next block, -/
theorem allocate (inv : Inv w) (hstep : w.step .allocate = some w') : Inv w' := by
  obtain rfl := Option.some.inj hstep
  by_cases hspent : w.slab.freeList ≥ w.slab.objectsPerSlab
  · rwa [SlabAllocator.allocate, if_pos hspent, Option.toList_none, List.append_nil]
  · have hcapacity := inv.capacity_lt
    have hcount := inv.deallocCount_eq
    rw [SlabAllocator.allocate, if_neg hspent, Option.toList_some]
    exact
      { layout := inv.layout
        positive := inv.positive
        capacity_eq := inv.capacity_eq
        freeList_le := not_le.mp hspent
        live_sublist := by
          rw [blocks, List.range_succ, List.map_append]
          exact inv.live_sublist.append (List.Sublist.refl _)
        allocatedCount_eq := by
          rw [List.length_append, List.length_singleton, inv.allocatedCount_eq]
          exact Nat.mod_eq_of_lt (by omega)
        allocCount_eq := by
          rw [inv.allocCount_eq]
          exact Nat.mod_eq_of_lt (by omega)
        deallocCount_eq := by
          rw [List.length_append, List.length_singleton, ← Nat.add_assoc]
          exact congrArg (· + 1) hcount }

/-- **deallocating** forgets that one is live, -/
theorem deallocate (inv : Inv w) {ptr : Nat} (hstep : w.step (.deallocate ptr) = some w') :
    Inv w' := by
  simp only [step] at hstep
  split at hstep
  · rename_i hlive
    obtain ⟨a, hdealloc, rfl⟩ := Option.map_eq_some_iff.mp hstep
    unfold SlabAllocator.deallocate at hdealloc
    split at hdealloc
    · obtain rfl := Option.some.inj hdealloc
      have hcapacity := inv.capacity_lt
      have hcount := inv.deallocCount_eq
      have hle := inv.freeList_le
      have hpos : 0 < w.live.length := List.length_pos_of_mem hlive
      have hlength : (w.live.erase ptr).length = w.live.length - 1 := List.length_erase_of_mem hlive
      exact
        { layout := inv.layout
          positive := inv.positive
          capacity_eq := inv.capacity_eq
          freeList_le := hle
          live_sublist := List.erase_sublist.trans inv.live_sublist
          allocatedCount_eq := by
            rw [hlength, inv.allocatedCount_eq]
            exact if_neg (Nat.ne_of_gt hpos)
          allocCount_eq := inv.allocCount_eq
          deallocCount_eq := by
            rw [hlength]
            show (w.slab.deallocCount + 1) % 2 ^ 64 + _ = w.slab.freeList
            omega }
    · cases hdealloc
  · cases hstep

/-- and these are the calls. -/
theorem step {call : SlabCall} (inv : Inv w) (hstep : w.step call = some w') : Inv w' := by
  cases call with
  | allocate => exact inv.allocate hstep
  | deallocate ptr => exact inv.deallocate hstep

/-! ## What the invariant says -/

/-- The blocks of an arena are disjoint. -/
theorem pairwise_blocks (arena objectSize n : Nat) :
    (blocks arena objectSize n).Pairwise (Disjoint objectSize) := by
  refine List.Pairwise.map _ (fun i j hlt => Or.inl ?_) List.pairwise_lt_range
  calc arena + i * objectSize + objectSize
      = arena + (i + 1) * objectSize := by rw [Nat.succ_mul, Nat.add_assoc]
    _ ≤ arena + j * objectSize :=
        Nat.add_le_add_left (Nat.mul_le_mul_right _ hlt) _

/-- The live blocks are in the arena. -/
theorem inside (inv : Inv w) {p : Nat} (hp : p ∈ w.live) :
    w.slab.arena ≤ p ∧ p + w.slab.objectSize ≤ w.slab.arena + w.slab.arenaSize := by
  obtain ⟨i, hi, rfl⟩ := List.mem_map.mp (inv.live_sublist.subset hp)
  refine ⟨Nat.le_add_right _ _, ?_⟩
  have hlt : i + 1 ≤ w.slab.objectsPerSlab := lt_of_lt_of_le (List.mem_range.mp hi) inv.freeList_le
  calc w.slab.arena + i * w.slab.objectSize + w.slab.objectSize
      = w.slab.arena + (i + 1) * w.slab.objectSize := by rw [Nat.succ_mul, Nat.add_assoc]
    _ ≤ w.slab.arena + w.slab.objectsPerSlab * w.slab.objectSize :=
        Nat.add_le_add_left (Nat.mul_le_mul_right _ hlt) _
    _ ≤ w.slab.arena + w.slab.arenaSize := by
        rw [inv.capacity_eq]
        exact Nat.add_le_add_left (Nat.div_mul_le_self _ _) _

/-- `allocate` is served exactly while a block was never handed out. -/
theorem isSome_allocate (a : SlabAllocator) :
    a.allocate.1.isSome ↔ a.freeList < a.objectsPerSlab := by
  unfold SlabAllocator.allocate
  split
  · rename_i hspent
    exact iff_of_false (by simp) (not_lt.mpr hspent)
  · rename_i hfree
    exact iff_of_true rfl (not_le.mp hfree)

/-- The slab serves while there is room exactly if it is not spent. -/
theorem serves_iff (inv : Inv w) :
    (w.live.length < w.slab.objectsPerSlab → w.slab.allocate.1.isSome) ↔ w.Unspent := by
  have hcount := inv.deallocCount_eq
  have hle := inv.freeList_le
  rw [isSome_allocate, Unspent, inv.allocCount_eq]
  omega

/-- **The promises are kept** while the slab is not spent. -/
theorem safe_iff (inv : Inv w) : w.Safe ↔ w.Unspent :=
  ⟨fun safe => inv.serves_iff.mp safe.serves, fun unspent =>
    { serves := inv.serves_iff.mpr unspent
      disjoint := (pairwise_blocks _ _ _).sublist inv.live_sublist
      inside := fun _ hp => inv.inside hp
      counted := inv.allocatedCount_eq }⟩

/-- `is_full` and `is_empty` speak of the live objects. -/
theorem isFull_iff (inv : Inv w) :
    w.slab.isFull = true ↔ w.slab.objectsPerSlab ≤ w.live.length := by
  rw [SlabAllocator.isFull, decide_eq_true_iff, SlabAllocator.allocated, inv.allocatedCount_eq]

/-- A slab is empty when no object is live. -/
theorem isEmpty_iff (inv : Inv w) : w.slab.isEmpty = true ↔ w.live = [] := by
  rw [SlabAllocator.isEmpty, decide_eq_true_iff, SlabAllocator.allocated, inv.allocatedCount_eq,
    List.length_eq_zero_iff]

end Inv

/-- **The promises are kept in exactly the runs that never spend the slab.** -/
theorem safe_iff_unspent {arena objectSize arenaSize : Nat} {a : SlabAllocator}
    (hnew : SlabAllocator.new arena objectSize arenaSize = some a) (calls : List SlabCall) :
    AllStates step Safe ⟨a, []⟩ calls ↔ AllStates step Unspent ⟨a, []⟩ calls :=
  allStates_congr (fun _ inv => Inv.safe_iff inv) (fun _ _ _ inv hstep => Inv.step inv hstep)
    (Inv.new hnew) calls

/-- An object is allocated and freed, and then two more are wanted. -/
def spending : List SlabCall := [.allocate, .deallocate 4096, .allocate, .allocate]

/-- A new slab of two objects. -/
def ofTwo : SlabAllocator := ⟨4096, 128, 64, 2, 0, 0, 0, 0⟩

/-- The run breaks a promise, and spends the slab. -/
theorem safe_iff_unspent_ofTwo :
    AllStates step Safe ⟨ofTwo, []⟩ spending ↔ AllStates step Unspent ⟨ofTwo, []⟩ spending :=
  have hnew : SlabAllocator.new 4096 64 128 = some ofTwo := rfl
  safe_iff_unspent hnew spending

/-- **Freed memory is not used again**: with one object live a slab of two refuses. -/
theorem not_forall_safe :
    ¬ ∀ (arena objectSize arenaSize : Nat) (a : SlabAllocator),
      SlabAllocator.new arena objectSize arenaSize = some a →
        ∀ calls : List SlabCall, AllStates step Safe ⟨a, []⟩ calls := by
  intro h
  have hnew : SlabAllocator.new 4096 64 128 = some ofTwo := rfl
  have hrun : run step ⟨ofTwo, []⟩ [.allocate, .deallocate 4096, .allocate] =
      some ⟨⟨4096, 128, 64, 2, 2, 1, 2, 1⟩, [4160]⟩ := by decide
  exact absurd (((h _ _ _ _ hnew _).of_run hrun).serves (by decide)) (by decide)

end World

end StopTrading.Memory
