import StopTrading.Library.Threads

/-!
# Locks

A family of locks that are not re-entrant: each has an owner or none, and only a lock without an
owner can be acquired.  What a thread holds can be read off its program counter.

* `Owned` — the owners are the threads that hold; `Owned.moves` keeps it through an acquisition, a
  release and any step that holds the same.
* `CanFree` — some continuation frees a lock; a thread that waits for one that no continuation frees
  waits for ever.  `not_canFree_of_trap` is the rule for the latter.

### What is load-bearing

Ownership is *derived*: `held` reads off a program counter which locks its thread has, and
`Owned` says that the owners are these threads.  Mutual exclusion is then no separate invariant,
since a lock has one owner.  `Moves` is the discipline of nested scopes, a lock taken last is
given back first, and a program whose steps are `Moves` keeps `Owned` by `Owned.moves` alone.

That a thread is stuck is a statement about all continuations, so it cannot be shown by a run.
`not_canFree_of_trap` reduces it to a set of states that no step leaves and in which the lock has
an owner; the set is what a client has to find.
-/

namespace StopTrading.Locks

open Transition

universe u v

variable {Tid Pc L : Type u}

/-! ## Owners -/

/-- The owners after thread `t` has acquired `l`, if it had none. -/
def acquire [DecidableEq L] (owner : L → Option Tid) (t : Tid) (l : L) : Option (L → Option Tid) :=
  if (owner l).isNone then some (Function.update owner l (some t)) else none

/-- The owners after `l` has been released. -/
def release [DecidableEq L] (owner : L → Option Tid) (l : L) : L → Option Tid :=
  Function.update owner l none

/-- When a lock can be acquired, and what the owners are then. -/
theorem acquire_eq_some [DecidableEq L] {owner owner' : L → Option Tid} {t : Tid} {l : L} :
    acquire owner t l = some owner' ↔
      owner l = none ∧ owner' = Function.update owner l (some t) := by
  unfold acquire
  split
  · rename_i hnone
    rw [Option.isNone_iff_eq_none] at hnone
    rw [and_iff_right hnone, Option.some.injEq, eq_comm]
  · rename_i hsome
    rw [Option.isNone_iff_eq_none] at hsome
    exact iff_of_false (Option.some_ne_none _).symm fun h => hsome h.1

/-- **The owners are the threads that hold.** -/
def Owned (held : Pc → List L) (owner : L → Option Tid) (pc : Tid → Pc) : Prop :=
  ∀ l t, owner l = some t ↔ l ∈ held (pc t)

section Owned

variable [DecidableEq Tid] {held : Pc → List L} {owner : L → Option Tid}
  {pc : Tid → Pc} {t : Tid} {p : Pc} {l : L}

/-- A move that holds the same. -/
theorem Owned.move (h : Owned held owner pc) (hp : ∀ l', l' ∈ held p ↔ l' ∈ held (pc t)) :
    Owned held owner (Function.update pc t p) := by
  intro l u
  by_cases hu : u = t
  · subst hu
    rw [Function.update_self, hp]
    exact h l u
  · rw [Function.update_of_ne hu]
    exact h l u

/-- A lock without an owner is acquired. -/
theorem Owned.acquire [DecidableEq L] (h : Owned held owner pc) (hfree : owner l = none)
    (hp : ∀ l', l' ∈ held p ↔ l' = l ∨ l' ∈ held (pc t)) :
    Owned held (Function.update owner l (some t)) (Function.update pc t p) := by
  intro l' u
  by_cases hl : l' = l
  · subst hl
    rw [Function.update_self, Option.some.injEq]
    by_cases hu : u = t
    · subst hu
      rw [Function.update_self, hp]
      exact iff_of_true rfl (Or.inl rfl)
    · rw [Function.update_of_ne hu, ← h, hfree]
      exact iff_of_false (Ne.symm hu) (Option.some_ne_none u).symm
  · rw [Function.update_of_ne hl]
    by_cases hu : u = t
    · subst hu
      rw [Function.update_self, hp, or_iff_right hl]
      exact h l' u
    · rw [Function.update_of_ne hu]
      exact h l' u

/-- A lock is released by the thread that holds it. -/
theorem Owned.release [DecidableEq L] (h : Owned held owner pc) (hl : l ∈ held (pc t))
    (hp : ∀ l', l' ∈ held p ↔ l' ≠ l ∧ l' ∈ held (pc t)) :
    Owned held (Locks.release owner l) (Function.update pc t p) := by
  intro l' u
  unfold Locks.release
  by_cases hll : l' = l
  · subst hll
    rw [Function.update_self]
    refine iff_of_false (Option.some_ne_none u).symm ?_
    by_cases hu : u = t
    · subst hu
      rw [Function.update_self, hp]
      exact fun h => h.1 rfl
    · -- nobody else holds it
      rw [Function.update_of_ne hu, ← h, (h l' t).mpr hl]
      exact fun heq => hu (Option.some.inj heq).symm
  · rw [Function.update_of_ne hll]
    by_cases hu : u = t
    · subst hu
      rw [Function.update_self, hp, and_iff_right hll]
      exact h l' u
    · rw [Function.update_of_ne hu]
      exact h l' u

/-- **What a step of a thread does to the locks**: nothing, or it acquires one, or it releases the
one that it has acquired last. -/
inductive Moves [DecidableEq L] (t : Tid) (owner : L → Option Tid) :
    (before after : List L) → (L → Option Tid) → Prop where
  /-- the step is about something else -/
  | stays {locks : List L} : Moves t owner locks locks owner
  /-- a lock without an owner is taken -/
  | acquires {locks : List L} {l : L} (free : owner l = none) :
      Moves t owner locks (l :: locks) (Function.update owner l (some t))
  /-- the lock taken last is given back -/
  | releases {locks : List L} {l : L} :
      Moves t owner (l :: locks) locks (Locks.release owner l)

/-- **Such a step keeps the owners**, and what is held is held once. -/
theorem Owned.moves [DecidableEq L] {owner' : L → Option Tid} (h : Owned held owner pc)
    (hnodup : (held (pc t)).Nodup) (hmoves : Moves t owner (held (pc t)) (held p) owner') :
    Owned held owner' (Function.update pc t p) ∧ (held p).Nodup := by
  generalize hbefore : held (pc t) = before at hnodup hmoves
  generalize hafter : held p = after at hmoves ⊢
  cases hmoves with
  | stays => exact ⟨h.move fun l => by rw [hafter, hbefore], hnodup⟩
  | @acquires _ l free =>
      have hnew : l ∉ before := by
        rw [← hbefore, ← h, free]
        exact (Option.some_ne_none t).symm
      refine ⟨h.acquire free fun l' => ?_, List.nodup_cons.mpr ⟨hnew, hnodup⟩⟩
      rw [hafter, hbefore, List.mem_cons]
  | @releases _ l =>
      obtain ⟨hlast, hrest⟩ := List.nodup_cons.mp hnodup
      refine ⟨h.release ?_ fun l' => ?_, hrest⟩
      · rw [hbefore]
        exact List.mem_cons_self
      · rw [hafter, hbefore, List.mem_cons]
        constructor
        · exact fun hmem => ⟨fun heq => hlast (heq ▸ hmem), Or.inr hmem⟩
        · exact fun ⟨hne, hmem⟩ => hmem.resolve_left hne

end Owned

/-! ## Waiting -/

variable {S : Type u} {A : Type v} {step : S → A → Option S} {owner : S → L → Option Tid}

/-- **Some continuation frees the lock.** -/
def CanFree (step : S → A → Option S) (owner : S → L → Option Tid) (s : S) (l : L) : Prop :=
  ∃ as s', run step s as = some s' ∧ owner s' l = none

/-- It has no owner already. -/
theorem CanFree.here {s : S} {l : L} (h : owner s l = none) : CanFree step owner s l :=
  ⟨[], s, rfl, h⟩

/-- It can be freed after a step. -/
theorem CanFree.after {s s' : S} {a : A} {l : L} (hstep : step s a = some s')
    (h : CanFree step owner s' l) : CanFree step owner s l := by
  obtain ⟨as, s'', hrun, hfree⟩ := h
  exact ⟨a :: as, s'', run_cons.mpr ⟨s', hstep, hrun⟩, hfree⟩

/-- **A lock is never freed** in a trap in which it has an owner. -/
theorem not_canFree_of_trap {Trap : S → Prop} {l : L}
    (stay : ∀ s a s', Trap s → step s a = some s' → Trap s')
    (owned : ∀ s, Trap s → owner s l ≠ none) {s : S} (h : Trap s) : ¬ CanFree step owner s l := by
  rintro ⟨as, s', hrun, hfree⟩
  exact owned s' (run_of_invariant' stay h hrun) hfree

end StopTrading.Locks
