import StopTrading.Library.Transition

/-!
# Threads interleaving over a shared state

A program is given by its atomic operations: `prog t sh p c` is what thread `t`
does next when the shared state is `sh`, its program counter is `p` and the
choices it leaves open (which call to make, whether a weak compare-exchange
fails, which sleeper the kernel wakes) are resolved by `c`.  A `State` pairs the
shared state with one program counter a thread, and `step` lets the named thread
perform one atomic operation.  The thread names are arbitrary, so there is no
bound on the number of threads, and a run of `step` is an arbitrary
interleaving.

* `step_eq_some` — a step is an operation of the program by the thread that
  moves, every other program counter unchanged.
* `forall_pc_update` — what is left to show of a property of all program
  counters after a step.
* `eq_or_pc_of_update` — where a thread found in some program counter after a
  step comes from.
* `run_solo`, `solo_of_invariant` — what a thread does while no other moves.
* `step_map` — the same threads over an image of the shared state.

### Design decisions

* **One operation is one step.**  A thread is preempted between any two operations and nowhere
  else, so `prog` must return after each atomic access.  What it keeps in registers in between is
  a part of the program counter.
* **Program counters are a function, not a list.**  `Tid` is an arbitrary type with decidable
  equality; results hold for every number of threads because no result ever enumerates them.
* **Choices are inputs.**  What the hardware or the scheduler leaves open is in `Choice`, so that
  `step` is a function and the rules of `Transition` apply.

The two lemmas that carry most invariants are `step_eq_some`, which turns a step into an
operation of the program, and `forall_pc_update`, which leaves two goals of a property of all
threads: the thread that moved, and the others, whose program counter is the old one while the
shared state is new.  The second goal is where a proof about concurrent code has its content.
-/

namespace StopTrading.Threads

universe u

variable {Tid Pc Shared Choice : Type u} [DecidableEq Tid]

/-- The shared state and the program counter of every thread. -/
@[ext]
structure State (Tid Pc Shared : Type u) where
  shared : Shared
  pc : Tid → Pc

/-- **One atomic operation** of the thread the action names. -/
def step (prog : Tid → Shared → Pc → Choice → Option (Shared × Pc))
    (s : State Tid Pc Shared) (a : Tid × Choice) : Option (State Tid Pc Shared) :=
  (prog a.1 s.shared (s.pc a.1) a.2).map fun r => ⟨r.1, Function.update s.pc a.1 r.2⟩

variable {prog : Tid → Shared → Pc → Choice → Option (Shared × Pc)}

/-- What a step is: an operation of the program counter of the thread that moves. -/
theorem step_eq_some {s s' : State Tid Pc Shared} {a : Tid × Choice} :
    step prog s a = some s' ↔
      ∃ sh p, prog a.1 s.shared (s.pc a.1) a.2 = some (sh, p) ∧
        s' = ⟨sh, Function.update s.pc a.1 p⟩ := by
  constructor
  · intro h
    obtain ⟨⟨sh, p⟩, hprog, hs'⟩ := Option.map_eq_some_iff.mp h
    exact ⟨sh, p, hprog, hs'.symm⟩
  · rintro ⟨sh, p, hprog, rfl⟩
    exact Option.map_eq_some_iff.mpr ⟨(sh, p), hprog, rfl⟩

/-- A property of all threads after a step: of the thread that moved, and of the
others where they were. -/
theorem forall_pc_update {pc : Tid → Pc} {t : Tid} {p : Pc} {Q : Tid → Pc → Prop}
    (moved : Q t p) (others : ∀ u, u ≠ t → Q u (pc u)) :
    ∀ u, Q u (Function.update pc t p u) :=
  (Function.forall_update_iff pc Q).mpr ⟨moved, others⟩

/-- A thread seen after a step either is the one that moved or was there before. -/
theorem eq_or_pc_of_update {pc : Tid → Pc} {t u : Tid} {p q : Pc}
    (h : Function.update pc t p u = q) : (u = t ∧ p = q) ∨ (u ≠ t ∧ pc u = q) := by
  by_cases hu : u = t
  · subst hu
    rw [Function.update_self] at h
    exact Or.inl ⟨rfl, h⟩
  · rw [Function.update_of_ne hu] at h
    exact Or.inr ⟨hu, h⟩

/-- The operations of a thread that runs alone. -/
def solo (prog : Tid → Shared → Pc → Choice → Option (Shared × Pc)) (t : Tid) :
    Shared → Pc → List Choice → Option (Shared × Pc)
  | sh, p, [] => some (sh, p)
  | sh, p, c :: cs => (prog t sh p c).bind fun r => solo prog t r.1 r.2 cs

omit [DecidableEq Tid] in
/-- A thread's operations, one part after the other. -/
theorem solo_append {t : Tid} {sh sh' sh'' : Shared} {p p' p'' : Pc} {cs ds : List Choice}
    (hfirst : solo prog t sh p cs = some (sh', p'))
    (hrest : solo prog t sh' p' ds = some (sh'', p'')) :
    solo prog t sh p (cs ++ ds) = some (sh'', p'') := by
  induction cs generalizing sh p with
  | nil =>
      obtain ⟨rfl, rfl⟩ := Prod.mk.inj (Option.some.inj hfirst)
      exact hrest
  | cons c cs ih =>
      obtain ⟨⟨sh₁, p₁⟩, hprog, hcs⟩ := Option.bind_eq_some_iff.mp hfirst
      rw [List.cons_append, solo, hprog]
      exact ih hcs

/-- While one thread moves, the others stay where they are. -/
theorem run_solo {t : Tid} {s : State Tid Pc Shared} {sh : Shared} {p : Pc} {cs : List Choice}
    (h : solo prog t s.shared (s.pc t) cs = some (sh, p)) :
    Transition.run (step prog) s (cs.map (Prod.mk t)) = some ⟨sh, Function.update s.pc t p⟩ := by
  induction cs generalizing s with
  | nil =>
      obtain ⟨rfl, rfl⟩ := Prod.mk.inj (Option.some.inj h)
      exact congrArg some (State.ext rfl (Function.update_eq_self t s.pc).symm)
  | cons c cs ih =>
      obtain ⟨⟨sh', p'⟩, hprog, hrest⟩ := Option.bind_eq_some_iff.mp h
      refine Transition.run_cons.mpr ⟨_, step_eq_some.mpr ⟨sh', p', hprog, rfl⟩, ?_⟩
      have hpc : Function.update s.pc t p' t = p' := Function.update_self t p' s.pc
      rw [← hpc] at hrest
      rw [ih hrest, Function.update_idem]

omit [DecidableEq Tid] in
/-- What the operations of a thread keep, it keeps while it runs alone. -/
theorem solo_of_invariant {t : Tid} {Inv : Shared → Pc → Prop}
    (keep : ∀ sh p c sh' p', Inv sh p → prog t sh p c = some (sh', p') → Inv sh' p')
    {cs : List Choice} {sh sh' : Shared} {p p' : Pc} (inv : Inv sh p)
    (h : solo prog t sh p cs = some (sh', p')) : Inv sh' p' := by
  induction cs generalizing sh p with
  | nil =>
      obtain ⟨rfl, rfl⟩ := Prod.mk.inj (Option.some.inj h)
      exact inv
  | cons c cs ih =>
      obtain ⟨⟨sh'', p''⟩, hprog, hrest⟩ := Option.bind_eq_some_iff.mp h
      exact ih (keep sh p c sh'' p'' inv hprog) hrest

/-- The same threads over another shared state. -/
def State.map {Shared' : Type u} (f : Shared → Shared') (s : State Tid Pc Shared) :
    State Tid Pc Shared' :=
  ⟨f s.shared, s.pc⟩

/-- If a map of the shared state commutes with every operation, it commutes with the steps of
the threads. -/
theorem step_map {Shared' : Type u} {f : Shared → Shared'}
    {prog' : Tid → Shared' → Pc → Choice → Option (Shared' × Pc)}
    (h : ∀ t sh p c, prog' t (f sh) p c = (prog t sh p c).map (Prod.map f id))
    (s : State Tid Pc Shared) (a : Tid × Choice) :
    step prog' (s.map f) a = (step prog s a).map (State.map f) := by
  unfold step
  rw [State.map, h, Option.map_map, Option.map_map]
  rfl

end StopTrading.Threads
