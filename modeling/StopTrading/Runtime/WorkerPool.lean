import StopTrading.Library.Threads
import Mathlib.Data.Fin.Basic

/-!
# The worker pool

`WorkerPool` has a channel for each of four priorities.  `submit` tries to put a task into the
channel of its priority; a worker looks at the channels from the most urgent one on, runs the
first task that it finds and begins again.  `poolThread` runs both one atomic operation at a
time, so that tasks come in while a worker looks.

`PoolShared.accepted` are the tasks that came into a channel and `PoolShared.taken` those that
came out of it, each in order; a worker carries how many tasks of each priority had been
accepted when it began to look.

* `pool_serves` — in every run, the tasks of a priority are taken once each and in the order
  in which they were accepted, a bounded channel is never overfull, and a worker that runs a
  task has left none behind that is more urgent and was accepted before it began to look.

### What is load-bearing

A worker looks at four channels one after the other, and tasks come in behind its back.  So "no
more urgent task is waiting" is true of no moment: a critical task may arrive just after the
worker has passed the critical channel.  What does hold is relative to the moment the worker
began: `scanning` and `running` carry `seen`, how many tasks of each priority had been accepted
by then, and `PoolPc.Fits` says that of the channels behind it all of these are taken.  This
survives what other threads do because both lists only grow (`PoolShared.Extends`); it is
established channel by channel, because an empty channel has had everything taken that was ever
accepted (`PoolShared.Inv.fifo`).

The numbers `seen` and the two lists are for the proof.  No operation branches on them.

### What is taken from elsewhere

The channels are those of the crate `crossbeam_channel`.  Its documentation is what makes them
lists here: a receiver gets the oldest message, each message goes to one receiver, and a bounded
channel refuses a message exactly when it holds as many as its capacity.  Each `try_send` and
each `try_recv` is one operation.
-/

namespace StopTrading.Runtime

open Transition Threads

/-- `TaskPriority`. -/
inductive TaskPriority where
  | critical
  | high
  | normal
  | low
  deriving Repr, DecidableEq

/-- `priority as usize`. -/
def TaskPriority.index : TaskPriority → Fin 4
  | .critical => 0
  | .high => 1
  | .normal => 2
  | .low => 3

/-- The receivers, in the order in which a worker looks at them. -/
def receivers : List (Fin 4) := [0, 1, 2, 3]

/-- `WorkerPool`; a channel by what is in it, and no capacity for an unbounded one. -/
structure WorkerPool (T : Type) where
  /-- what is in each channel, the oldest task first -/
  queues : Fin 4 → List T
  /-- the capacity of every channel, zero if they are unbounded -/
  capacity : Nat
  /-- the flag that makes workers stop before they look again -/
  shutdown : Bool
  /-- a statistic; nothing depends on it -/
  tasksSubmitted : BitVec 64

/-- The pool, and what came into and out of its channels. -/
structure PoolShared (T : Type) where
  pool : WorkerPool T
  /-- ghost: the tasks that `submit` got into a channel, in order -/
  accepted : Fin 4 → List T
  /-- ghost: the tasks that workers took out of it, in order -/
  taken : Fin 4 → List T

/-- Where a thread is in its call.  A worker carries the receivers it has still to look at, and
how many tasks had been accepted when it began. -/
inductive PoolPc (T : Type) where
  | idle
  /-- in `submit`, behind the channel and before the counter -/
  | counting
  /-- outside again, with what `submit` returned -/
  | submitted (result : Bool)
  /-- a worker about to read the flag -/
  | looking
  /-- a worker on its way through the receivers `rest` -/
  | scanning (rest : List (Fin 4)) (seen : Fin 4 → Nat)
  /-- a worker with a task of priority `i` -/
  | running (i : Fin 4) (task : T) (seen : Fin 4 → Nat)
  /-- a worker that has seen the flag; it makes no more calls -/
  | stopped

/-- The call a thread makes, where `work` is the loop of a worker; inside a call, that it goes
on. -/
inductive PoolCall (T : Type) where
  | submit (priority : TaskPriority) (task : T)
  | shutdown
  | work
  | goOn

variable {T : Type}

/-- There is room in a channel. -/
def WorkerPool.hasRoom (p : WorkerPool T) (i : Fin 4) : Bool :=
  p.capacity = 0 ∨ (p.queues i).length < p.capacity

/-- A thread outside its calls makes one. -/
def callPool (sh : PoolShared T) : PoolCall T → Option (PoolShared T × PoolPc T)
  | .submit priority task =>
      let i := priority.index
      if sh.pool.hasRoom i then
        some ({ sh with
          pool := { sh.pool with
            queues := Function.update sh.pool.queues i (sh.pool.queues i ++ [task]) }
          accepted := Function.update sh.accepted i (sh.accepted i ++ [task]) }, .counting)
      else some (sh, .submitted false)
  | .shutdown => some ({ sh with pool := { sh.pool with shutdown := true } }, .idle)
  | .work => some (sh, .looking)
  | .goOn => none

/-- `try_recv` on a channel. -/
def receive (sh : PoolShared T) (i : Fin 4) (rest : List (Fin 4)) (seen : Fin 4 → Nat) :
    PoolShared T × PoolPc T :=
  match sh.pool.queues i with
  | [] => (sh, .scanning rest seen)
  | task :: queue =>
      ({ sh with
        pool := { sh.pool with queues := Function.update sh.pool.queues i queue }
        taken := Function.update sh.taken i (sh.taken i ++ [task]) }, .running i task seen)

/-- **One atomic operation of a thread.** -/
def poolThread {Tid : Type} (_ : Tid) (sh : PoolShared T) :
    PoolPc T → PoolCall T → Option (PoolShared T × PoolPc T)
  | .idle, c => callPool sh c
  | .submitted _, c => callPool sh c
  | .counting, .goOn =>
      some ({ sh with pool := { sh.pool with tasksSubmitted := sh.pool.tasksSubmitted + 1 } },
        .submitted true)
  | .looking, .goOn =>
      if sh.pool.shutdown then some (sh, .stopped)
      else some (sh, .scanning receivers fun i => (sh.accepted i).length)
  | .scanning (i :: rest) seen, .goOn => some (receive sh i rest seen)
  | .scanning [] _, .goOn => some (sh, .looking)
  | .running _ _ _, .goOn => some (sh, .looking)
  | _, _ => none

/-- Threads and the pool they share. -/
abbrev PoolThreads (Tid T : Type) := State Tid (PoolPc T) (PoolShared T)

/-- A new pool, whose workers are not under way yet. -/
def PoolThreads.init (Tid T : Type) (capacity : Nat) : PoolThreads Tid T :=
  ⟨⟨⟨fun _ => [], capacity, false, 0⟩, fun _ => [], fun _ => []⟩, fun _ => .idle⟩

/-! ## What an operation does -/

/-- What holds of the pool between two operations. -/
structure PoolShared.Inv (sh : PoolShared T) : Prop where
  /-- a channel holds what was accepted and not yet taken -/
  fifo : ∀ i, sh.accepted i = sh.taken i ++ sh.pool.queues i
  /-- and never more than its capacity -/
  bounded : sh.pool.capacity ≠ 0 → ∀ i, (sh.pool.queues i).length ≤ sh.pool.capacity

/-- What a worker knows: of the receivers behind it, all that had been accepted is taken. -/
def PoolPc.Fits (sh : PoolShared T) : PoolPc T → Prop
  | .scanning rest seen => rest <:+ receivers ∧ (∀ i, seen i ≤ (sh.accepted i).length) ∧
      ∀ j, j ∉ rest → seen j ≤ (sh.taken j).length
  | .running i task seen => task ∈ sh.taken i ∧ ∀ j < i, seen j ≤ (sh.taken j).length
  | _ => True

/-- Tasks come in and are taken, never the other way, and the channels keep their size. -/
structure PoolShared.Extends (sh sh' : PoolShared T) : Prop where
  /-- the capacity is chosen once -/
  capacity : sh'.pool.capacity = sh.pool.capacity
  /-- accepted tasks stay accepted -/
  accepted : ∀ i, sh.accepted i <+: sh'.accepted i
  /-- taken tasks stay taken -/
  taken : ∀ i, sh.taken i <+: sh'.taken i

/-- What a worker knows stays true. -/
theorem PoolPc.Fits.mono {sh sh' : PoolShared T} (ext : sh.Extends sh') {p : PoolPc T}
    (fits : p.Fits sh) : p.Fits sh' := by
  cases p with
  | scanning rest seen =>
      obtain ⟨hrest, haccepted, htaken⟩ := fits
      exact ⟨hrest, fun i => (haccepted i).trans (ext.accepted i).length_le,
        fun j hj => (htaken j hj).trans (ext.taken j).length_le⟩
  | running i task seen =>
      exact ⟨(ext.taken i).subset fits.1, fun j hj => (fits.2 j hj).trans (ext.taken j).length_le⟩
  | _ => trivial

/-- One more entry in one of the lists. -/
theorem prefix_update_append (f : Fin 4 → List T) (i j : Fin 4) (task : T) :
    f j <+: Function.update f i (f i ++ [task]) j := by
  by_cases hj : j = i
  · subst hj
    simp
  · simp [hj]

/-- What one operation does: the invariant is kept, nothing accepted or taken is forgotten, and
the thread that moved knows what it needs. -/
structure PoolEffect (sh sh' : PoolShared T) (p' : PoolPc T) : Prop where
  /-- the channels stay in order -/
  inv : sh'.Inv
  /-- whatever other threads know stays true -/
  ext : sh.Extends sh'
  /-- and the thread that moved knows what its place asks for -/
  fits : p'.Fits sh'

/-- An operation that touches no channel. -/
theorem PoolEffect.of_same {sh sh' : PoolShared T} {p' : PoolPc T} (inv : sh.Inv)
    (queues : sh'.pool.queues = sh.pool.queues) (capacity : sh'.pool.capacity = sh.pool.capacity)
    (accepted : sh'.accepted = sh.accepted) (taken : sh'.taken = sh.taken)
    (fits : p'.Fits sh) : PoolEffect sh sh' p' := by
  have ext : sh.Extends sh' :=
    ⟨capacity, fun i => by simp [accepted], fun i => by simp [taken]⟩
  refine ⟨⟨fun i => ?_, fun hcap i => ?_⟩, ext, fits.mono ext⟩
  · rw [accepted, taken, queues]
    exact inv.fifo i
  · rw [capacity] at hcap ⊢
    rw [queues]
    exact inv.bounded hcap i

/-- A call into the pool. -/
theorem callPool_effect {sh sh' : PoolShared T} {c : PoolCall T} {p' : PoolPc T} (inv : sh.Inv)
    (h : callPool sh c = some (sh', p')) : PoolEffect sh sh' p' := by
  cases c with
  | submit priority task =>
      simp only [callPool] at h
      split at h
      case isTrue hroom =>
        obtain ⟨rfl, rfl⟩ := Prod.mk.inj (Option.some.inj h)
        refine ⟨⟨fun i => ?_, fun hcap i => ?_⟩,
          ⟨rfl, fun i => prefix_update_append _ _ _ _, fun i => List.prefix_rfl⟩, trivial⟩
        · by_cases hi : i = priority.index
          · subst hi
            simp [inv.fifo priority.index]
          · simp [hi, inv.fifo i]
        · by_cases hi : i = priority.index
          · subst hi
            have hlt : (sh.pool.queues priority.index).length < sh.pool.capacity := by
              simpa [WorkerPool.hasRoom, show sh.pool.capacity ≠ 0 from hcap] using hroom
            simpa using Nat.succ_le_of_lt hlt
          · simpa [hi] using inv.bounded hcap i
      case isFalse =>
        obtain ⟨rfl, rfl⟩ := Prod.mk.inj (Option.some.inj h)
        exact .of_same inv rfl rfl rfl rfl trivial
  | shutdown =>
      obtain ⟨rfl, rfl⟩ := Prod.mk.inj (Option.some.inj h)
      exact .of_same inv rfl rfl rfl rfl trivial
  | work =>
      obtain ⟨rfl, rfl⟩ := Prod.mk.inj (Option.some.inj h)
      exact .of_same inv rfl rfl rfl rfl trivial
  | goOn => cases h

/-- Every channel has a receiver. -/
theorem mem_receivers : ∀ j, j ∈ receivers := by
  decide

/-- The receivers behind the one that a worker looks at are the more urgent ones. -/
theorem not_mem_of_suffix_receivers {i : Fin 4} {rest : List (Fin 4)}
    (h : i :: rest <:+ receivers) {j : Fin 4} (hj : j < i) : j ∉ i :: rest := by
  have hsorted : (i :: rest).Pairwise (· < ·) :=
    List.Pairwise.sublist h.sublist (show receivers.Pairwise (· < ·) by decide)
  intro hmem
  rcases List.mem_cons.mp hmem with rfl | hrest
  · exact Nat.lt_irrefl _ hj
  · exact Nat.lt_asymm hj (List.rel_of_pairwise_cons hsorted hrest)

/-- A worker looks into a channel. -/
theorem receive_effect {sh : PoolShared T} {i : Fin 4} {rest : List (Fin 4)}
    {seen : Fin 4 → Nat} (inv : sh.Inv) (fits : (PoolPc.scanning (i :: rest) seen).Fits sh) :
    PoolEffect sh (receive sh i rest seen).1 (receive sh i rest seen).2 := by
  obtain ⟨hrest, haccepted, htaken⟩ := fits
  unfold receive
  cases hqueue : sh.pool.queues i with
  | nil =>
      -- nothing is left of the channel, so all that was accepted is taken
      have hall : sh.accepted i = sh.taken i := by
        rw [inv.fifo i, hqueue, List.append_nil]
      refine .of_same inv rfl rfl rfl rfl
        ⟨(List.suffix_cons i rest).trans hrest, haccepted, fun j hj => ?_⟩
      by_cases hji : j = i
      · subst hji
        rw [← hall]
        exact haccepted j
      · exact htaken j (by simp [hji, hj])
  | cons task queue =>
      have hlonger : ∀ j, sh.taken j <+: Function.update sh.taken i (sh.taken i ++ [task]) j :=
        fun j => prefix_update_append sh.taken i j task
      refine ⟨⟨fun j => ?_, fun hcap j => ?_⟩, ⟨rfl, fun j => List.prefix_rfl, hlonger⟩,
        by simp, fun j hj => ?_⟩
      · by_cases hj : j = i
        · subst hj
          simp [inv.fifo j, hqueue]
        · simp [hj, inv.fifo j]
      · by_cases hj : j = i
        · subst hj
          have hle := inv.bounded hcap j
          rw [hqueue] at hle
          simpa using Nat.le_of_succ_le hle
        · simpa [hj] using inv.bounded hcap j
      · exact (htaken j (not_mem_of_suffix_receivers hrest hj)).trans (hlonger j).length_le

/-- **One operation of a thread.** -/
theorem poolThread_effect {Tid : Type} {t : Tid} {sh sh' : PoolShared T} {p p' : PoolPc T}
    {c : PoolCall T} (inv : sh.Inv) (fits : p.Fits sh)
    (h : poolThread t sh p c = some (sh', p')) : PoolEffect sh sh' p' := by
  cases p with
  | idle => exact callPool_effect inv h
  | submitted result => exact callPool_effect inv h
  | counting =>
      cases c <;> simp [poolThread] at h
      obtain ⟨rfl, rfl⟩ := h
      exact .of_same inv rfl rfl rfl rfl trivial
  | looking =>
      cases c <;> simp only [poolThread, reduceCtorEq] at h
      split at h <;> obtain ⟨rfl, rfl⟩ := Prod.mk.inj (Option.some.inj h)
      · exact .of_same inv rfl rfl rfl rfl trivial
      · exact .of_same inv rfl rfl rfl rfl
          ⟨List.suffix_rfl, fun i => le_rfl, fun j hj => absurd (mem_receivers j) hj⟩
  | scanning rest seen =>
      cases rest with
      | nil =>
          cases c <;> simp [poolThread] at h
          obtain ⟨rfl, rfl⟩ := h
          exact .of_same inv rfl rfl rfl rfl trivial
      | cons i rest =>
          cases c <;> simp only [poolThread, reduceCtorEq] at h
          have heffect := receive_effect inv fits
          rw [Option.some.inj h] at heffect
          exact heffect
  | running i task seen =>
      cases c <;> simp [poolThread] at h
      obtain ⟨rfl, rfl⟩ := h
      exact .of_same inv rfl rfl rfl rfl trivial
  | stopped => cases c <;> simp [poolThread] at h

/-! ## The pool over a run -/

/-- The channels are in order and every worker knows what it needs. -/
structure PoolInv {Tid : Type} (capacity : Nat) (s : PoolThreads Tid T) : Prop where
  /-- the capacity is that of `new` -/
  capacity : s.shared.pool.capacity = capacity
  /-- the channels are in order -/
  shared : s.shared.Inv
  /-- every worker knows what its place asks for -/
  fits : ∀ t, (s.pc t).Fits s.shared

/-- Empty channels, and nobody at work. -/
theorem poolInv_init (Tid T : Type) (capacity : Nat) :
    PoolInv capacity (PoolThreads.init Tid T capacity) :=
  ⟨rfl, ⟨fun _ => rfl, fun _ _ => Nat.zero_le _⟩, fun _ => trivial⟩

/-- One operation keeps the pool in order. -/
theorem PoolInv.step {Tid : Type} [DecidableEq Tid] {capacity : Nat} {s s' : PoolThreads Tid T}
    {a : Tid × PoolCall T} (inv : PoolInv capacity s)
    (h : Threads.step poolThread s a = some s') : PoolInv capacity s' := by
  obtain ⟨sh, p, hprog, rfl⟩ := step_eq_some.mp h
  have heffect := poolThread_effect inv.shared (inv.fits a.1) hprog
  exact ⟨heffect.ext.capacity.trans inv.capacity, heffect.inv,
    forall_pc_update heffect.fits fun u _ => (inv.fits u).mono heffect.ext⟩

/-- A worker that runs a task took it from its channel, and left none behind that is more urgent
and had been accepted before the worker began to look. -/
def UrgentFirst {Tid : Type} (s : PoolThreads Tid T) : Prop :=
  ∀ t i task seen, s.pc t = .running i task seen →
    task ∈ s.shared.taken i ∧ ∀ j < i, seen j ≤ (s.shared.taken j).length

/-- The invariant says of a running worker what `UrgentFirst` asks for. -/
theorem PoolInv.urgentFirst {Tid : Type} {capacity : Nat} {s : PoolThreads Tid T}
    (inv : PoolInv capacity s) : UrgentFirst s := by
  intro t i task seen hpc
  have hfits := inv.fits t
  rw [hpc] at hfits
  exact hfits

/-- **What the pool does for its tasks**, in every state of every run: what is taken from a
channel is taken in order and what is left is still there, a bounded channel is never overfull,
and the more urgent tasks come first. -/
theorem pool_serves {Tid : Type} [DecidableEq Tid] (capacity : Nat)
    (as : List (Tid × PoolCall T)) :
    AllStates (Threads.step poolThread)
      (fun s => (∀ i, s.shared.accepted i = s.shared.taken i ++ s.shared.pool.queues i) ∧
        (capacity ≠ 0 → ∀ i, (s.shared.pool.queues i).length ≤ capacity) ∧ UrgentFirst s)
      (PoolThreads.init Tid T capacity) as := by
  refine AllStates.imp (fun s inv => ⟨inv.shared.fifo, fun hcap i => ?_, inv.urgentFirst⟩)
    (allStates_of_invariant (fun _ _ _ inv h => PoolInv.step inv h)
      (poolInv_init Tid T capacity) as)
  rw [← inv.capacity] at hcap ⊢
  exact inv.shared.bounded hcap i

end StopTrading.Runtime
