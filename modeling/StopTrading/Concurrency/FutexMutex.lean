import StopTrading.Library.Threads
import Mathlib.Data.Finset.Basic
import Mathlib.Data.Fintype.Basic

/-!
# The futex mutex

`FutexMutex` keeps one of `UNLOCKED`, `LOCKED` and `LOCKED_WITH_WAITERS` in a
word.  `mutexThread` runs `lock`, `try_lock` and the drop of a guard one atomic
operation at a time.  The kernel is its specification: `FUTEX_WAIT` puts the
caller among the `sleepers` if the word is `LOCKED_WITH_WAITERS` at that moment,
`FUTEX_WAKE` takes one sleeper out, and a sleeper may also leave on its own (a
spurious wake-up).  Which sleeper is woken is left open, as is the thread that
drops a guard.

A mutex is sound when nobody sleeps without a thread that can wake him, and when
it is unlocked while nobody uses it (`Sound`).  Two operations can break this,
and the theorem is about the runs in which they do not:

* `futex_wait` swaps `LOCKED_WITH_WAITERS` into the word whatever it was.  Over
  `UNLOCKED` this leaves a locked word that nobody owns, for ever
  (`ownerless_run`).
* a woken thread locks the word with `LOCKED`, although others may still sleep;
  the `unlock` that finds `LOCKED` wakes nobody.

The invariant has the clause that matters last: while the word is `UNLOCKED` and
somebody sleeps, some thread is awake inside a call (`Inv.awake`).  That thread
either is about to wake a sleeper or will find the word unlocked and take it.

### What is load-bearing

Ownership is not written down anywhere in the source, which has a word and no more.  `Owner`
brings it out: the word is locked on behalf of one guard or of one thread on its way to the swap
of `unlock`, and of nobody else.  Operations are described by their effect on word, guards and
sleepers (`FutexEffect`), and each lemma about `Owner` is about one kind of effect, so that the
eleven positions of a thread are looked at once, in `mutexThread_effect`.

The two conditions of `Careful` are not of one kind.  `SwapsLocked` is about a word that no
thread owns and never recovers from.  `WakesSleepers` is about a sleeper that nobody will wake,
and a run can be lucky: another thread that is awake in a call may take the mutex and wake him
later.  The disjunct for that thread is what makes the condition necessary
(`wakesSleepers_of_sound`) as well as sufficient.

The kernel is taken by its documentation: it compares the word and puts the caller to sleep in
one step, and it may end a sleep at any time.
-/

namespace StopTrading.Concurrency

open Transition Threads

/-- `UNLOCKED`. -/
def unlocked : Nat := 0

/-- `LOCKED`. -/
def locked : Nat := 1

/-- `LOCKED_WITH_WAITERS`. -/
def lockedWithWaiters : Nat := 2

/-- A locked word is not free, -/
theorem locked_ne_unlocked : locked ≠ unlocked := by decide

/-- and one with waiters is not either. -/
theorem lockedWithWaiters_ne_unlocked : lockedWithWaiters ≠ unlocked := by decide

/-- The word, the number of live guards, and the threads asleep in the kernel. -/
structure FutexShared (Tid : Type) where
  state : Nat
  guards : Nat
  sleepers : Finset Tid

/-- Where a thread is in its call. -/
inductive FutexPc where
  | idle
  | lockLoad
  | lockCas
  | waitSwap
  | waitSyscall
  | inSyscall
  | waitReload
  | tryLoad
  | tryCas
  | unlockSwap
  | unlockWake
  deriving Repr, DecidableEq

/-- The call an idle thread makes, and what the operations leave open. -/
inductive FutexChoice (Tid : Type) where
  | lock
  | tryLock
  | dropGuard
  | goOn
  | failSpuriously
  | wakeSpuriously
  | wake (sleeper : Tid)

/-- The thread is inside `lock`. -/
def FutexPc.inLock : FutexPc → Bool
  | .lockLoad => true
  | .lockCas => true
  | .waitSwap => true
  | .waitSyscall => true
  | .inSyscall => true
  | .waitReload => true
  | _ => false

/-- The thread is inside `unlock`. -/
def FutexPc.inUnlock : FutexPc → Bool
  | .unlockSwap => true
  | .unlockWake => true
  | _ => false

/-- The loop of `lock` after it has seen `current`. -/
def lockSaw (current : Nat) : FutexPc :=
  if current = unlocked then .lockCas else .waitSwap

variable {Tid : Type}

/-- The word is locked and a guard handed out. -/
def FutexShared.acquire (sh : FutexShared Tid) : FutexShared Tid :=
  { sh with state := locked, guards := sh.guards + 1 }

/-- **One atomic operation of a thread.** -/
def mutexThread [DecidableEq Tid] (t : Tid) (sh : FutexShared Tid) :
    FutexPc → FutexChoice Tid → Option (FutexShared Tid × FutexPc)
  | .idle, .lock => some (sh, .lockLoad)
  | .idle, .tryLock => some (sh, .tryLoad)
  | .idle, .dropGuard =>
      if 0 < sh.guards then some ({ sh with guards := sh.guards - 1 }, .unlockSwap) else none
  | .lockLoad, .goOn => some (sh, lockSaw sh.state)
  | .lockCas, .goOn =>
      if sh.state = unlocked then some (sh.acquire, .idle) else some (sh, lockSaw sh.state)
  | .lockCas, .failSpuriously => some (sh, lockSaw sh.state)
  -- `futex_wait` ignores the value it is called with
  | .waitSwap, .goOn =>
      if sh.state = unlocked then
        some ({ sh with state := lockedWithWaiters }, lockSaw unlocked)
      else some ({ sh with state := lockedWithWaiters }, .waitSyscall)
  | .waitSyscall, .goOn =>
      if sh.state = lockedWithWaiters then
        some ({ sh with sleepers := insert t sh.sleepers }, .inSyscall)
      else some (sh, .waitReload)
  | .inSyscall, .goOn => if t ∈ sh.sleepers then none else some (sh, .waitReload)
  | .inSyscall, .wakeSpuriously =>
      if t ∈ sh.sleepers then
        some ({ sh with sleepers := sh.sleepers.erase t }, .waitReload)
      else none
  | .waitReload, .goOn => some (sh, lockSaw sh.state)
  | .tryLoad, .goOn =>
      if sh.state = unlocked then some (sh, .tryCas) else some (sh, .idle)
  | .tryCas, .goOn =>
      if sh.state = unlocked then some (sh.acquire, .idle) else some (sh, .idle)
  | .unlockSwap, .goOn =>
      if sh.state = lockedWithWaiters then some ({ sh with state := unlocked }, .unlockWake)
      else some ({ sh with state := unlocked }, .idle)
  | .unlockWake, .goOn => if sh.sleepers = ∅ then some (sh, .idle) else none
  | .unlockWake, .wake sleeper =>
      if sleeper ∈ sh.sleepers then
        some ({ sh with sleepers := sh.sleepers.erase sleeper }, .idle)
      else none
  | _, _ => none

/-- Threads and the mutex they share. -/
abbrev FutexThreads (Tid : Type) := State Tid FutexPc (FutexShared Tid)

/-- A new mutex, every thread outside its calls. -/
def FutexThreads.init (Tid : Type) : FutexThreads Tid := ⟨⟨unlocked, 0, ∅⟩, fun _ => .idle⟩

/-! ## What a mutex promises -/

namespace FutexThreads

/-- A thread is inside a call and not asleep. -/
def Awake (s : FutexThreads Tid) (t : Tid) : Prop :=
  s.pc t ≠ .idle ∧ t ∉ s.shared.sleepers

/-- **The mutex is sound.** -/
structure Sound (s : FutexThreads Tid) : Prop where
  /-- who sleeps is not the only one who uses the mutex -/
  not_orphaned : ∀ t ∈ s.shared.sleepers, s.shared.guards = 0 → ∃ u, u ≠ t ∧ s.pc u ≠ .idle
  /-- and not all who use it sleep -/
  not_stranded : ∀ t ∈ s.shared.sleepers, s.shared.guards = 0 → ∃ u, s.Awake u
  /-- what nobody uses is unlocked -/
  unlocked_of_unused : s.shared.guards = 0 →
    (∀ t, (s.pc t).inLock = false ∧ (s.pc t).inUnlock = false) → s.shared.state = unlocked

/-- **The step swaps over no unlocked word.** -/
def SwapsLocked (s : FutexThreads Tid) (a : Tid × FutexChoice Tid) (_ : FutexThreads Tid) : Prop :=
  s.pc a.1 = .waitSwap → s.shared.state ≠ unlocked

/-- **The step loses no wake-up**: an `unlock` that finds `LOCKED` leaves no
sleeper behind, unless another thread is awake inside a call. -/
def WakesSleepers (s : FutexThreads Tid) (a : Tid × FutexChoice Tid) (_ : FutexThreads Tid) :
    Prop :=
  s.pc a.1 = .unlockSwap → s.shared.state = locked →
    s.shared.sleepers = ∅ ∨ ∃ u, u ≠ a.1 ∧ s.Awake u

/-! ## The invariant -/

/-- Who is responsible for the word: nobody while it is unlocked, and otherwise
one guard or one thread about to unlock. -/
inductive Owner (s : FutexThreads Tid) : Prop where
  | none (state : s.shared.state = unlocked) (guards : s.shared.guards = 0)
      (pcs : ∀ t, s.pc t ≠ .unlockSwap)
  | guard (state : s.shared.state ≠ unlocked) (guards : s.shared.guards = 1)
      (pcs : ∀ t, s.pc t ≠ .unlockSwap)
  | unlocking (t : Tid) (state : s.shared.state ≠ unlocked) (guards : s.shared.guards = 0)
      (pc : s.pc t = .unlockSwap) (pcs : ∀ u, s.pc u = .unlockSwap → u = t)

/-- **The invariant.** -/
structure Inv (s : FutexThreads Tid) : Prop where
  state_le : s.shared.state ≤ lockedWithWaiters
  owner : s.Owner
  asleep : ∀ t ∈ s.shared.sleepers, s.pc t = .inSyscall
  awake : s.shared.state = unlocked → s.shared.sleepers.Nonempty → ∃ u, s.Awake u

/-- A new mutex has no owner, no sleepers and nobody to wake. -/
theorem inv_init : (init Tid).Inv where
  state_le := Nat.zero_le _
  owner := .none rfl rfl nofun
  asleep := nofun
  awake := fun _ h => absurd h Finset.not_nonempty_empty

/-- A sleeper has an awake thread or a guard to rely on. -/
theorem Inv.awake_of_asleep {s : FutexThreads Tid} (inv : s.Inv) {t : Tid}
    (ht : t ∈ s.shared.sleepers) (hguards : s.shared.guards = 0) : ∃ u, s.Awake u := by
  rcases inv.owner with ⟨state, -, -⟩ | ⟨-, guards, -⟩ | ⟨u, -, -, pc, -⟩
  · exact inv.awake state ⟨t, ht⟩
  · rw [guards] at hguards
    cases hguards
  · refine ⟨u, by rw [pc]; nofun, fun hu => ?_⟩
    rw [inv.asleep u hu] at pc
    cases pc

/-- The invariant is enough for soundness. -/
theorem Inv.sound {s : FutexThreads Tid} (inv : s.Inv) : s.Sound where
  not_stranded := fun t ht hguards => inv.awake_of_asleep ht hguards
  not_orphaned := by
    intro t ht hguards
    obtain ⟨u, hu, hawake⟩ := inv.awake_of_asleep ht hguards
    exact ⟨u, fun heq => hawake (heq ▸ ht), hu⟩
  unlocked_of_unused := by
    intro hguards hunused
    rcases inv.owner with ⟨state, -, -⟩ | ⟨-, guards, -⟩ | ⟨u, -, -, pc, -⟩
    · exact state
    · rw [guards] at hguards
      cases hguards
    · have := (hunused u).2
      rw [pc] at this
      cases this

end FutexThreads

/-! ## What an operation does -/

variable [DecidableEq Tid]

/-- One operation by its effect on the word, the guards and the sleepers. -/
inductive FutexEffect (t : Tid) (sh : FutexShared Tid) (p : FutexPc) (sh' : FutexShared Tid)
    (p' : FutexPc) : Prop where
  /-- nothing but the thread itself moves; it leaves only if that strands nobody -/
  | silent (shared : sh' = sh) (pc : p ≠ .unlockSwap) (pc' : p' ≠ .unlockSwap)
      (up : p = .inSyscall → t ∉ sh.sleepers)
      (stays : p' ≠ .idle ∨ sh.state ≠ unlocked ∨ sh.sleepers = ∅)
  | acquire (shared : sh' = sh.acquire) (state : sh.state = unlocked) (pc : p ≠ .unlockSwap)
      (up : p ≠ .inSyscall) (pc' : p' = .idle)
  | swap (shared : sh' = { sh with state := lockedWithWaiters }) (pc : p = .waitSwap)
      (pc' : p' ≠ .unlockSwap)
  | sleep (shared : sh' = { sh with sleepers := insert t sh.sleepers })
      (state : sh.state = lockedWithWaiters) (pc : p = .waitSyscall) (pc' : p' = .inSyscall)
  | wakeSelf (shared : sh' = { sh with sleepers := sh.sleepers.erase t }) (pc : p = .inSyscall)
      (pc' : p' = .waitReload)
  | release (shared : sh' = { sh with guards := sh.guards - 1 }) (live : 0 < sh.guards)
      (pc : p = .idle) (pc' : p' = .unlockSwap)
  | unlock (shared : sh' = { sh with state := unlocked }) (pc : p = .unlockSwap)
      (pc' : (sh.state = lockedWithWaiters ∧ p' = .unlockWake) ∨
        (sh.state ≠ lockedWithWaiters ∧ p' = .idle))
  | wake (sleeper : Tid) (shared : sh' = { sh with sleepers := sh.sleepers.erase sleeper })
      (asleep : sleeper ∈ sh.sleepers) (pc : p = .unlockWake) (pc' : p' = .idle)

/-- The loop of `lock` does not lead to `unlock`, -/
theorem lockSaw_ne_unlockSwap (current : Nat) : lockSaw current ≠ .unlockSwap := by
  unfold lockSaw
  split <;> nofun

/-- nor out of the call. -/
theorem lockSaw_ne_idle (current : Nat) : lockSaw current ≠ .idle := by
  unfold lockSaw
  split <;> nofun

/-- The swap of `unlock` frees the word, and goes on to wake a sleeper if it found
waiters. -/
theorem unlockSwap_effect {t : Tid} {sh sh' : FutexShared Tid} {p' : FutexPc}
    {c : FutexChoice Tid} (h : mutexThread t sh .unlockSwap c = some (sh', p')) :
    sh' = { sh with state := unlocked } ∧
      ((sh.state = lockedWithWaiters ∧ p' = .unlockWake) ∨
        (sh.state ≠ lockedWithWaiters ∧ p' = .idle)) := by
  cases c with
  | goOn =>
      simp only [mutexThread] at h
      split at h
      · cases h; exact ⟨rfl, Or.inl ⟨‹_›, rfl⟩⟩
      · cases h; exact ⟨rfl, Or.inr ⟨‹_›, rfl⟩⟩
  | _ => cases h

/-- **The operations by their effect.** -/
theorem mutexThread_effect {t : Tid} {sh sh' : FutexShared Tid} {p p' : FutexPc}
    {c : FutexChoice Tid} (h : mutexThread t sh p c = some (sh', p')) :
    FutexEffect t sh p sh' p' := by
  cases p with
  | idle =>
      cases c with
      | lock | tryLock => cases h; exact .silent rfl nofun nofun nofun (Or.inl nofun)
      | dropGuard =>
          simp only [mutexThread] at h
          split at h
          · cases h; exact .release rfl ‹_› rfl rfl
          · cases h
      | _ => cases h
  | lockLoad | waitReload =>
      cases c with
      | goOn =>
          cases h
          exact .silent rfl nofun (lockSaw_ne_unlockSwap _) nofun (Or.inl (lockSaw_ne_idle _))
      | _ => cases h
  | lockCas =>
      cases c with
      | goOn =>
          simp only [mutexThread] at h
          split at h
          · cases h; exact .acquire rfl ‹_› nofun nofun rfl
          · cases h
            exact .silent rfl nofun (lockSaw_ne_unlockSwap _) nofun (Or.inl (lockSaw_ne_idle _))
      | failSpuriously =>
          cases h
          exact .silent rfl nofun (lockSaw_ne_unlockSwap _) nofun (Or.inl (lockSaw_ne_idle _))
      | _ => cases h
  -- the word is marked as having waiters even where it was free
  | waitSwap =>
      cases c with
      | goOn =>
          simp only [mutexThread] at h
          split at h
          · cases h; exact .swap rfl rfl (lockSaw_ne_unlockSwap _)
          · cases h; exact .swap rfl rfl nofun
      | _ => cases h
  -- the kernel compares the word once more: a thread falls asleep on the marked lock only
  | waitSyscall =>
      cases c with
      | goOn =>
          simp only [mutexThread] at h
          split at h
          · cases h; exact .sleep rfl ‹_› rfl rfl
          · cases h; exact .silent rfl nofun nofun nofun (Or.inl nofun)
      | _ => cases h
  | inSyscall =>
      cases c with
      | goOn =>
          simp only [mutexThread] at h
          split at h
          · cases h
          · cases h; exact .silent rfl nofun nofun (fun _ => ‹_›) (Or.inl nofun)
      | wakeSpuriously =>
          simp only [mutexThread] at h
          split at h
          · cases h; exact .wakeSelf rfl rfl rfl
          · cases h
      | _ => cases h
  | tryLoad =>
      cases c with
      | goOn =>
          simp only [mutexThread] at h
          split at h
          · cases h; exact .silent rfl nofun nofun nofun (Or.inl nofun)
          · cases h; exact .silent rfl nofun nofun nofun (Or.inr (Or.inl ‹_›))
      | _ => cases h
  | tryCas =>
      cases c with
      | goOn =>
          simp only [mutexThread] at h
          split at h
          · cases h; exact .acquire rfl ‹_› nofun nofun rfl
          · cases h; exact .silent rfl nofun nofun nofun (Or.inr (Or.inl ‹_›))
      | _ => cases h
  | unlockSwap =>
      obtain ⟨shared, pc'⟩ := unlockSwap_effect h
      exact .unlock shared rfl pc'
  -- waking finds nobody, or a thread that the scheduler picks
  | unlockWake =>
      cases c with
      | goOn =>
          simp only [mutexThread] at h
          split at h
          · cases h; exact .silent rfl nofun nofun nofun (Or.inr (Or.inr ‹_›))
          · cases h
      | wake sleeper =>
          simp only [mutexThread] at h
          split at h
          · cases h; exact .wake sleeper rfl ‹_› rfl rfl
          · cases h
      | _ => cases h

/-! ## The invariant is kept -/

namespace FutexThreads

/-- The owner stays when a thread moves outside the swap of `unlock` and the word
stays locked or unlocked. -/
theorem Owner.move {s : FutexThreads Tid} (h : s.Owner) {t : Tid} {sh : FutexShared Tid}
    {p : FutexPc} (hstate : sh.state = unlocked ↔ s.shared.state = unlocked)
    (hguards : sh.guards = s.shared.guards) (hpc : s.pc t ≠ .unlockSwap)
    (hpc' : p ≠ .unlockSwap) : Owner ⟨sh, Function.update s.pc t p⟩ := by
  have before : ∀ u, Function.update s.pc t p u = .unlockSwap → s.pc u = .unlockSwap := by
    intro u hu
    rcases eq_or_pc_of_update hu with ⟨-, heq⟩ | ⟨-, heq⟩
    · exact absurd heq hpc'
    · exact heq
  cases h with
  | none state guards pcs =>
      exact .none (hstate.mpr state) (hguards.trans guards) fun u hu => pcs u (before u hu)
  | guard state guards pcs =>
      exact .guard (fun hfree => state (hstate.mp hfree)) (hguards.trans guards)
        fun u hu => pcs u (before u hu)
  | unlocking u state guards pc pcs =>
      have hne : u ≠ t := by
        rintro rfl
        exact hpc pc
      refine .unlocking u (fun hfree => state (hstate.mp hfree)) (hguards.trans guards) ?_
        fun v hv => pcs v (before v hv)
      show Function.update s.pc t p u = .unlockSwap
      rw [Function.update_of_ne hne]
      exact pc

/-- The free word has no owner, and the thread that locks it gets the guard. -/
theorem Owner.acquire {s : FutexThreads Tid} (h : s.Owner) {t : Tid} {p : FutexPc}
    (state : s.shared.state = unlocked) (hpc : p ≠ .unlockSwap) :
    Owner ⟨s.shared.acquire, Function.update s.pc t p⟩ := by
  cases h with
  | none _ guards pcs =>
      refine .guard locked_ne_unlocked (congrArg (· + 1) guards) ?_
      exact forall_pc_update (Q := fun _ (q : FutexPc) => q ≠ .unlockSwap) hpc fun u _ => pcs u
  | guard hlocked => exact absurd state hlocked
  | unlocking _ hlocked => exact absurd state hlocked

/-- The thread that drops the guard is the one that unlocks. -/
theorem Owner.release {s : FutexThreads Tid} (h : s.Owner) {t : Tid} {p : FutexPc}
    (live : 0 < s.shared.guards) (hpc : p = .unlockSwap) :
    s.shared.state ≠ unlocked ∧
      Owner ⟨{ s.shared with guards := s.shared.guards - 1 }, Function.update s.pc t p⟩ := by
  cases h with
  | none _ guards => omega
  | guard hlocked guards pcs =>
      refine ⟨hlocked, .unlocking t hlocked (by rw [guards]) ?_ fun u hu => ?_⟩
      · show Function.update s.pc t p t = .unlockSwap
        rw [Function.update_self]
        exact hpc
      · rcases eq_or_pc_of_update hu with ⟨heq, -⟩ | ⟨-, hold⟩
        · exact heq
        · exact absurd hold (pcs u)
  | unlocking _ _ guards => omega

/-- The thread that unlocks is the owner, and leaves none. -/
theorem Owner.unlock {s : FutexThreads Tid} (h : s.Owner) {t : Tid} {p : FutexPc}
    (pc : s.pc t = .unlockSwap) (hpc : p ≠ .unlockSwap) :
    s.shared.state ≠ unlocked ∧
      Owner ⟨{ s.shared with state := unlocked }, Function.update s.pc t p⟩ := by
  cases h with
  | none _ _ pcs => exact absurd pc (pcs t)
  | guard _ _ pcs => exact absurd pc (pcs t)
  | unlocking u hlocked guards _ pcs =>
      have hpcs := forall_pc_update (Q := fun _ (q : FutexPc) => q ≠ .unlockSwap) hpc
        fun v hv hpcv => hv ((pcs v hpcv).trans (pcs t pc).symm)
      exact ⟨hlocked, .none rfl guards hpcs⟩

/-- Sleepers stay in the syscall when the thread that moves is no sleeper
afterwards, or is in the syscall itself. -/
theorem asleep_move {s : FutexThreads Tid} {t : Tid} {sleepers : Finset Tid} {p : FutexPc}
    (inv : s.Inv) (hothers : ∀ u ∈ sleepers, u ≠ t → u ∈ s.shared.sleepers)
    (hself : t ∈ sleepers → p = .inSyscall) :
    ∀ u ∈ sleepers, Function.update s.pc t p u = .inSyscall := by
  have kept := forall_pc_update (Q := fun u (q : FutexPc) => u ∈ sleepers → q = .inSyscall) hself
    fun u hu hmem => inv.asleep u (hothers u hmem hu)
  exact kept

/-- The thread that moved is awake. -/
theorem awake_self {s : FutexThreads Tid} {t : Tid} {sh : FutexShared Tid} {p : FutexPc}
    (hpc : p ≠ .idle) (hup : t ∉ sh.sleepers) :
    ∃ u, Awake ⟨sh, Function.update s.pc t p⟩ u := by
  refine ⟨t, ?_, hup⟩
  show Function.update s.pc t p t ≠ .idle
  rw [Function.update_self]
  exact hpc

/-- Another thread is as awake as it was. -/
theorem awake_other {s : FutexThreads Tid} {t u : Tid} {sh : FutexShared Tid} {p : FutexPc}
    (hu : u ≠ t) (hpc : s.pc u ≠ .idle) (hup : u ∉ sh.sleepers) :
    Awake ⟨sh, Function.update s.pc t p⟩ u := by
  refine ⟨?_, hup⟩
  show Function.update s.pc t p u ≠ .idle
  rw [Function.update_of_ne hu]
  exact hpc

omit [DecidableEq Tid] in
/-- A thread outside the syscall does not sleep. -/
theorem Inv.not_asleep {s : FutexThreads Tid} (inv : s.Inv) {t : Tid}
    (h : s.pc t ≠ .inSyscall) : t ∉ s.shared.sleepers :=
  fun ht => h (inv.asleep t ht)

/-- **A careful operation keeps the invariant.** -/
theorem inv_step {s s' : FutexThreads Tid} {a : Tid × FutexChoice Tid} (inv : s.Inv)
    (hstep : step mutexThread s a = some s') (hswap : s.SwapsLocked a s')
    (hwake : s.WakesSleepers a s') : s'.Inv := by
  obtain ⟨sh, p, hprog, rfl⟩ := step_eq_some.mp hstep
  cases mutexThread_effect hprog with
  | silent shared pc pc' up stays =>
      -- whoever was going to wake the sleepers still is
      subst shared
      have hup : a.1 ∉ s.shared.sleepers := fun h => up (inv.asleep a.1 h) h
      refine ⟨inv.state_le, inv.owner.move Iff.rfl rfl pc pc',
        asleep_move inv (fun u hu _ => hu) fun h => absurd h hup, fun hfree hsome => ?_⟩
      rcases stays with hp | hlocked | hnone
      · exact awake_self hp hup
      · exact absurd hfree hlocked
      · exact absurd hnone hsome.ne_empty
  | acquire shared state pc up pc' =>
      subst shared
      have hup := inv.not_asleep up
      exact ⟨Nat.le_succ locked, inv.owner.acquire state (by rw [pc']; nofun),
        asleep_move inv (fun u hu _ => hu) fun h => absurd h hup,
        fun hfree => absurd hfree locked_ne_unlocked⟩
  | swap shared pc pc' =>
      -- the word stays locked, by the same owner
      subst shared
      have hlocked := hswap pc
      have hup : a.1 ∉ s.shared.sleepers := inv.not_asleep (by rw [pc]; nofun)
      refine ⟨le_rfl, inv.owner.move (iff_of_false lockedWithWaiters_ne_unlocked hlocked) rfl
          (by rw [pc]; nofun) pc',
        asleep_move inv (fun u hu _ => hu) fun h => absurd h hup,
        fun hfree => absurd hfree lockedWithWaiters_ne_unlocked⟩
  -- the word says that there are waiters, so whoever unlocks it will look for them
  | sleep shared state pc pc' =>
      subst shared
      refine ⟨inv.state_le,
        inv.owner.move Iff.rfl rfl (by rw [pc]; nofun) (by rw [pc']; nofun),
        asleep_move inv (fun u hu hne => Finset.mem_of_mem_insert_of_ne hu hne) fun _ => pc',
        fun hfree => ?_⟩
      change s.shared.state = unlocked at hfree
      rw [state] at hfree
      cases hfree
  | wakeSelf shared pc pc' =>
      subst shared
      have hup : a.1 ∉ s.shared.sleepers.erase a.1 := Finset.notMem_erase _ _
      refine ⟨inv.state_le,
        inv.owner.move Iff.rfl rfl (by rw [pc]; nofun) (by rw [pc']; nofun),
        asleep_move inv (fun u hu _ => Finset.mem_of_mem_erase hu) fun h => absurd h hup,
        fun _ _ => awake_self (by rw [pc']; nofun) hup⟩
  | release shared live pc pc' =>
      subst shared
      have hup : a.1 ∉ s.shared.sleepers := inv.not_asleep (by rw [pc]; nofun)
      obtain ⟨hlocked, owner⟩ := inv.owner.release (t := a.1) live pc'
      exact ⟨inv.state_le, owner, asleep_move inv (fun u hu _ => hu) fun h => absurd h hup,
        fun hfree => absurd hfree hlocked⟩
  | unlock shared pc pc' =>
      subst shared
      have hup : a.1 ∉ s.shared.sleepers := inv.not_asleep (by rw [pc]; nofun)
      have hother : p ≠ .unlockSwap := by
        rcases pc' with ⟨-, h⟩ | ⟨-, h⟩ <;> rw [h] <;> nofun
      obtain ⟨hlocked, owner⟩ := inv.owner.unlock pc hother
      refine ⟨Nat.zero_le _, owner, asleep_move inv (fun u hu _ => hu) fun h => absurd h hup,
        fun _ hsome => ?_⟩
      rcases pc' with ⟨-, hp⟩ | ⟨hquiet, hp⟩
      · exact awake_self (by rw [hp]; nofun) hup
      · -- the word was `LOCKED`, so somebody else is awake or nobody sleeps
        have hstate : s.shared.state = locked := by
          have := inv.state_le
          have hzero : s.shared.state ≠ 0 := hlocked
          have htwo : s.shared.state ≠ 2 := hquiet
          change s.shared.state ≤ 2 at this
          show s.shared.state = 1
          omega
        rcases hwake pc hstate with hnone | ⟨u, hu, hawake⟩
        · exact absurd hnone hsome.ne_empty
        · exact ⟨u, awake_other hu hawake.1 hawake.2⟩
  -- the thread that was woken will look at the word, and the others rely on it
  | wake sleeper shared asleep pc pc' =>
      subst shared
      have hup : a.1 ∉ s.shared.sleepers := inv.not_asleep (by rw [pc]; nofun)
      have hsleeper := inv.asleep sleeper asleep
      have hne : sleeper ≠ a.1 := fun heq => hup (heq ▸ asleep)
      refine ⟨inv.state_le,
        inv.owner.move Iff.rfl rfl (by rw [pc]; nofun) (by rw [pc']; nofun),
        asleep_move inv (fun u hu _ => Finset.mem_of_mem_erase hu)
          fun h => absurd (Finset.mem_of_mem_erase h) hup,
        fun _ _ => ⟨sleeper, awake_other hne (by rw [hsleeper]; nofun)
          (Finset.notMem_erase _ _)⟩⟩

/-- **A lost wake-up strands a sleeper.** -/
theorem wakesSleepers_of_sound {s s' : FutexThreads Tid} {a : Tid × FutexChoice Tid}
    (inv : s.Inv) (hstep : step mutexThread s a = some s') (hsound : s'.Sound) :
    s.WakesSleepers a s' := by
  intro hpc hstate
  obtain ⟨sh, p, hprog, rfl⟩ := step_eq_some.mp hstep
  rw [hpc] at hprog
  obtain ⟨rfl, ⟨hwaiters, -⟩ | ⟨-, hp⟩⟩ := unlockSwap_effect hprog
  · rw [hstate] at hwaiters
    cases hwaiters
  · rcases Finset.eq_empty_or_nonempty s.shared.sleepers with hnone | ⟨t, ht⟩
    · exact Or.inl hnone
    · right
      have hguards : s.shared.guards = 0 := by
        rcases inv.owner with ⟨-, guards, -⟩ | ⟨-, -, pcs⟩ | ⟨-, -, guards, -, -⟩
        · exact guards
        · exact absurd hpc (pcs a.1)
        · exact guards
      obtain ⟨u, hu, hup⟩ := hsound.not_stranded t ht hguards
      change Function.update s.pc a.1 p u ≠ .idle at hu
      have hne : u ≠ a.1 := by
        rintro rfl
        rw [Function.update_self] at hu
        exact hu hp
      rw [Function.update_of_ne hne] at hu
      exact ⟨u, hne, hu, hup⟩

/-! ## Runs -/

/-- **The step is careful**: it swaps over no unlocked word and loses no
wake-up. -/
def Careful (s : FutexThreads Tid) (a : Tid × FutexChoice Tid) (s' : FutexThreads Tid) : Prop :=
  SwapsLocked s a s' ∧ WakesSleepers s a s'

/-- **Soundness of the mutex.**  For any number of threads and every interleaving:
a run of careful steps is sound throughout; and a run that swaps over no unlocked
word is sound only if it loses no wake-up. -/
theorem sound_of_careful (run : List (Tid × FutexChoice Tid)) :
    (AllSteps (step mutexThread) Careful (init Tid) run →
      AllStates (step mutexThread) Sound (init Tid) run) ∧
    (AllSteps (step mutexThread) SwapsLocked (init Tid) run →
      AllStates (step mutexThread) Sound (init Tid) run →
        AllSteps (step mutexThread) WakesSleepers (init Tid) run) := by
  constructor
  · intro hcareful
    exact AllStates.of_invariant (fun _ (inv : Inv _) => inv.sound)
      (fun _ _ _ inv hstep careful => inv_step inv hstep careful.1 careful.2) inv_init hcareful
  · intro hswap hsound
    have iff := allSteps_iff_allStates_of_valid (fun _ (inv : Inv _) => inv.sound)
      (fun _ _ _ inv hstep swap wake => inv_step inv hstep swap wake)
      (fun _ _ _ inv hstep _ sound => wakesSleepers_of_sound inv hstep sound) inv_init hswap
    exact iff.mpr hsound

section Decidable

variable [Fintype Tid]

instance (s : FutexThreads Tid) (t : Tid) : Decidable (s.Awake t) :=
  inferInstanceAs (Decidable (_ ∧ _))

instance (s : FutexThreads Tid) (a : Tid × FutexChoice Tid) (s' : FutexThreads Tid) :
    Decidable (Careful s a s') :=
  inferInstanceAs (Decidable ((_ → _ ≠ _) ∧ (_ → _ → _ ∨ ∃ _, _ ∧ _)))

end Decidable

/-- The second thread sleeps while the first holds the guard, is woken by its `unlock`, and gets
the mutex in its turn. -/
def handedOver : List (Bool × FutexChoice Bool) :=
  [(false, .lock), (false, .goOn), (false, .goOn), (true, .lock), (true, .goOn), (true, .goOn),
    (true, .goOn), (false, .dropGuard), (false, .goOn), (false, .wake true), (true, .goOn),
    (true, .goOn), (true, .goOn), (true, .dropGuard), (true, .goOn)]

/-- All steps of that run are careful, and there is a sleeper in it. -/
theorem sound_of_careful_handedOver :
    (run (step mutexThread) (init Bool) handedOver).isSome = true ∧
      AllSteps (step mutexThread) Careful (init Bool) handedOver ∧
      AllStates (step mutexThread) Sound (init Bool) handedOver := by
  have hcareful : AllSteps (step mutexThread) Careful (init Bool) handedOver := by decide
  exact ⟨by decide, hcareful, (sound_of_careful handedOver).1 hcareful⟩

/-- **The word of an ownerless mutex**: it is locked, but there is no guard and
nobody is about to unlock it. -/
structure Ownerless (s : FutexThreads Tid) : Prop where
  state : s.shared.state = lockedWithWaiters
  guards : s.shared.guards = 0
  pcs : ∀ t, s.pc t ≠ .unlockSwap

/-- A swap over an unlocked word leaves the mutex ownerless. -/
theorem ownerless_of_swap {s s' : FutexThreads Tid} {a : Tid × FutexChoice Tid} (inv : s.Inv)
    (hstep : step mutexThread s a = some s') (hswap : ¬ SwapsLocked s a s') : s'.Ownerless := by
  obtain ⟨hpc, hstate⟩ := Classical.not_imp.mp hswap
  have hfree : s.shared.state = unlocked := not_not.mp hstate
  obtain ⟨sh, p, hprog, rfl⟩ := step_eq_some.mp hstep
  rw [hpc] at hprog
  obtain ⟨t, c⟩ := a
  cases c with
  | goOn =>
      simp only [mutexThread, if_pos hfree] at hprog
      cases hprog
      rcases inv.owner with ⟨-, guards, pcs⟩ | ⟨hlocked, -, -⟩ | ⟨-, hlocked, -, -, -⟩
      · exact ⟨rfl, guards, forall_pc_update (Q := fun _ (q : FutexPc) => q ≠ .unlockSwap)
          (lockSaw_ne_unlockSwap _) fun u _ => pcs u⟩
      · exact absurd hfree hlocked
      · exact absurd hfree hlocked
  | _ => cases hprog

/-- No operation gives an ownerless word an owner. -/
theorem ownerless_step {s s' : FutexThreads Tid} {a : Tid × FutexChoice Tid} (h : s.Ownerless)
    (hstep : step mutexThread s a = some s') : s'.Ownerless := by
  obtain ⟨sh, p, hprog, rfl⟩ := step_eq_some.mp hstep
  have hpcs : p ≠ .unlockSwap → ∀ u, Function.update s.pc a.1 p u ≠ .unlockSwap := fun hp =>
    forall_pc_update (Q := fun _ (q : FutexPc) => q ≠ .unlockSwap) hp fun u _ => h.pcs u
  cases mutexThread_effect hprog with
  | silent shared pc pc' up stays => exact ⟨shared ▸ h.state, shared ▸ h.guards, hpcs pc'⟩
  | acquire shared state pc up pc' =>
      rw [h.state] at state
      cases state
  | swap shared pc pc' => exact ⟨shared ▸ rfl, shared ▸ h.guards, hpcs pc'⟩
  | sleep shared state pc pc' =>
      exact ⟨shared ▸ h.state, shared ▸ h.guards, hpcs (by rw [pc']; nofun)⟩
  | wakeSelf shared pc pc' =>
      exact ⟨shared ▸ h.state, shared ▸ h.guards, hpcs (by rw [pc']; nofun)⟩
  | release shared live pc pc' =>
      rw [h.guards] at live
      cases live
  | unlock shared pc pc' => exact absurd pc (h.pcs a.1)
  | wake sleeper shared asleep pc pc' =>
      exact ⟨shared ▸ h.state, shared ▸ h.guards, hpcs (by rw [pc']; nofun)⟩

/-- **An ownerless mutex stays so**: no call gets it any more. -/
theorem ownerless_run {s : FutexThreads Tid} (h : s.Ownerless)
    (run : List (Tid × FutexChoice Tid)) :
    AllStates (step mutexThread) Ownerless s run :=
  allStates_of_invariant (fun _ _ _ ownerless hstep => ownerless_step ownerless hstep) h run

/-- **A sleeper nobody wakes**: the second thread swaps `LOCKED_WITH_WAITERS` over
the word the first has just unlocked, and falls asleep on it. -/
theorem not_forall_sound :
    ¬ ∀ run : List (Bool × FutexChoice Bool),
      AllStates (step mutexThread) Sound (init Bool) run := by
  intro h
  let run : List (Bool × FutexChoice Bool) :=
    [(false, .lock), (false, .goOn), (false, .goOn), (true, .lock), (true, .goOn),
      (false, .dropGuard), (false, .goOn), (true, .goOn), (true, .goOn), (true, .goOn),
      (true, .goOn)]
  obtain ⟨-, -, -, -, -, -, -, -, -, -, -, hsound, -⟩ := h run
  obtain ⟨u, hne, hpc⟩ := hsound.not_orphaned true (by decide) rfl
  cases u with
  | true => exact hne rfl
  | false => exact hpc rfl

end FutexThreads

end StopTrading.Concurrency
