import StopTrading.Library.MachineInt
import StopTrading.Library.Threads

/-!
# The read-write lock

`WaitFreeRwLock` keeps a writer flag and a reader count in one word of 64 bits.
`locker` runs its calls one atomic operation at a time: `read` and `write` loop
around a weak compare-exchange (which may fail spuriously), `try_read` and
`try_write` attempt a strong one once, and dropping a guard is a subtraction or a
store.  `Shared` counts the live guards beside the word; a guard may be dropped
by any thread that is not inside a call.

The relation between word and guards is `Encodes`: the word is the number of
readers while there is no writer, and the flag alone while there is one.  Every
acquisition re-establishes it, except one.  `write` lets the value
`WRITER_FLAG` through to its compare-exchange, as if it meant a free lock; when
the word still is `WRITER_FLAG`, the exchange replaces it by itself and hands out
a second write guard.  `exclusive_iff_noWriterOverWriter` says that nothing else
is wrong: mutual exclusion holds in exactly the runs in which no such exchange is
attempted.

The bound on the number of readers is load-bearing: with `2 ^ 31` readers the
count would reach the flag.

### Design decisions

A guard is counted and not identified: nothing in the lock depends on whose guard is dropped, so
`readers` and `writers` are numbers, and a step that drops a guard asks only that there be one.
A thread may hold any number of guards while it makes further calls, as the types of the source
allow.

The value that a compare-exchange expects is part of the thread's position, since it was loaded
some steps ago.  `Ok` is what such a value has passed; it is all that the threads outside the
current step contribute to the invariant.
-/

namespace StopTrading.Concurrency

open Transition Threads

/-! ## The word -/

/-- `WRITER_FLAG`. -/
def writerFlag : Nat := 2 ^ 31

/-- `READER_MASK`. -/
def readerMask : Nat := 2 ^ 64 - 1 - writerFlag

/-- The flag is one bit, -/
theorem writerFlag_and_self : writerFlag &&& writerFlag = writerFlag := Nat.and_self _

/-- and a number below it is its own count. -/
theorem and_readerMask {n : Nat} (h : n < writerFlag) : n &&& readerMask = n := by
  have hmask : ∀ i < 31, readerMask.testBit i = true := by decide
  apply Nat.eq_of_testBit_eq
  intro i
  rw [Nat.testBit_and]
  by_cases hi : i < 31
  · rw [hmask i hi, Bool.and_true]
  · have hle : n < 2 ^ i := lt_of_lt_of_le h (Nat.pow_le_pow_right (by norm_num) (by omega))
    rw [Nat.testBit_lt_two_pow hle, Bool.false_and]

/-! ## The calls -/

/-- `WaitFreeRwLock`, without the data it protects. -/
structure WaitFreeRwLock where
  state : Nat
  writeContention : Nat
  readContention : Nat
  deriving Repr, DecidableEq

/-- `WaitFreeRwLock::new`. -/
def WaitFreeRwLock.new : WaitFreeRwLock := ⟨0, 0, 0⟩

/-- `reader_count`. -/
def WaitFreeRwLock.readerCount (l : WaitFreeRwLock) : Nat := l.state &&& readerMask

/-- The lock and the numbers of live `ReadGuard`s and `WriteGuard`s. -/
structure RwShared where
  lock : WaitFreeRwLock
  readers : Nat
  writers : Nat
  deriving Repr, DecidableEq

/-- Where a thread is in its call; a compare-exchange carries the value it
expects. -/
inductive RwPc where
  | idle
  | readLoad
  | readContend
  | readCas (current : Nat)
  | writeLoad
  | writeContend
  | writeCas (current : Nat)
  | tryReadLoad
  | tryReadCas (current : Nat)
  | tryWriteLoad
  | tryWriteCas
  deriving Repr, DecidableEq

/-- The call an idle thread makes; inside a call, whether a weak compare-exchange
fails spuriously. -/
inductive RwChoice where
  | read
  | write
  | tryRead
  | tryWrite
  | dropRead
  | dropWrite
  | goOn
  | failSpuriously
  deriving Repr, DecidableEq

/-- `read` after it has seen `current`. -/
def readSaw (current : Nat) : RwPc :=
  if current &&& writerFlag ≠ 0 then .readContend else .readCas current

/-- `write` after it has seen `current`. -/
def writeSaw (current : Nat) : RwPc :=
  if current ≠ 0 ∧ current ≠ writerFlag then .writeContend else .writeCas current

namespace RwShared

/-- The word is replaced and a read guard handed out. -/
def acquireRead (sh : RwShared) (current : Nat) : RwShared :=
  { sh with
    lock := { sh.lock with state := ((current &&& readerMask) + 1) % 2 ^ 64 }
    readers := sh.readers + 1 }

/-- The word is replaced and a write guard handed out. -/
def acquireWrite (sh : RwShared) : RwShared :=
  { sh with
    lock := { sh.lock with state := writerFlag }
    writers := sh.writers + 1 }

/-- `ReadGuard::drop`. -/
def dropRead (sh : RwShared) : RwShared :=
  { sh with
    lock := { sh.lock with state := MachineInt.u64 (sh.lock.state - 1) }
    readers := sh.readers - 1 }

/-- `WriteGuard::drop`. -/
def dropWrite (sh : RwShared) : RwShared :=
  { sh with
    lock := { sh.lock with state := 0 }
    writers := sh.writers - 1 }

end RwShared

/-- **One atomic operation of a thread.** -/
def locker {Tid : Type} (_ : Tid) (sh : RwShared) : RwPc → RwChoice → Option (RwShared × RwPc)
  | .idle, .read => some (sh, .readLoad)
  | .idle, .write => some (sh, .writeLoad)
  | .idle, .tryRead => some (sh, .tryReadLoad)
  | .idle, .tryWrite => some (sh, .tryWriteLoad)
  | .idle, .dropRead => if 0 < sh.readers then some (sh.dropRead, .idle) else none
  | .idle, .dropWrite => if 0 < sh.writers then some (sh.dropWrite, .idle) else none
  | .readLoad, .goOn => some (sh, readSaw sh.lock.state)
  | .readContend, .goOn =>
      some
        ({ sh with
            lock := { sh.lock with readContention := (sh.lock.readContention + 1) % 2 ^ 64 } },
          .readLoad)
  | .readCas current, .goOn =>
      if sh.lock.state = current then some (sh.acquireRead current, .idle)
      else some (sh, readSaw sh.lock.state)
  | .readCas _, .failSpuriously => some (sh, readSaw sh.lock.state)
  | .writeLoad, .goOn => some (sh, writeSaw sh.lock.state)
  | .writeContend, .goOn =>
      some
        ({ sh with
            lock := { sh.lock with writeContention := (sh.lock.writeContention + 1) % 2 ^ 64 } },
          .writeLoad)
  | .writeCas current, .goOn =>
      if sh.lock.state = current then some (sh.acquireWrite, .idle)
      else some (sh, writeSaw sh.lock.state)
  | .writeCas _, .failSpuriously => some (sh, writeSaw sh.lock.state)
  | .tryReadLoad, .goOn =>
      if sh.lock.state &&& writerFlag ≠ 0 then some (sh, .idle)
      else some (sh, .tryReadCas sh.lock.state)
  | .tryReadCas current, .goOn =>
      if sh.lock.state = current then some (sh.acquireRead current, .idle) else some (sh, .idle)
  | .tryWriteLoad, .goOn =>
      if sh.lock.state ≠ 0 then some (sh, .idle) else some (sh, .tryWriteCas)
  | .tryWriteCas, .goOn =>
      if sh.lock.state = 0 then some (sh.acquireWrite, .idle) else some (sh, .idle)
  | _, _ => none

/-- Threads and the lock they share. -/
abbrev RwThreads (Tid : Type) := State Tid RwPc RwShared

/-- A new lock, every thread outside its calls. -/
def RwThreads.init (Tid : Type) : RwThreads Tid := ⟨⟨.new, 0, 0⟩, fun _ => .idle⟩

/-! ## What an operation does -/

/-- What a thread knows about the value its compare-exchange expects. -/
def RwPc.Ok : RwPc → Prop
  | .readCas current => current &&& writerFlag = 0
  | .tryReadCas current => current &&& writerFlag = 0
  | .writeCas current => current = 0 ∨ current = writerFlag
  | _ => True

/-- What `read` expects has no writer in it, -/
theorem readSaw_ok (current : Nat) : (readSaw current).Ok := by
  unfold readSaw
  split
  · trivial
  · rename_i h
    exact not_not.mp h

/-- and what `write` expects is free or the flag alone. -/
theorem writeSaw_ok (current : Nat) : (writeSaw current).Ok := by
  unfold writeSaw
  split
  · trivial
  · rename_i h
    rw [not_and_or, not_not, not_not] at h
    exact h

/-- What one operation does to the word and the guards. -/
inductive RwEffect (sh : RwShared) (p : RwPc) (c : RwChoice) (sh' : RwShared) : Prop where
  | silent (state : sh'.lock.state = sh.lock.state) (readers : sh'.readers = sh.readers)
      (writers : sh'.writers = sh.writers)
  | acquireRead (free : sh.lock.state &&& writerFlag = 0)
      (after : sh' = sh.acquireRead sh.lock.state)
  | acquireWrite
      (expected : sh.lock.state = 0 ∨
        (p = .writeCas writerFlag ∧ c = .goOn ∧ sh.lock.state = writerFlag))
      (after : sh' = sh.acquireWrite)
  | dropRead (live : 0 < sh.readers) (after : sh' = sh.dropRead)
  | dropWrite (live : 0 < sh.writers) (after : sh' = sh.dropWrite)

/-- **The operations by their effect.** -/
theorem locker_effect {Tid : Type} {t : Tid} {sh sh' : RwShared} {p p' : RwPc} {c : RwChoice}
    (hp : p.Ok) (h : locker t sh p c = some (sh', p')) : RwEffect sh p c sh' ∧ p'.Ok := by
  have silent : RwEffect sh p c sh := .silent rfl rfl rfl
  cases p with
  | idle =>
      cases c with
      | read | write | tryRead | tryWrite => cases h; exact ⟨silent, trivial⟩
      | dropRead =>
          simp only [locker] at h
          split at h
          · cases h; exact ⟨.dropRead ‹_› rfl, trivial⟩
          · cases h
      | dropWrite =>
          simp only [locker] at h
          split at h
          · cases h; exact ⟨.dropWrite ‹_› rfl, trivial⟩
          · cases h
      | goOn | failSpuriously => cases h
  | readLoad =>
      cases c with
      | goOn => cases h; exact ⟨silent, readSaw_ok _⟩
      | _ => cases h
  | readContend =>
      cases c with
      | goOn => cases h; exact ⟨.silent rfl rfl rfl, trivial⟩
      | _ => cases h
  -- a reader gets in on the word that it has loaded, and there was no writer in that one
  | readCas current =>
      cases c with
      | goOn =>
          simp only [locker] at h
          split at h
          · rename_i heq
            subst heq
            cases h; exact ⟨.acquireRead hp rfl, trivial⟩
          · cases h; exact ⟨silent, readSaw_ok _⟩
      | failSpuriously => cases h; exact ⟨silent, readSaw_ok _⟩
      | _ => cases h
  | writeLoad =>
      cases c with
      | goOn => cases h; exact ⟨silent, writeSaw_ok _⟩
      | _ => cases h
  | writeContend =>
      cases c with
      | goOn => cases h; exact ⟨.silent rfl rfl rfl, trivial⟩
      | _ => cases h
  | writeCas current =>
      cases c with
      | goOn =>
          simp only [locker] at h
          split at h
          · rename_i heq
            subst heq
            cases h
            refine ⟨.acquireWrite ?_ rfl, trivial⟩
            -- the word was free, or it was the flag alone, which is taken for a free lock
            rcases hp with hzero | hflag
            · exact Or.inl hzero
            · exact Or.inr ⟨congrArg RwPc.writeCas hflag, rfl, hflag⟩
          · cases h; exact ⟨silent, writeSaw_ok _⟩
      | failSpuriously => cases h; exact ⟨silent, writeSaw_ok _⟩
      | _ => cases h
  -- the attempts do not wait: where they do not succeed they return
  | tryReadLoad =>
      cases c with
      | goOn =>
          simp only [locker] at h
          split at h
          · cases h; exact ⟨silent, trivial⟩
          · rename_i hfree
            cases h; exact ⟨silent, not_not.mp hfree⟩
      | _ => cases h
  | tryReadCas current =>
      cases c with
      | goOn =>
          simp only [locker] at h
          split at h
          · rename_i heq
            subst heq
            cases h; exact ⟨.acquireRead hp rfl, trivial⟩
          · cases h; exact ⟨silent, trivial⟩
      | _ => cases h
  | tryWriteLoad =>
      cases c with
      | goOn =>
          simp only [locker] at h
          split at h <;> cases h <;> exact ⟨silent, trivial⟩
      | _ => cases h
  | tryWriteCas =>
      cases c with
      | goOn =>
          simp only [locker] at h
          split at h
          · rename_i hzero
            cases h; exact ⟨.acquireWrite (Or.inl hzero) rfl, trivial⟩
          · cases h; exact ⟨silent, trivial⟩
      | _ => cases h

/-! ## Word and guards -/

/-- **The word encodes the live guards.** -/
def RwShared.Encodes (sh : RwShared) : Prop :=
  (sh.writers = 0 ∧ sh.lock.state = sh.readers) ∨
    (sh.writers = 1 ∧ sh.readers = 0 ∧ sh.lock.state = writerFlag)

/-- **Mutual exclusion**: at most one writer, no readers beside it, and the
reader count is the number of readers. -/
structure RwShared.Exclusive (sh : RwShared) : Prop where
  /-- one writer -/
  writers_le : sh.writers ≤ 1
  /-- by himself -/
  no_readers : 0 < sh.writers → sh.readers = 0
  /-- and readers that are counted -/
  readerCount_eq : sh.lock.readerCount = sh.readers

/-- A word that encodes the guards keeps them exclusive. -/
theorem RwShared.Encodes.exclusive {sh : RwShared} (h : sh.Encodes)
    (hreaders : sh.readers < writerFlag) : sh.Exclusive := by
  rcases h with ⟨hwriters, hstate⟩ | ⟨hwriters, hno, hstate⟩
  · refine ⟨by omega, fun h => by omega, ?_⟩
    rw [WaitFreeRwLock.readerCount, hstate]
    exact and_readerMask hreaders
  · refine ⟨by omega, fun _ => hno, ?_⟩
    rw [WaitFreeRwLock.readerCount, hstate, hno]
    decide

/-- A free word counts the readers. -/
theorem RwShared.Encodes.of_free {sh : RwShared} (h : sh.Encodes)
    (hfree : sh.lock.state &&& writerFlag = 0) : sh.writers = 0 ∧ sh.lock.state = sh.readers := by
  rcases h with h | ⟨-, -, hstate⟩
  · exact h
  · rw [hstate, writerFlag_and_self] at hfree
    exact absurd hfree (by decide)

/-- An operation keeps the encoding, unless it exchanges the writer flag for
itself. -/
theorem RwEffect.encodes {sh sh' : RwShared} {p : RwPc} {c : RwChoice}
    (h : RwEffect sh p c sh') (inv : sh.Encodes) (hreaders : sh.readers < writerFlag)
    (hguard : p = .writeCas writerFlag → c = .goOn → sh.lock.state ≠ writerFlag) :
    sh'.Encodes := by
  have hflag : writerFlag = 2 ^ 31 := rfl
  cases h with
  | silent state readers writers =>
      unfold RwShared.Encodes
      rw [state, readers, writers]
      exact inv
  | acquireRead free after =>
      obtain ⟨hwriters, hstate⟩ := inv.of_free free
      subst after
      refine Or.inl ⟨hwriters, ?_⟩
      show ((sh.lock.state &&& readerMask) + 1) % 2 ^ 64 = sh.readers + 1
      rw [hstate, and_readerMask hreaders]
      exact Nat.mod_eq_of_lt (by omega)
  | acquireWrite expected after =>
      rcases expected with hzero | ⟨hp, hc, hstate⟩
      · obtain ⟨hwriters, hstate⟩ := inv.of_free (by rw [hzero]; rfl)
        subst after
        refine Or.inr ⟨?_, ?_, rfl⟩
        · show sh.writers + 1 = 1
          omega
        · show sh.readers = 0
          omega
      · exact absurd hstate (hguard hp hc)
  | dropRead live after =>
      rcases inv with ⟨hwriters, hstate⟩ | ⟨-, hno, -⟩
      · subst after
        refine Or.inl ⟨hwriters, ?_⟩
        show MachineInt.u64 (sh.lock.state - 1) = sh.readers - 1
        rw [hstate, ← MachineInt.u64_natCast (n := sh.readers - 1) (by omega)]
        congr 1
        omega
      · omega
  | dropWrite live after =>
      rcases inv with ⟨hwriters, -⟩ | ⟨hwriters, hno, -⟩
      · omega
      · subst after
        refine Or.inl ⟨?_, hno.symm⟩
        show sh.writers - 1 = 0
        omega

/-! ## Along a run -/

variable {Tid : Type} [DecidableEq Tid]

/-- **No writer over a writer**: no `write` attempts to exchange the writer flag
for itself while the word is the writer flag. -/
def NoWriterOverWriter (s : RwThreads Tid) (a : Tid × RwChoice) (_ : RwThreads Tid) : Prop :=
  s.pc a.1 = .writeCas writerFlag → a.2 = .goOn → s.shared.lock.state ≠ writerFlag

instance (s : RwThreads Tid) (a : Tid × RwChoice) (s' : RwThreads Tid) :
    Decidable (NoWriterOverWriter s a s') :=
  inferInstanceAs (Decidable (_ → _ → _))

/-- The invariant of the runs without such an exchange. -/
structure RwInv (s : RwThreads Tid) : Prop where
  /-- the word says who holds the lock -/
  encodes : s.shared.Encodes
  /-- threads expect what they have checked -/
  pcs : ∀ t, (s.pc t).Ok
  /-- the count stays below the flag -/
  readers_lt : s.shared.readers < writerFlag

/-- **An operation keeps word and guards in step**, unless it exchanges the flag for itself. -/
theorem rwInv_step {s s' : RwThreads Tid} {a : Tid × RwChoice} (inv : RwInv s)
    (hstep : step locker s a = some s') (hreaders : s'.shared.readers < writerFlag)
    (hguard : NoWriterOverWriter s a s') : RwInv s' := by
  obtain ⟨sh, p, hprog, rfl⟩ := step_eq_some.mp hstep
  obtain ⟨effect, hp⟩ := locker_effect (inv.pcs a.1) hprog
  exact ⟨effect.encodes inv.encodes inv.readers_lt hguard,
    forall_pc_update hp fun u _ => inv.pcs u, hreaders⟩

/-- An exchange of the writer flag for itself makes a second writer. -/
theorem noWriterOverWriter_of_exclusive {s s' : RwThreads Tid} {a : Tid × RwChoice}
    (inv : RwInv s) (hstep : step locker s a = some s') (hsafe : s'.shared.Exclusive) :
    NoWriterOverWriter s a s' := by
  intro hpc hgo hstate
  obtain ⟨sh, p, hprog, rfl⟩ := step_eq_some.mp hstep
  rw [hpc, hgo] at hprog
  simp only [locker, hstate, if_true] at hprog
  cases hprog
  have htwo : s.shared.writers + 1 ≤ 1 := hsafe.writers_le
  rcases inv.encodes with ⟨-, hcount⟩ | ⟨hwriters, -, -⟩
  · have := inv.readers_lt
    omega
  · omega

/-- **Mutual exclusion of the read-write lock.**  For any number of threads and
every interleaving with fewer than `2 ^ 31 - 1` simultaneous readers: it holds
throughout a run just when no `write` exchanges the writer flag for itself. -/
theorem exclusive_iff_noWriterOverWriter (run : List (Tid × RwChoice))
    (hreaders : AllStates (step locker) (fun s => s.shared.readers < 2 ^ 31 - 1)
      (RwThreads.init Tid) run) :
    AllSteps (step locker) NoWriterOverWriter (RwThreads.init Tid) run ↔
      AllStates (step locker) (fun s => s.shared.Exclusive) (RwThreads.init Tid) run := by
  have hflag : writerFlag = 2 ^ 31 := rfl
  have start : RwInv (RwThreads.init Tid) :=
    ⟨Or.inl ⟨rfl, rfl⟩, fun _ => trivial, Nat.two_pow_pos 31⟩
  exact allSteps_iff_allStates_of_valid
    (fun s (inv : RwInv s) => inv.encodes.exclusive inv.readers_lt)
    (fun s a s' inv hstep (few : s'.shared.readers < 2 ^ 31 - 1) guard =>
      rwInv_step inv hstep (by omega) guard)
    (fun s a s' inv hstep _ safe => noWriterOverWriter_of_exclusive inv hstep safe)
    start hreaders.2

/-- The theorem on a reader followed by a writer. -/
theorem exclusive_readThenWrite :
    AllStates (step locker) (fun s => s.shared.Exclusive) (RwThreads.init Bool)
      [(false, .read), (false, .goOn), (false, .goOn), (false, .dropRead),
        (true, .write), (true, .goOn), (true, .goOn)] := by
  exact (exclusive_iff_noWriterOverWriter _ (by decide)).mp (by decide)

/-- **Two writers at once**: the second thread loads the writer flag and exchanges
it for itself. -/
theorem not_forall_exclusive :
    ¬ ∀ run : List (Bool × RwChoice),
      AllStates (step locker) (fun s => s.shared.readers < 2 ^ 31 - 1) (RwThreads.init Bool) run →
      AllStates (step locker) (fun s => s.shared.Exclusive) (RwThreads.init Bool) run := by
  intro h
  obtain ⟨-, -, -, -, -, -, hsafe, -⟩ := h
    [(false, .write), (false, .goOn), (false, .goOn), (true, .write), (true, .goOn), (true, .goOn)]
    (by decide)
  exact absurd hsafe.writers_le (by decide)

end StopTrading.Concurrency
