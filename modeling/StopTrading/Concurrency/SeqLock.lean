import Mathlib
import StopTrading.Library.Threads

/-!
# The sequence lock

`SeqLock` guards a value with a counter that a writer makes odd while it changes the
value and even again afterwards.  A reader copies what it needs between two loads of
the counter and keeps the result only if both loads saw the same even number.

The value is a family of words and a closure is run one word at a time: `ReadOf` is
what `read` is called with, `WriteOf` what `write` is called with, and both may decide
on the words they have seen.  So a reader can meet a half finished write, between any
two words.  `SeqShared.log` lists the closures of the writes that have finished.

* `reads_linearizable` — while writes do not overlap and the counter does not wrap, a
  read that returns a result returns what its closure computes on the value that the
  finished writes produce in order, at the moment of its second load.
* `read_solo` — a reader that is left alone, no write being under way, succeeds at its
  first try.

The counter does not keep writers apart: `write` takes `&self` and never waits.  Two
overlapping writes leave the counter even while both store, and a reader can then return
words of a half finished write.

### What is load-bearing

A reader knows nothing about the lock but a number it saw.  `Fits` says what this knowledge is
worth: *if the counter still has that number*, then the words read so far are those of the
current value, and no write is under way.  Every step of a writer changes the counter or happens
while it is odd, so each either keeps `Fits` or makes its premise false (`Fits.of_changed`); this
is where the bound on the counter is used, since after `2 ^ 64` increments an old number would
come back.

`OneWriter` is a condition on runs and not on the lock, which does nothing to enforce it.  Its
caller has to.
-/

namespace StopTrading.Concurrency

open Transition Threads

/-! ## Closures over the value -/

/-- The closure of a `read`: loads of words, each deciding what follows. -/
inductive ReadOf (Addr Word R : Type) where
  | ret (result : R)
  | load (i : Addr) (next : Word → ReadOf Addr Word R)

/-- The closure of a `write`: loads and stores of words. -/
inductive WriteOf (Addr Word : Type) where
  | finish
  | load (i : Addr) (next : Word → WriteOf Addr Word)
  | store (i : Addr) (w : Word) (next : WriteOf Addr Word)

variable {Addr Word R Tid : Type}

/-- What the closure computes on a value that nobody changes. -/
def ReadOf.eval (d : Addr → Word) : ReadOf Addr Word R → R
  | .ret result => result
  | .load i next => (next (d i)).eval d

/-- What the closure makes of a value that nobody else changes. -/
def WriteOf.exec [DecidableEq Addr] : (Addr → Word) → WriteOf Addr Word → Addr → Word
  | d, .finish => d
  | d, .load i next => (next (d i)).exec d
  | d, .store i w next => next.exec (Function.update d i w)

/-! ## The lock -/

/-- `SeqLock`. -/
structure SeqLock (Addr Word : Type) where
  sequence : Nat
  data : Addr → Word

/-- `SeqLock::new`. -/
def SeqLock.new (data : Addr → Word) : SeqLock Addr Word := ⟨0, data⟩

/-- `fetch_add(1)` on the counter. -/
def SeqLock.bump (l : SeqLock Addr Word) : SeqLock Addr Word :=
  { l with sequence := (l.sequence + 1) % 2 ^ 64 }

/-- The lock and the writes that have finished, the first one first. -/
structure SeqShared (Addr Word : Type) where
  lock : SeqLock Addr Word
  log : List (WriteOf Addr Word)

/-- Where a thread is in its call.  A reader carries its closure, the number of tries
left after this one, the counter it saw and the rest of the closure; a writer carries
its closure and the rest of it. -/
inductive SeqPc (Addr Word R : Type) where
  | idle
  | readLoad (f : ReadOf Addr Word R) (left : Nat)
  | reading (f : ReadOf Addr Word R) (left seqStart : Nat) (rest : ReadOf Addr Word R)
  | returned (f : ReadOf Addr Word R) (result : Option R)
  | writeEnter (w : WriteOf Addr Word)
  | writing (w rest : WriteOf Addr Word)

/-- The call a thread makes; inside a call, that it goes on. -/
inductive SeqChoice (Addr Word R : Type) where
  | read (f : ReadOf Addr Word R)
  | write (w : WriteOf Addr Word)
  | goOn

/-- The end of a try of `read` that failed. -/
def retry (f : ReadOf Addr Word R) : Nat → SeqPc Addr Word R
  | 0 => .returned f none
  | left + 1 => .readLoad f left

/-- `read` after its first load. -/
def readSawSeq (f : ReadOf Addr Word R) (left seqStart : Nat) : SeqPc Addr Word R :=
  if seqStart % 2 ≠ 0 then retry f left else .reading f left seqStart f

/-- `read` after its second load. -/
def readChecked (f : ReadOf Addr Word R) (left seqStart : Nat) (result : R) (seqEnd : Nat) :
    SeqPc Addr Word R :=
  if seqStart = seqEnd then .returned f (some result) else retry f left

/-- A thread outside its calls makes one. -/
def callSeq (sh : SeqShared Addr Word) :
    SeqChoice Addr Word R → Option (SeqShared Addr Word × SeqPc Addr Word R)
  | .read f => some (sh, .readLoad f 9)
  | .write w => some (sh, .writeEnter w)
  | .goOn => none

/-- **One atomic operation of a thread**: a load of the counter, an access to one word,
or an increment of the counter. -/
def seqLocker [DecidableEq Addr] (_ : Tid) (sh : SeqShared Addr Word) :
    SeqPc Addr Word R → SeqChoice Addr Word R →
      Option (SeqShared Addr Word × SeqPc Addr Word R)
  | .idle, c => callSeq sh c
  | .returned _ _, c => callSeq sh c
  | .readLoad f left, .goOn => some (sh, readSawSeq f left sh.lock.sequence)
  | .reading f left seqStart (.load i next), .goOn =>
      some (sh, .reading f left seqStart (next (sh.lock.data i)))
  | .reading f left seqStart (.ret result), .goOn =>
      some (sh, readChecked f left seqStart result sh.lock.sequence)
  | .writeEnter w, .goOn => some ({ sh with lock := sh.lock.bump }, .writing w w)
  | .writing w (.load i next), .goOn => some (sh, .writing w (next (sh.lock.data i)))
  | .writing w (.store i v next), .goOn =>
      some ({ sh with lock := { sh.lock with data := Function.update sh.lock.data i v } },
        .writing w next)
  | .writing w .finish, .goOn => some (⟨sh.lock.bump, sh.log ++ [w]⟩, .idle)
  | _, _ => none

/-- Threads and the lock they share. -/
abbrev SeqThreads (Addr Word R Tid : Type) := State Tid (SeqPc Addr Word R) (SeqShared Addr Word)

/-- A new lock, every thread outside its calls. -/
def SeqThreads.init (R Tid : Type) (data : Addr → Word) : SeqThreads Addr Word R Tid :=
  ⟨⟨.new data, []⟩, fun _ => .idle⟩

/-- The value that writes produce one after the other. -/
def replayWrites [DecidableEq Addr] (data : Addr → Word) (log : List (WriteOf Addr Word)) :
    Addr → Word :=
  log.foldl WriteOf.exec data

/-- The write that finishes last is applied last. -/
theorem replayWrites_concat [DecidableEq Addr] (data : Addr → Word)
    (log : List (WriteOf Addr Word)) (w : WriteOf Addr Word) :
    replayWrites data (log ++ [w]) = w.exec (replayWrites data log) := by
  simp [replayWrites]

/-! ## What an operation does -/

/-- The thread is between the two increments of a write. -/
def SeqPc.InWrite : SeqPc Addr Word R → Prop
  | .writing _ _ => True
  | _ => False

instance SeqPc.decidableInWrite : (p : SeqPc Addr Word R) → Decidable p.InWrite
  | .writing _ _ => isTrue trivial
  | .idle | .readLoad _ _ | .reading _ _ _ _ | .returned _ _ | .writeEnter _ => isFalse id

/-- The thread is before the first increment of a write. -/
def SeqPc.Enters : SeqPc Addr Word R → Prop
  | .writeEnter _ => True
  | _ => False

instance SeqPc.decidableEnters : (p : SeqPc Addr Word R) → Decidable p.Enters
  | .writeEnter _ => isTrue trivial
  | .idle | .readLoad _ _ | .reading _ _ _ _ | .returned _ _ | .writing _ _ => isFalse id

/-- What a reader knows about the lock, and a writer about the finished writes. -/
def SeqPc.Fits [DecidableEq Addr] (data : Addr → Word) (sh : SeqShared Addr Word) :
    SeqPc Addr Word R → Prop
  | .reading f _ seqStart rest =>
      seqStart ≤ sh.lock.sequence ∧ seqStart % 2 = 0 ∧
        (seqStart = sh.lock.sequence → rest.eval sh.lock.data = f.eval sh.lock.data)
  | .writing w rest => rest.exec sh.lock.data = w.exec (replayWrites data sh.log)
  | _ => True

/-- A read that tries again is not a write, -/
theorem not_inWrite_retry (f : ReadOf Addr Word R) (left : Nat) :
    ¬ (retry f left : SeqPc Addr Word R).InWrite := by
  cases left <;> exact id

/-- and starts from no knowledge. -/
theorem fits_retry [DecidableEq Addr] (data : Addr → Word) (sh : SeqShared Addr Word)
    (f : ReadOf Addr Word R) (left : Nat) : (retry f left).Fits data sh := by
  cases left <;> trivial

/-- What one operation does to the lock, and to what the thread that performs it knows. -/
inductive SeqEffect [DecidableEq Addr] (data : Addr → Word) (sh : SeqShared Addr Word)
    (p : SeqPc Addr Word R) (sh' : SeqShared Addr Word) (p' : SeqPc Addr Word R) : Prop where
  | silent (shared : sh' = sh) (write : p'.InWrite ↔ p.InWrite)
      (fits : p.Fits data sh → p'.Fits data sh')
  | enter (w : WriteOf Addr Word) (before : p = .writeEnter w)
      (shared : sh' = { sh with lock := sh.lock.bump }) (after : p' = .writing w w)
  | store (inside : p.InWrite) (inside' : p'.InWrite) (log : sh'.log = sh.log)
      (sequence : sh'.lock.sequence = sh.lock.sequence)
      (fits : p.Fits data sh → p'.Fits data sh')
  | leave (w : WriteOf Addr Word) (before : p = .writing w .finish)
      (shared : sh' = ⟨sh.lock.bump, sh.log ++ [w]⟩) (after : p' = .idle)

/-- A call only moves the thread. -/
theorem callSeq_effect [DecidableEq Addr] (data : Addr → Word) {sh sh' : SeqShared Addr Word}
    {p p' : SeqPc Addr Word R} {c : SeqChoice Addr Word R} (out : ¬ p.InWrite)
    (h : callSeq sh c = some (sh', p')) : SeqEffect data sh p sh' p' := by
  cases c with
  | read f => cases h; exact .silent rfl ⟨False.elim, out⟩ fun _ => trivial
  | write w => cases h; exact .silent rfl ⟨False.elim, out⟩ fun _ => trivial
  | goOn => cases h

/-- **The operations by their effect.** -/
theorem seqLocker_effect [DecidableEq Addr] (data : Addr → Word) {t : Tid}
    {sh sh' : SeqShared Addr Word} {p p' : SeqPc Addr Word R} {c : SeqChoice Addr Word R}
    (h : seqLocker t sh p c = some (sh', p')) : SeqEffect data sh p sh' p' := by
  cases p with
  | idle => exact callSeq_effect data id h
  | returned f result => exact callSeq_effect data id h
  | readLoad f left =>
      cases c with
      | goOn =>
          cases h
          unfold readSawSeq
          split
          · exact .silent rfl ⟨(not_inWrite_retry f left).elim, False.elim⟩ fun _ =>
              fits_retry data sh f left
          · rename_i heven
            exact .silent rfl Iff.rfl fun _ => ⟨Nat.le_refl _, not_not.mp heven, fun _ => rfl⟩
      | _ => cases h
  | reading f left seqStart rest =>
      cases c with
      | goOn =>
          cases rest with
          | ret result =>
              cases h
              unfold readChecked
              split
              · exact .silent rfl Iff.rfl fun _ => trivial
              · exact .silent rfl ⟨(not_inWrite_retry f left).elim, False.elim⟩ fun _ =>
                  fits_retry data sh f left
          | load i next => cases h; exact .silent rfl Iff.rfl id
      | _ => cases rest <;> cases h
  | writeEnter w =>
      cases c with
      | goOn => cases h; exact .enter w rfl rfl rfl
      | _ => cases h
  | writing w rest =>
      cases c with
      | goOn =>
          cases rest with
          | finish => cases h; exact .leave w rfl rfl rfl
          | load i next => cases h; exact .silent rfl Iff.rfl id
          | store i v next => cases h; exact .store trivial trivial rfl rfl id
      | _ => cases rest <;> cases h

/-! ## Counter, value and threads -/

/-- What holds between two operations while writes do not overlap. -/
structure SeqInv [DecidableEq Addr] (data : Addr → Word) (s : SeqThreads Addr Word R Tid) :
    Prop where
  /-- what threads know is right -/
  fits : ∀ t, (s.pc t).Fits data s.shared
  /-- writes do not overlap -/
  unique : ∀ t u, (s.pc t).InWrite → (s.pc u).InWrite → t = u
  /-- the counter is odd during a write -/
  inside : ∀ t, (s.pc t).InWrite →
    s.shared.lock.sequence % 2 = 1 ∧ s.shared.lock.sequence + 1 < 2 ^ 64
  /-- and otherwise even, with the value that the writes have produced -/
  quiet : (∀ t, ¬ (s.pc t).InWrite) → s.shared.lock.sequence % 2 = 0 ∧
    s.shared.lock.data = replayWrites data s.shared.log

/-- A write is entered while no other is under way, and the counter has room for it. -/
def OneWriter (s : SeqThreads Addr Word R Tid) (a : Tid × SeqChoice Addr Word R)
    (_ : SeqThreads Addr Word R Tid) : Prop :=
  (s.pc a.1).Enters → (∀ t, ¬ (s.pc t).InWrite) ∧ s.shared.lock.sequence + 2 < 2 ^ 64

instance decidableOneWriter [Fintype Tid] (s s' : SeqThreads Addr Word R Tid)
    (a : Tid × SeqChoice Addr Word R) : Decidable (OneWriter s a s') :=
  inferInstanceAs (Decidable (_ → _))

/-- **The value of a read** that succeeds in a step: no write is under way, and the
result is what the closure computes on the value the finished writes have produced. -/
def ReadsLogged [DecidableEq Addr] (data : Addr → Word) (s : SeqThreads Addr Word R Tid)
    (a : Tid × SeqChoice Addr Word R) (s' : SeqThreads Addr Word R Tid) : Prop :=
  ∀ f result, s'.pc a.1 = .returned f (some result) →
    (∀ t, ¬ (s.pc t).InWrite) ∧ result = f.eval (replayWrites data s.shared.log)

/-- A new lock is quiet. -/
theorem seqInv_init [DecidableEq Addr] (data : Addr → Word) :
    SeqInv data (SeqThreads.init R Tid data) where
  fits _ := trivial
  unique _ _ h := h.elim
  inside _ h := h.elim
  quiet _ := ⟨rfl, rfl⟩

/-- A reader outlives a change of the lock if no even counter it may have seen is the
counter afterwards. -/
theorem SeqPc.Fits.of_changed [DecidableEq Addr] {data : Addr → Word}
    {sh sh' : SeqShared Addr Word} {p : SeqPc Addr Word R} (h : p.Fits data sh)
    (out : ¬ p.InWrite) (le : sh.lock.sequence ≤ sh'.lock.sequence)
    (ne : ∀ n, n % 2 = 0 → n ≤ sh.lock.sequence → n ≠ sh'.lock.sequence) :
    p.Fits data sh' := by
  cases p with
  | reading f left seqStart rest =>
      exact ⟨Nat.le_trans h.1 le, h.2.1, fun heq => (ne seqStart h.2.1 h.1 heq).elim⟩
  | writing w rest => exact (out trivial).elim
  | _ => trivial

/-- The counter goes up by one while there is room. -/
theorem bump_sequence {l : SeqLock Addr Word} (h : l.sequence + 1 < 2 ^ 64) :
    l.bump.sequence = l.sequence + 1 :=
  Nat.mod_eq_of_lt h

variable [DecidableEq Addr] [DecidableEq Tid]

section

variable {data : Addr → Word} {s : SeqThreads Addr Word R Tid} {t : Tid} {w : WriteOf Addr Word}
  {sh' : SeqShared Addr Word} {p' : SeqPc Addr Word R}

/-- The invariant after an operation that leaves the lock alone. -/
theorem SeqInv.silent (inv : SeqInv data s) (write : p'.InWrite ↔ (s.pc t).InWrite)
    (fits : p'.Fits data s.shared) : SeqInv data ⟨s.shared, Function.update s.pc t p'⟩ := by
  have pcs : ∀ u, (Function.update s.pc t p' u).InWrite ↔ (s.pc u).InWrite :=
    forall_pc_update (Q := fun u (p : SeqPc Addr Word R) => p.InWrite ↔ (s.pc u).InWrite) write
      fun _ _ => Iff.rfl
  refine ⟨forall_pc_update fits fun u _ => inv.fits u, ?_, ?_, ?_⟩
  · exact fun u v hu hv => inv.unique u v ((pcs u).mp hu) ((pcs v).mp hv)
  · exact fun u hu => inv.inside u ((pcs u).mp hu)
  · exact fun hq => inv.quiet fun u hu => hq u ((pcs u).mpr hu)

/-- The invariant after the first increment of a write. -/
theorem SeqInv.enter (inv : SeqInv data s) (free : ∀ u, ¬ (s.pc u).InWrite)
    (room : s.shared.lock.sequence + 2 < 2 ^ 64) :
    SeqInv data ⟨{ s.shared with lock := s.shared.lock.bump },
      Function.update s.pc t (.writing w w)⟩ := by
  obtain ⟨heven, hdata⟩ := inv.quiet free
  have hseq := bump_sequence (l := s.shared.lock) (by omega)
  have mine : ∀ u, (Function.update s.pc t (.writing w w) u).InWrite → u = t :=
    forall_pc_update (Q := fun u (p : SeqPc Addr Word R) => p.InWrite → u = t)
      (fun _ => rfl) fun u _ hu => (free u hu).elim
  -- The counter becomes odd, so that no reader under way will find it again.
  refine ⟨forall_pc_update ?_ fun u _ => (inv.fits u).of_changed (free u) ?_ ?_, ?_, ?_, ?_⟩
  · exact congrArg (fun d => WriteOf.exec d w) hdata
  · simp only [hseq]; omega
  · simp only [hseq]; omega
  · exact fun u v hu hv => (mine u hu).trans (mine v hv).symm
  · intro u _
    simp only [hseq]; omega
  · intro hq
    have moved : (Function.update s.pc t (SeqPc.writing w w) t).InWrite := by
      simp [SeqPc.InWrite]
    exact (hq t moved).elim

/-- The invariant after a store of the thread inside a write. -/
theorem SeqInv.store (inv : SeqInv data s) (inside : (s.pc t).InWrite) (inside' : p'.InWrite)
    (sequence : sh'.lock.sequence = s.shared.lock.sequence) (fits : p'.Fits data sh') :
    SeqInv data ⟨sh', Function.update s.pc t p'⟩ := by
  have odd := inv.inside t inside
  have mine : ∀ u, (Function.update s.pc t p' u).InWrite → u = t :=
    forall_pc_update (Q := fun u (p : SeqPc Addr Word R) => p.InWrite → u = t)
      (fun _ => rfl) fun u _ hu => inv.unique u t hu inside
  refine ⟨forall_pc_update fits fun u hu => ?_, ?_, ?_, ?_⟩
  · refine (inv.fits u).of_changed (fun huin => hu (inv.unique u t huin inside)) ?_ ?_
    · exact Nat.le_of_eq sequence.symm
    -- The counter is odd, and what a reader saw was even.
    · intro n heven _ heq
      rw [sequence] at heq
      omega
  · exact fun u v hu hv => (mine u hu).trans (mine v hv).symm
  · intro u _
    simpa only [sequence] using odd
  · intro hq
    have moved : (Function.update s.pc t p' t).InWrite := by simpa using inside'
    exact (hq t moved).elim

/-- The invariant after the second increment of a write. -/
theorem SeqInv.leave (inv : SeqInv data s) (before : s.pc t = .writing w .finish) :
    SeqInv data ⟨⟨s.shared.lock.bump, s.shared.log ++ [w]⟩, Function.update s.pc t .idle⟩ := by
  have inside : (s.pc t).InWrite := by rw [before]; trivial
  obtain ⟨hodd, room⟩ := inv.inside t inside
  have hseq := bump_sequence (l := s.shared.lock) room
  have others : ∀ u, u ≠ t → ¬ (s.pc u).InWrite := fun u hu huin =>
    hu (inv.unique u t huin inside)
  have none : ∀ u, ¬ (Function.update s.pc t SeqPc.idle u).InWrite :=
    forall_pc_update (Q := fun _ (p : SeqPc Addr Word R) => ¬ p.InWrite) id others
  -- With nothing left of its closure, the writer knows the value of all writes and its own.
  have done := inv.fits t
  rw [before] at done
  refine ⟨forall_pc_update trivial fun u hu => (inv.fits u).of_changed (others u hu) ?_ ?_,
    fun u _ hu => (none u hu).elim, fun u hu => (none u hu).elim, fun _ => ⟨?_, ?_⟩⟩
  · simp only [hseq]; omega
  · simp only [hseq]; omega
  · simp only [hseq]; omega
  · exact done.trans (replayWrites_concat data s.shared.log w).symm

end

/-- **One step** keeps the invariant while writes do not overlap. -/
theorem SeqInv.step {data : Addr → Word} {s s' : SeqThreads Addr Word R Tid}
    {a : Tid × SeqChoice Addr Word R} (inv : SeqInv data s)
    (h : Threads.step seqLocker s a = some s') (guard : OneWriter s a s') : SeqInv data s' := by
  obtain ⟨sh', p', hprog, rfl⟩ := step_eq_some.mp h
  obtain ⟨shared, write, fits⟩ | ⟨w, before, shared, after⟩ |
    ⟨inside, inside', log, sequence, fits⟩ | ⟨w, before, shared, after⟩ :=
      seqLocker_effect data hprog
  · subst shared
    exact inv.silent write (fits (inv.fits a.1))
  · subst shared after
    obtain ⟨free, room⟩ := guard (by rw [before]; trivial)
    exact inv.enter free room
  · exact inv.store inside inside' sequence (fits (inv.fits a.1))
  · subst shared after
    exact inv.leave before

/-! ## Reads -/

omit [DecidableEq Tid] in
/-- A read returns a result at the second load of a try, if the counter still is what it
was at the first. -/
theorem seqLocker_returned {t : Tid} {sh sh' : SeqShared Addr Word} {p : SeqPc Addr Word R}
    {c : SeqChoice Addr Word R} {f : ReadOf Addr Word R} {result : R}
    (h : seqLocker t sh p c = some (sh', .returned f (some result))) :
    ∃ left, p = .reading f left sh.lock.sequence (.ret result) := by
  have retried : ∀ (g : ReadOf Addr Word R) (left : Nat),
      retry g left ≠ .returned f (some result) := by
    intro g left
    cases left <;> simp [retry]
  have called : ∀ c, callSeq sh c ≠ some (sh', SeqPc.returned f (some result)) := by
    intro c
    cases c <;> simp [callSeq]
  cases p with
  | idle => exact (called c h).elim
  | returned g r => exact (called c h).elim
  | readLoad g left =>
      cases c with
      | goOn =>
          have hpc : readSawSeq g left sh.lock.sequence = .returned f (some result) :=
            (Prod.mk.inj (Option.some.inj h)).2
          unfold readSawSeq at hpc
          split at hpc
          · exact (retried g left hpc).elim
          · cases hpc
      | _ => cases h
  | reading g left seqStart rest =>
      cases c with
      | goOn =>
          cases rest with
          | ret r =>
              have hpc : readChecked g left seqStart r sh.lock.sequence =
                  .returned f (some result) :=
                (Prod.mk.inj (Option.some.inj h)).2
              unfold readChecked at hpc
              split at hpc
              · rename_i heq
                cases hpc
                exact ⟨left, by rw [heq]⟩
              · exact (retried g left hpc).elim
          | load i next => cases h
      | _ => cases rest <;> cases h
  | writeEnter w => cases c <;> cases h
  | writing w rest => cases c <;> cases rest <;> cases h

/-- **Reads are linearizable.** -/
theorem reads_linearizable (data : Addr → Word)
    (as : List (Tid × SeqChoice Addr Word R))
    (writers : AllSteps (step seqLocker) OneWriter (SeqThreads.init R Tid data) as) :
    AllSteps (step seqLocker) (ReadsLogged data) (SeqThreads.init R Tid data) as := by
  refine AllSteps.of_invariant ?_ as _ (seqInv_init data) writers
  intro s a s' inv hstep guard
  refine ⟨inv.step hstep guard, ?_⟩
  intro f result hret
  obtain ⟨sh', p', hprog, rfl⟩ := step_eq_some.mp hstep
  have hp' : p' = .returned f (some result) := by simpa using hret
  subst hp'
  obtain ⟨left, hpc⟩ := seqLocker_returned hprog
  have known := inv.fits a.1
  rw [hpc] at known
  obtain ⟨-, heven, hread⟩ := known
  have free : ∀ t, ¬ (s.pc t).InWrite := by
    intro t ht
    have := (inv.inside t ht).1
    omega
  refine ⟨free, ?_⟩
  have value := hread rfl
  rw [(inv.quiet free).2] at value
  exact value

/-- Two words, written by one thread while the other reads them: the first try fails. -/
theorem reads_linearizable_pair :
    let both : ReadOf Bool Nat (Nat × Nat) := .load false fun x => .load true fun y => .ret (x, y)
    let set : WriteOf Bool Nat := .store false 7 (.store true 8 .finish)
    let as : List (Bool × SeqChoice Bool Nat (Nat × Nat)) :=
      [(true, .read both), (true, .goOn), (true, .goOn), (false, .write set), (false, .goOn),
        (false, .goOn), (true, .goOn), (false, .goOn), (true, .goOn), (false, .goOn),
        (true, .goOn), (true, .goOn), (true, .goOn), (true, .goOn)]
    (run (step seqLocker) (SeqThreads.init _ Bool fun _ => 0) as).isSome = true ∧
      AllSteps (step seqLocker) (ReadsLogged fun _ => 0) (SeqThreads.init _ Bool fun _ => 0)
        as := by
  intro both set as
  exact ⟨by decide, reads_linearizable _ as (by decide)⟩

-- Two writers have entered and one of them has stored its first word: the counter is 2.
example :
    let both : ReadOf Bool Nat (Nat × Nat) := .load false fun x => .load true fun y => .ret (x, y)
    let set : WriteOf Bool Nat := .store false 7 (.store true 8 .finish)
    (run (step seqLocker) (SeqThreads.init (Nat × Nat) (Fin 3) fun _ => 0)
      [(0, .write set), (1, .write set), (0, .goOn), (1, .goOn), (0, .goOn), (2, .read both),
        (2, .goOn), (2, .goOn), (2, .goOn), (2, .goOn)]).map
      (fun s => match s.pc 2 with | .returned _ result => result | _ => none) =
        some (some (7, 0)) := by
  decide

omit [DecidableEq Tid] in
/-- A try whose second load finds the counter of the first. -/
theorem reading_solo (t : Tid) (sh : SeqShared Addr Word) (f : ReadOf Addr Word R) (left : Nat)
    (rest : ReadOf Addr Word R) :
    ∃ n, solo seqLocker t sh (.reading f left sh.lock.sequence rest)
      (List.replicate n SeqChoice.goOn) =
        some (sh, .returned f (some (rest.eval sh.lock.data))) := by
  induction rest with
  | ret result =>
      refine ⟨1, ?_⟩
      simp [solo, seqLocker, readChecked, ReadOf.eval]
  | load i next ih =>
      obtain ⟨n, hn⟩ := ih (sh.lock.data i)
      exact ⟨n + 1, hn⟩

omit [DecidableEq Tid] in
/-- **A reader left alone** with no write under way succeeds at its first try. -/
theorem read_solo (t : Tid) {sh : SeqShared Addr Word} (quiet : sh.lock.sequence % 2 = 0)
    (f : ReadOf Addr Word R) :
    ∃ n, solo seqLocker t sh .idle (.read f :: List.replicate n SeqChoice.goOn) =
      some (sh, .returned f (some (f.eval sh.lock.data))) := by
  obtain ⟨n, hn⟩ := reading_solo t sh f 9 f
  refine ⟨n + 1, ?_⟩
  have first : seqLocker t sh (.readLoad f 9) SeqChoice.goOn =
      some (sh, .reading f 9 sh.lock.sequence f) := by
    simp [seqLocker, readSawSeq, quiet]
  show solo seqLocker t sh (.readLoad f 9) (SeqChoice.goOn :: List.replicate n SeqChoice.goOn) = _
  rw [solo, first]
  exact hn

end StopTrading.Concurrency
