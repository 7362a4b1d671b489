import StopTrading.Library.Headcount
import StopTrading.Library.Threads

/-!
# The object pool

`ObjectPool` has a fixed number of slots and a count of the available ones.  `acquire` looks
at the count, goes through the slots until it has claimed a free one, and then takes one off
the count; dropping a guard frees the slot first and then adds one.  `poolThread` runs both
one atomic operation at a time; a guard may be dropped by any thread that is not inside of a
call.

No slot is ever held twice, and when all calls have returned the count is right
(`PoolInv`).  In between the count is what is free or claimed and not counted yet, less the
slots that are freed and not counted yet.  So it goes below zero, to the top of its range,
just when an `acquire` takes one off while no more slots are free or claimed than are freed
and not counted (`accounted_iff_backed`): a thread that has seen the count before a slot was
acquired and released can claim the slot before the release is counted.

### What is load-bearing

A slot passes from free to claimed to counted to guarded and back, and several threads may be at
any of these.  The invariant is a tally: every slot is free, in the hands of a thread that has
claimed it, or under a guard, and these add up to the capacity (`tally`).  How many threads are
where is a headcount of the library, of which a step changes at most one member.

The count of the source lags behind.  `residue` says by how much modulo `2 ^ 64`, in every run;
`Exact` says it without the modulus, and is what `Backed` keeps.  So "the count went below zero"
is the difference between the two, and the run that does it needs a claim, a release and an old
look at the count by one thread.
-/

namespace StopTrading.Memory

open Transition Threads Headcount

/-- `Slot`. -/
structure Slot (T : Type) where
  occupied : Bool
  data : Option T
  deriving Repr, DecidableEq

/-- `ObjectPool`. -/
structure ObjectPool (T : Type) (capacity : Nat) where
  slots : Fin capacity → Slot T
  available : Nat

variable {T : Type} {capacity : Nat}

/-- What `fetch_sub(1)` leaves. -/
def wordPred (n : Nat) : Nat := if n = 0 then 2 ^ 64 - 1 else n - 1

/-- What `fetch_add(1)` leaves. -/
def wordSucc (n : Nat) : Nat := (n + 1) % 2 ^ 64

namespace ObjectPool

/-- `ObjectPool::new`: an error for no slots, and a panic for more than a vector can have. -/
def new (T : Type) (capacity : Nat) : Option (ObjectPool T capacity) :=
  if capacity = 0 then none
  else if capacity ≥ 2 ^ 63 then none
  else some ⟨fun _ => ⟨false, none⟩, capacity⟩

/-- The slot is claimed; its object is initialised if needed. -/
def claim [Inhabited T] (pool : ObjectPool T capacity) (idx : Fin capacity) :
    ObjectPool T capacity :=
  { pool with
    slots := Function.update pool.slots idx
      ⟨true, some ((pool.slots idx).data.getD default)⟩ }

/-- `release` up to the store: the data are cleared and the slot is free. -/
def clear (pool : ObjectPool T capacity) (idx : Fin capacity) : ObjectPool T capacity :=
  { pool with slots := Function.update pool.slots idx ⟨false, none⟩ }

/-- `available.fetch_sub(1)`. -/
def subAvailable (pool : ObjectPool T capacity) : ObjectPool T capacity :=
  { pool with available := wordPred pool.available }

/-- `available.fetch_add(1)`. -/
def addAvailable (pool : ObjectPool T capacity) : ObjectPool T capacity :=
  { pool with available := wordSucc pool.available }

end ObjectPool

/-! ## The threads -/

/-- The pool and the live guards, each the index of its slot. -/
structure PoolShared (T : Type) (capacity : Nat) where
  pool : ObjectPool T capacity
  guards : List (Fin capacity)

/-- Where a thread is: at a slot in `acquire`, about to take one off the count, or about to
add one in `release`. -/
inductive PoolPc (capacity : Nat) where
  | idle
  | check (idx : Fin capacity)
  | claim (idx : Fin capacity)
  | count (idx : Fin capacity)
  | restore
  deriving Repr, DecidableEq

/-- The call an idle thread makes; inside a call, whether a weak compare-exchange fails
spuriously. -/
inductive PoolChoice (capacity : Nat) where
  | acquire
  | drop (idx : Fin capacity)
  | goOn
  | failSpuriously
  deriving Repr, DecidableEq

namespace PoolPc

/-- From some slot on; behind the last one `acquire` returns nothing. -/
def search (idx : Nat) : PoolPc capacity := if h : idx < capacity then .check ⟨idx, h⟩ else .idle

/-- The thread has claimed a slot and not taken it off the count. -/
def isCounting : PoolPc capacity → Bool
  | .count _ => true
  | _ => false

/-- The thread has claimed this slot. -/
def counts (idx : Fin capacity) (p : PoolPc capacity) : Bool := p = .count idx

/-- The thread has freed a slot and not added it to the count. -/
def isRestoring : PoolPc capacity → Bool
  | .restore => true
  | _ => false

end PoolPc

/-- **One atomic operation of a thread.** -/
def poolThread {Tid : Type} [Inhabited T] (_ : Tid) (sh : PoolShared T capacity) :
    PoolPc capacity → PoolChoice capacity → Option (PoolShared T capacity × PoolPc capacity)
  | .idle, .acquire => some (sh, if sh.pool.available = 0 then .idle else .search 0)
  | .idle, .drop idx =>
      if idx ∈ sh.guards then some (⟨sh.pool.clear idx, sh.guards.erase idx⟩, .restore) else none
  | .check idx, .goOn =>
      some (sh, if (sh.pool.slots idx).occupied then .search (idx + 1) else .claim idx)
  | .claim idx, .goOn =>
      if (sh.pool.slots idx).occupied then some (sh, .search (idx + 1))
      else some (⟨sh.pool.claim idx, sh.guards⟩, .count idx)
  | .claim idx, .failSpuriously => some (sh, .search (idx + 1))
  | .count idx, .goOn => some (⟨sh.pool.subAvailable, idx :: sh.guards⟩, .idle)
  | .restore, .goOn => some (⟨sh.pool.addAvailable, sh.guards⟩, .idle)
  | _, _ => none

/-- Threads and the pool they share. -/
abbrev PoolThreads (Tid T : Type) (capacity : Nat) :=
  State Tid (PoolPc capacity) (PoolShared T capacity)

/-- A pool without guards, every thread outside its calls. -/
def PoolThreads.init (Tid : Type) (pool : ObjectPool T capacity) : PoolThreads Tid T capacity :=
  ⟨⟨pool, []⟩, fun _ => .idle⟩

namespace PoolThreads

variable {Tid : Type}

/-- **No slot is held twice, and when all calls have returned the count is right.** -/
structure Settled (s : PoolThreads Tid T capacity) : Prop where
  /-- a slot has one guard at most -/
  exclusive : s.shared.guards.Nodup
  /-- and between calls the count is right -/
  counted : (∀ t, s.pc t = .idle) →
    s.shared.pool.available + s.shared.guards.length = capacity

/-- **The accounts are right**: moreover the count does not exceed the capacity. -/
structure Accounted (s : PoolThreads Tid T capacity) : Prop extends Settled s where
  bounded : s.shared.pool.available ≤ capacity

variable [Fintype Tid]

/-- The number of free slots. -/
def free (s : PoolThreads Tid T capacity) : Nat :=
  headcount (fun slot => !slot.occupied) s.shared.pool.slots

/-- The number of slots that are claimed and not taken off the count. -/
def counting (s : PoolThreads Tid T capacity) : Nat := headcount PoolPc.isCounting s.pc

/-- The number of slots that are freed and not added to the count. -/
def restoring (s : PoolThreads Tid T capacity) : Nat := headcount PoolPc.isRestoring s.pc

/-- **A slot is taken off the count** only while more slots are free or claimed than are freed
and not counted. -/
def Backed (s : PoolThreads Tid T capacity) (a : Tid × PoolChoice capacity)
    (_ : PoolThreads Tid T capacity) : Prop :=
  (s.pc a.1).isCounting = true → s.restoring < s.free + s.counting

instance (s : PoolThreads Tid T capacity) (a : Tid × PoolChoice capacity)
    (s' : PoolThreads Tid T capacity) : Decidable (Backed s a s') :=
  inferInstanceAs (Decidable (_ → _))

/-- What holds between the operations.  A slot is occupied by one guard or by one thread that
has claimed it. -/
structure PoolInv (s : PoolThreads Tid T capacity) : Prop where
  /-- the capacity is that of a vector -/
  small : capacity < 2 ^ 63
  /-- the count is a word -/
  range : s.shared.pool.available < 2 ^ 64
  /-- a slot is held by one at most -/
  holder : ∀ idx, s.shared.guards.count idx + headcount (PoolPc.counts idx) s.pc =
    (s.shared.pool.slots idx).occupied.toNat
  /-- the slots add up -/
  tally : s.shared.guards.length + s.counting + s.free = capacity
  /-- and the count is right, modulo a word -/
  residue : (s.shared.pool.available + s.restoring) % 2 ^ 64 = (s.free + s.counting) % 2 ^ 64

end PoolThreads

/-! ## What an operation does -/

namespace PoolPc

/-- The thread has no slot in its hands. -/
structure Quiet (p : PoolPc capacity) : Prop where
  /-- it has claimed none -/
  counting : p.isCounting = false
  /-- and freed none that is to be counted -/
  restoring : p.isRestoring = false

/-- Outside of a call a thread has no slot, -/
theorem quiet_idle : Quiet (.idle : PoolPc capacity) := ⟨rfl, rfl⟩

/-- nor while it tries to claim one, -/
theorem quiet_claim (idx : Fin capacity) : Quiet (.claim idx) := ⟨rfl, rfl⟩

/-- nor on its way. -/
theorem quiet_search (idx : Nat) : Quiet (search idx : PoolPc capacity) := by
  unfold search
  split
  · exact ⟨rfl, rfl⟩
  · exact quiet_idle

/-- A thread without a slot counts none. -/
theorem Quiet.counts {p : PoolPc capacity} (h : p.Quiet) (idx : Fin capacity) :
    p.counts idx = false := by
  refine decide_eq_false ?_
  rintro rfl
  exact Bool.noConfusion h.counting

/-- A thread counts the slot that it has claimed. -/
theorem counts_count (idx idx' : Fin capacity) :
    (PoolPc.count idx).counts idx' = decide (idx = idx') :=
  decide_eq_decide.mpr ⟨PoolPc.count.inj, congrArg PoolPc.count⟩

end PoolPc

/-- What one operation does to the pool and the guards. -/
inductive PoolEffect [Inhabited T] (sh : PoolShared T capacity) (p : PoolPc capacity)
    (sh' : PoolShared T capacity) (p' : PoolPc capacity) : Prop where
  | silent (before : p.Quiet) (same : sh' = sh) (after : p'.Quiet)
  | claim (idx : Fin capacity) (before : p.Quiet)
      (isFree : (sh.pool.slots idx).occupied = false)
      (shared : sh' = ⟨sh.pool.claim idx, sh.guards⟩) (after : p' = .count idx)
  | count (idx : Fin capacity) (before : p = .count idx)
      (shared : sh' = ⟨sh.pool.subAvailable, idx :: sh.guards⟩) (after : p' = .idle)
  | clear (idx : Fin capacity) (before : p.Quiet) (live : idx ∈ sh.guards)
      (shared : sh' = ⟨sh.pool.clear idx, sh.guards.erase idx⟩) (after : p' = .restore)
  | restore (before : p = .restore) (shared : sh' = ⟨sh.pool.addAvailable, sh.guards⟩)
      (after : p' = .idle)

/-- **The operations by their effect.** -/
theorem poolThread_effect [Inhabited T] {Tid : Type} {t : Tid} {sh sh' : PoolShared T capacity}
    {p p' : PoolPc capacity} {c : PoolChoice capacity}
    (h : poolThread t sh p c = some (sh', p')) : PoolEffect sh p sh' p' := by
  cases p with
  | idle =>
      cases c with
      | acquire =>
          cases h
          refine .silent PoolPc.quiet_idle rfl ?_
          split
          · exact PoolPc.quiet_idle
          · exact PoolPc.quiet_search 0
      | drop idx =>
          simp only [poolThread] at h
          split at h
          · rename_i hlive
            cases h
            exact .clear idx PoolPc.quiet_idle hlive rfl rfl
          · cases h
      | goOn | failSpuriously => cases h
  | check idx =>
      cases c with
      | goOn =>
          cases h
          refine .silent ⟨rfl, rfl⟩ rfl ?_
          split
          · exact PoolPc.quiet_search _
          · exact PoolPc.quiet_claim idx
      | _ => cases h
  | claim idx =>
      cases c with
      | goOn =>
          simp only [poolThread] at h
          split at h
          · cases h
            exact .silent (PoolPc.quiet_claim idx) rfl (PoolPc.quiet_search _)
          · rename_i hfree
            cases h
            exact .claim idx (PoolPc.quiet_claim idx) (Bool.eq_false_iff.mpr hfree) rfl rfl
      | failSpuriously =>
          cases h
          exact .silent (PoolPc.quiet_claim idx) rfl (PoolPc.quiet_search _)
      | _ => cases h
  | count idx =>
      cases c with
      | goOn =>
          cases h
          exact .count idx rfl rfl rfl
      | _ => cases h
  | restore =>
      cases c with
      | goOn =>
          cases h
          exact .restore rfl rfl rfl
      | _ => cases h

/-! ## Along a run -/

namespace PoolThreads

variable {Tid : Type} [Fintype Tid] {s : PoolThreads Tid T capacity}

/-- In a new pool all slots are free and available. -/
theorem poolInv_init {pool : ObjectPool T capacity} (hnew : ObjectPool.new T capacity = some pool) :
    PoolInv (init Tid pool) ∧ (init Tid pool).shared.pool.available + (init Tid pool).restoring =
      (init Tid pool).free + (init Tid pool).counting := by
  have hcounting : (init Tid pool).counting = 0 := headcount_eq_zero fun _ => rfl
  have hrestoring : (init Tid pool).restoring = 0 := headcount_eq_zero fun _ => rfl
  unfold ObjectPool.new at hnew
  split at hnew
  · cases hnew
  · split at hnew
    · cases hnew
    · rename_i hsmall
      cases hnew
      have hfree : (init Tid (⟨fun _ => ⟨false, none⟩, capacity⟩ : ObjectPool T capacity)).free =
          capacity :=
        (headcount_eq_card fun _ => rfl).trans (Fintype.card_fin capacity)
      refine ⟨⟨not_le.mp hsmall, ?_, fun idx => ?_, ?_, ?_⟩, ?_⟩
      · show capacity < 2 ^ 64
        omega
      · exact (Nat.zero_add _).trans
          (headcount_eq_zero fun _ => PoolPc.quiet_idle.counts idx)
      · rw [hfree, hcounting]
        exact Nat.zero_add capacity
      · rw [hfree, hcounting, hrestoring]
        rfl
      · rw [hfree, hcounting, hrestoring]
        rfl

/-- **No slot is held twice**, whatever the count is. -/
theorem PoolInv.settled (inv : PoolInv s) : Settled s where
  exclusive := by
    refine List.nodup_iff_count_le_one.mpr fun idx => ?_
    have hholder := inv.holder idx
    have hone := Bool.toNat_le (s.shared.pool.slots idx).occupied
    omega
  counted := fun hidle => by
    have hcounting : s.counting = 0 := headcount_eq_zero fun t => by rw [hidle t]; rfl
    have hrestoring : s.restoring = 0 := headcount_eq_zero fun t => by rw [hidle t]; rfl
    have hsmall := inv.small
    have hrange := inv.range
    have htally := inv.tally
    have hresidue := inv.residue
    omega

/-- **The count is exact**: what is free or claimed, less what is freed and not counted. -/
structure Exact (s : PoolThreads Tid T capacity) : Prop where
  /-- what holds in every run -/
  inv : PoolInv s
  /-- and the count has not wrapped -/
  exact_eq : s.shared.pool.available + s.restoring = s.free + s.counting

/-- An exact count is right. -/
theorem Exact.accounted {s : PoolThreads Tid T capacity} (h : Exact s) : Accounted s where
  toSettled := h.inv.settled
  bounded := by
    have htally := h.inv.tally
    have hexact := h.exact_eq
    omega

/-- The counts that a step moves: the available slots as the pool has it, the guards, the slots
that are free and those in the hands of threads. -/
@[ext]
structure Counts where
  available : Nat
  guards : Nat
  free : Nat
  counting : Nat
  restoring : Nat

/-- The counts of a state. -/
def counts (s : PoolThreads Tid T capacity) : Counts :=
  ⟨s.shared.pool.available, s.shared.guards.length, s.free, s.counting, s.restoring⟩

/-- What one operation of a thread does to the counts. -/
inductive CountEffect (p : PoolPc capacity) (n n' : Counts) : Prop where
  | silent (same : n' = n)
  | claim (positive : 0 < n.free)
      (after : n' = { n with free := n.free - 1, counting := n.counting + 1 })
  | count (before : p.isCounting = true) (positive : 0 < n.counting)
      (after : n' =
        { n with
          available := wordPred n.available
          guards := n.guards + 1
          counting := n.counting - 1 })
  | clear (positive : 0 < n.guards)
      (after : n' =
        { n with guards := n.guards - 1, free := n.free + 1, restoring := n.restoring + 1 })
  | restore (positive : 0 < n.restoring)
      (after : n' =
        { n with available := wordSucc n.available, restoring := n.restoring - 1 })

variable [DecidableEq Tid] [Inhabited T]

/-- **A slot is occupied by one holder** after an operation as before. -/
theorem PoolInv.holder_step (inv : PoolInv s) {t : Tid} {sh : PoolShared T capacity}
    {p : PoolPc capacity} (heffect : PoolEffect s.shared (s.pc t) sh p) (idx' : Fin capacity) :
    sh.guards.count idx' + headcount (PoolPc.counts idx') (Function.update s.pc t p) =
      (sh.pool.slots idx').occupied.toNat := by
  have hcounts := headcount_update (PoolPc.counts idx') s.pc t p
  have hholder := inv.holder idx'
  cases heffect with
  | silent before same after =>
      subst same
      rw [before.counts, after.counts] at hcounts
      exact (congrArg _ hcounts).trans hholder
  | claim idx before isFree shared after =>
      subst shared after
      rw [before.counts, PoolPc.counts_count] at hcounts
      show s.shared.guards.count idx' + _ =
        (Function.update s.shared.pool.slots idx _ idx').occupied.toNat
      -- the slot is occupied now, by a thread that has yet to count it
      by_cases hsame : idx = idx'
      · subst hsame
        rw [isFree, Bool.toNat_false] at hholder
        rw [decide_eq_true rfl, Bool.toNat_false, Bool.toNat_true] at hcounts
        rw [Function.update_self, Bool.toNat_true]
        omega
      · rw [decide_eq_false hsame] at hcounts
        rw [Function.update_of_ne (Ne.symm hsame)]
        exact (congrArg _ hcounts).trans hholder
  | count idx before shared after =>
      subst shared after
      rw [before, PoolPc.counts_count, PoolPc.quiet_idle.counts] at hcounts
      show (idx :: s.shared.guards).count idx' + _ = (s.shared.pool.slots idx').occupied.toNat
      -- what the thread held is now held by a guard
      rw [List.count_cons, ← hholder]
      by_cases hsame : idx = idx'
      · rw [decide_eq_true hsame, Bool.toNat_false, Bool.toNat_true] at hcounts
        rw [if_pos (beq_iff_eq.mpr hsame)]
        omega
      · rw [decide_eq_false hsame] at hcounts
        rw [if_neg (fun h => hsame (beq_iff_eq.mp h))]
        exact congrArg _ hcounts
  | clear idx before live shared after =>
      subst shared after
      rw [before.counts] at hcounts
      show (s.shared.guards.erase idx).count idx' + _ =
        (Function.update s.shared.pool.slots idx _ idx').occupied.toNat
      by_cases hsame : idx = idx'
      · subst hsame
        -- there was one guard of the slot at most, and that one is gone
        have hlive := List.count_pos_iff.mpr live
        have hone := Bool.toNat_le (s.shared.pool.slots idx).occupied
        rw [Function.update_self, List.count_erase_self, Bool.toNat_false]
        have hquiet : (PoolPc.counts idx .restore).toNat = 0 := rfl
        rw [hquiet, Bool.toNat_false] at hcounts
        omega
      · rw [Function.update_of_ne (Ne.symm hsame), List.count_erase_of_ne (Ne.symm hsame)]
        exact (congrArg _ hcounts).trans hholder
  | restore before shared after =>
      subst shared after
      rw [before] at hcounts
      exact (congrArg _ hcounts).trans hholder

/-- **The operations by the counts.** -/
theorem PoolInv.countEffect (inv : PoolInv s) {t : Tid} {sh : PoolShared T capacity}
    {p : PoolPc capacity} (heffect : PoolEffect s.shared (s.pc t) sh p) :
    CountEffect (s.pc t) s.counts (counts ⟨sh, Function.update s.pc t p⟩) := by
  have hcounting := headcount_update PoolPc.isCounting s.pc t p
  have hrestoring := headcount_update PoolPc.isRestoring s.pc t p
  have hfree := headcount_update (fun slot : Slot T => !slot.occupied) s.shared.pool.slots
  cases heffect with
  | silent before same after =>
      subst same
      rw [before.counting, after.counting] at hcounting
      rw [before.restoring, after.restoring] at hrestoring
      exact .silent (Counts.ext rfl rfl rfl hcounting hrestoring)
  | claim idx before isFree shared after =>
      subst shared after
      have hslot := hfree idx ⟨true, some ((s.shared.pool.slots idx).data.getD default)⟩
      rw [before.counting] at hcounting
      rw [before.restoring] at hrestoring
      rw [isFree] at hslot
      exact .claim (Nat.lt_of_lt_of_eq (Nat.succ_pos _) hslot)
        (Counts.ext rfl rfl (Nat.eq_sub_of_add_eq hslot) hcounting hrestoring)
  | count idx before shared after =>
      subst shared after
      have hpos : 0 < s.counting := headcount_pos (t := t) (by rw [before]; rfl)
      rw [before] at hcounting hrestoring ⊢
      exact .count rfl hpos
        (Counts.ext rfl rfl rfl (Nat.eq_sub_of_add_eq hcounting) hrestoring)
  | clear idx before live shared after =>
      subst shared after
      have hslot := hfree idx ⟨false, none⟩
      have hlive := List.count_pos_iff.mpr live
      have hholder := inv.holder idx
      have hoccupied : (s.shared.pool.slots idx).occupied = true := by
        refine Bool.eq_true_of_not_eq_false fun hfalse => ?_
        rw [hfalse, Bool.toNat_false] at hholder
        omega
      rw [before.counting] at hcounting
      rw [before.restoring] at hrestoring
      rw [hoccupied] at hslot
      exact .clear (List.length_pos_of_mem live)
        (Counts.ext rfl (List.length_erase_of_mem live) hslot hcounting hrestoring)
  | restore before shared after =>
      subst shared after
      have hpos : 0 < s.restoring := headcount_pos (t := t) (by rw [before]; rfl)
      rw [before] at hcounting hrestoring ⊢
      exact .restore hpos
        (Counts.ext rfl rfl rfl hcounting (Nat.eq_sub_of_add_eq hrestoring))

/-- **One operation keeps the invariant.** -/
theorem PoolInv.step (inv : PoolInv s) {s' : PoolThreads Tid T capacity}
    {a : Tid × PoolChoice capacity} (hstep : Threads.step poolThread s a = some s') :
    PoolInv s' := by
  obtain ⟨sh, p, hprog, rfl⟩ := step_eq_some.mp hstep
  have hholder := inv.holder_step (poolThread_effect hprog)
  have hsmall := inv.small
  have hrange : s.counts.available < 2 ^ 64 := inv.range
  have htally : s.counts.guards + s.counts.counting + s.counts.free = capacity := inv.tally
  have hresidue : (s.counts.available + s.counts.restoring) % 2 ^ 64 =
    (s.counts.free + s.counts.counting) % 2 ^ 64 := inv.residue
  suffices h : ∀ n, CountEffect (s.pc a.1) s.counts n → n.available < 2 ^ 64 ∧
      n.guards + n.counting + n.free = capacity ∧
      (n.available + n.restoring) % 2 ^ 64 = (n.free + n.counting) % 2 ^ 64 by
    obtain ⟨hrange', htally', hresidue'⟩ := h _ (inv.countEffect (poolThread_effect hprog))
    exact ⟨hsmall, hrange', hholder, htally', hresidue'⟩
  intro n heffect
  cases heffect with
  | silent same =>
      rw [same]
      exact ⟨hrange, htally, hresidue⟩
  | claim positive after =>
      rw [after]
      dsimp only
      omega
  | count before positive after =>
      rw [after]
      dsimp only [wordPred]
      split <;> omega
  | clear positive after =>
      rw [after]
      dsimp only
      omega
  | restore positive after =>
      rw [after]
      dsimp only [wordSucc]
      omega

/-- **One operation** keeps the count exact, if it is backed. -/
theorem Exact.step (h : Exact s) {s' : PoolThreads Tid T capacity} {a : Tid × PoolChoice capacity}
    (hstep : Threads.step poolThread s a = some s') (hguard : Backed s a s') : Exact s' := by
  refine ⟨h.inv.step hstep, ?_⟩
  obtain ⟨sh, p, hprog, rfl⟩ := step_eq_some.mp hstep
  have hsmall := h.inv.small
  have htally : s.counts.guards + s.counts.counting + s.counts.free = capacity := h.inv.tally
  have hexact : s.counts.available + s.counts.restoring = s.counts.free + s.counts.counting :=
    h.exact_eq
  suffices hafter : ∀ n, CountEffect (s.pc a.1) s.counts n →
      n.available + n.restoring = n.free + n.counting from
    hafter _ (h.inv.countEffect (poolThread_effect hprog))
  intro n heffect
  cases heffect with
  | silent same => rwa [same]
  | claim positive after =>
      rw [after]
      dsimp only
      omega
  | count before positive after =>
      have hbacked : s.counts.restoring < s.counts.free + s.counts.counting := hguard before
      rw [after]
      dsimp only [wordPred]
      split <;> omega
  | clear positive after =>
      rw [after]
      dsimp only
      omega
  | restore positive after =>
      rw [after]
      dsimp only [wordSucc]
      omega

/-- A slot that is taken off the count while it is not backed takes the count below zero. -/
theorem Exact.backed (h : Exact s) {s' : PoolThreads Tid T capacity}
    {a : Tid × PoolChoice capacity} (hstep : Threads.step poolThread s a = some s')
    (hsafe : Accounted s') : Backed s a s' := by
  intro hcount
  obtain ⟨sh, p, hprog, rfl⟩ := step_eq_some.mp hstep
  have hsmall := h.inv.small
  have hexact : s.shared.pool.available + s.restoring = s.free + s.counting := h.exact_eq
  have hbounded : sh.pool.available ≤ capacity := hsafe.bounded
  have hnot : ¬ (s.pc a.1).Quiet := fun hquiet => by
    rw [hquiet.counting] at hcount
    exact Bool.noConfusion hcount
  cases poolThread_effect hprog with
  | silent before same after => exact absurd before hnot
  | claim idx before isFree shared after => exact absurd before hnot
  | clear idx before live shared after => exact absurd before hnot
  | restore before shared after =>
      rw [before] at hcount
      exact Bool.noConfusion hcount
  | count idx before shared after =>
      rw [shared] at hbounded
      by_contra hlack
      have hzero : s.shared.pool.available = 0 := by omega
      have hwrapped : s.shared.pool.subAvailable.available = 2 ^ 64 - 1 := if_pos hzero
      have hover : s.shared.pool.subAvailable.available ≤ capacity := hbounded
      omega

/-- **No slot is held twice, and the count is right when all calls have returned**, in every
interleaving. -/
theorem settled_of_new {pool : ObjectPool T capacity}
    (hnew : ObjectPool.new T capacity = some pool) (run : List (Tid × PoolChoice capacity)) :
    AllStates (Threads.step poolThread) Settled (init Tid pool) run :=
  (allStates_of_invariant (fun _ _ _ inv hstep => PoolInv.step inv hstep)
    (poolInv_init hnew).1 run).imp fun _ inv => inv.settled

/-- **When the accounts are right.**  For any number of threads and every interleaving. -/
theorem accounted_iff_backed {pool : ObjectPool T capacity}
    (hnew : ObjectPool.new T capacity = some pool) (run : List (Tid × PoolChoice capacity)) :
    AllStates (Threads.step poolThread) Accounted (init Tid pool) run ↔
      AllSteps (Threads.step poolThread) Backed (init Tid pool) run := by
  have hinit : Exact (init Tid pool) := ⟨(poolInv_init hnew).1, (poolInv_init hnew).2⟩
  exact (allSteps_iff_allStates (fun s (h : Exact s) => h.accounted)
    (fun s a s' h hstep hguard => h.step hstep hguard)
    (fun s a s' h hstep hsafe => h.backed hstep hsafe) hinit run).symm

end PoolThreads

/-! ## A pool of one slot -/

/-- A new pool of one slot. -/
def poolOfOne : ObjectPool Nat 1 := ⟨fun _ => ⟨false, none⟩, 1⟩

/-- The second thread sees that a slot is available; the first one acquires it and frees it,
and before it has counted that, the second one claims the slot. -/
def overtaking : List (Bool × PoolChoice 1) :=
  [(true, .acquire), (false, .acquire), (false, .goOn), (false, .goOn), (false, .goOn),
    (false, .drop 0), (true, .goOn), (true, .goOn), (true, .goOn)]

namespace PoolThreads

/-- A pool of one slot, which a second thread overtakes. -/
theorem accounted_iff_backed_ofOne :
    AllStates (Threads.step poolThread) Accounted (init Bool poolOfOne) overtaking ↔
      AllSteps (Threads.step poolThread) Backed (init Bool poolOfOne) overtaking :=
  have hnew : ObjectPool.new Nat 1 = some poolOfOne := rfl
  accounted_iff_backed hnew overtaking

/-- **The count goes below zero** with two threads and one slot. -/
theorem not_forall_poolAccounted :
    ¬ ∀ (capacity : Nat) (pool : ObjectPool Nat capacity),
      ObjectPool.new Nat capacity = some pool → ∀ run : List (Bool × PoolChoice capacity),
        AllStates (Threads.step poolThread) Accounted (init Bool pool) run := by
  intro h
  have hsafe := h 1 poolOfOne rfl overtaking
  have hsteps : AllSteps (Threads.step poolThread)
      (fun _ _ s' => s'.shared.pool.available ≤ 1) (init Bool poolOfOne) overtaking :=
    AllSteps.of_invariant (fun _ _ _ (_ : True) _ (hs : Accounted _) => ⟨trivial, hs.bounded⟩)
      overtaking _ trivial hsafe.2
  revert hsteps
  decide

end PoolThreads

end StopTrading.Memory
