import StopTrading.Library.Alignment
import StopTrading.Library.Threads

/-!
# The arena

`Arena` is a bump allocator that threads share: `allocate` rounds the offset up to the
alignment, and moves it behind the block by a weak compare-exchange that is tried again until
it succeeds or the arena is exhausted.  `allocator` runs the calls one atomic operation at a
time; `ArenaShared` remembers the blocks returned since the last `reset`.

A compare-exchange succeeds only on the offset its block was computed from, however old that
value is.  So the blocks lie one behind the other below the offset (`BelowOffset`), and are
disjoint and inside of the arena in every interleaving (`soundBlocks_of_noOverflow`).

### What is load-bearing

A retry loop around a compare-exchange is often proved by saying that the exchange fails when the
value is stale.  Here it is the other way round: whatever a thread has loaded and computed, at
the moment of a successful exchange the offset *is* the one its block was computed from.  So the
block is put behind all others at that moment, and the age of the value plays no part, not even
across a `reset` in between.

What a thread carries is only needed for alignment.  A request whose alignment is no power of two
is refused before it gets anywhere, and `ArenaPc.Ok` remembers this.

The hypothesis on sums excludes requests so large that rounding up or adding wraps.  In a wrapped
sum the new offset lies before the old one, and everything is lost.
-/

namespace StopTrading.Memory

open Transition Threads StopTrading.Alignment

/-- `Arena`; offsets are counted from its `base`. -/
structure Arena where
  offset : BitVec 64
  size : BitVec 64
  id : BitVec 64
  deriving Repr, DecidableEq

/-- `Arena::new`, when the system allocator has answered. -/
def Arena.new (id size : BitVec 64) : Arena := ⟨0, size, id⟩

/-- A block that was returned: where it begins, and what was asked for. -/
structure Block where
  offset : BitVec 64
  size : BitVec 64
  align : BitVec 64
  deriving Repr, DecidableEq

namespace Block

/-- Where a block ends. -/
def stop (b : Block) : Nat := b.offset.toNat + b.size.toNat

/-- Two blocks do not overlap. -/
def Apart (b b' : Block) : Prop := b.stop ≤ b'.offset.toNat ∨ b'.stop ≤ b.offset.toNat

instance (b b' : Block) : Decidable (b.Apart b') := inferInstanceAs (Decidable (_ ∨ _))

/-- The block for a request, from an offset on: `aligned_offset`. -/
def ofRequest (size align current : BitVec 64) : Block := ⟨alignUp current align, size, align⟩

/-- `new_offset`. -/
def newOffset (b : Block) : BitVec 64 := b.offset + b.size

end Block

/-! ## The threads -/

/-- The arena, and the blocks returned since the last `reset`, newest first. -/
structure ArenaShared where
  arena : Arena
  blocks : List Block
  deriving Repr, DecidableEq

/-- Where a thread is; in `allocate` it holds the offset that it has loaded. -/
inductive ArenaPc where
  | idle
  | attempt (size align current : BitVec 64)
  deriving Repr

/-- The call an idle thread makes; inside `allocate`, whether the weak compare-exchange fails
spuriously. -/
inductive ArenaChoice where
  | allocate (size align : BitVec 64)
  | reset
  | goOn
  | failSpuriously
  deriving Repr

/-- `reset`. -/
def ArenaShared.reset (sh : ArenaShared) : ArenaShared := ⟨{ sh.arena with offset := 0 }, []⟩

/-- The offset is replaced and the block returned. -/
def ArenaShared.bump (sh : ArenaShared) (b : Block) : ArenaShared :=
  ⟨{ sh.arena with offset := b.newOffset }, b :: sh.blocks⟩

/-- One round of the loop of `allocate`. -/
def ArenaShared.attempt (sh : ArenaShared) (size align current : BitVec 64)
    (failSpuriously : Bool) : ArenaShared × ArenaPc :=
  let b := Block.ofRequest size align current
  if b.newOffset > sh.arena.size then (sh, .idle)
  else if sh.arena.offset = current ∧ failSpuriously = false then (sh.bump b, .idle)
  else (sh, .attempt size align sh.arena.offset)

/-- **One atomic operation of a thread.**  An alignment that is no power of two is refused by
the assertion. -/
def allocator {Tid : Type} (_ : Tid) (sh : ArenaShared) :
    ArenaPc → ArenaChoice → Option (ArenaShared × ArenaPc)
  | .idle, .allocate size align =>
      if align.toNat.isPowerOfTwo then some (sh, .attempt size align sh.arena.offset) else none
  | .idle, .reset => some (sh.reset, .idle)
  | .attempt size align current, .goOn => some (sh.attempt size align current false)
  | .attempt size align current, .failSpuriously => some (sh.attempt size align current true)
  | _, _ => none

/-- Threads and the arena they share. -/
abbrev ArenaThreads (Tid : Type) := State Tid ArenaPc ArenaShared

/-- A new arena, every thread outside its calls. -/
def ArenaThreads.init (Tid : Type) (id size : BitVec 64) : ArenaThreads Tid :=
  ⟨⟨.new id size, []⟩, fun _ => .idle⟩

/-- The sums of an attempt stay in the word. -/
def ArenaPc.Fits : ArenaPc → Prop
  | .idle => True
  | .attempt size align current =>
      current.toNat + align.toNat < 2 ^ 64 ∧
        (alignUp current align).toNat + size.toNat < 2 ^ 64

instance (p : ArenaPc) : Decidable p.Fits :=
  match p with
  | .idle => .isTrue trivial
  | .attempt .. => inferInstanceAs (Decidable (_ ∧ _))

/-! ## What is promised -/

/-- **The blocks are sound**: pairwise disjoint, inside of the arena and aligned. -/
structure ArenaShared.Sound (sh : ArenaShared) : Prop where
  /-- no two overlap -/
  disjoint : sh.blocks.Pairwise Block.Apart
  /-- none leaves the arena -/
  inside : ∀ b ∈ sh.blocks, b.stop ≤ sh.arena.size.toNat
  /-- and all are aligned -/
  aligned : ∀ b ∈ sh.blocks, b.align.toNat ∣ b.offset.toNat

variable {Tid : Type}

/-- **The sums do not overflow** in the operation that a thread makes. -/
def NoOverflow (s : ArenaThreads Tid) (a : Tid × ArenaChoice) (_ : ArenaThreads Tid) : Prop :=
  (s.pc a.1).Fits

instance (s : ArenaThreads Tid) (a : Tid × ArenaChoice) (s' : ArenaThreads Tid) :
    Decidable (NoOverflow s a s') :=
  inferInstanceAs (Decidable (s.pc a.1).Fits)

/-- **The offset does not decrease**, except that `reset` sets it to zero. -/
def NeverBack (s : ArenaThreads Tid) (a : Tid × ArenaChoice) (s' : ArenaThreads Tid) : Prop :=
  a.2 = .reset ∨ s.shared.arena.offset ≤ s'.shared.arena.offset

/-! ## What an operation does -/

/-- What a thread knows about its request. -/
def ArenaPc.Ok : ArenaPc → Prop
  | .idle => True
  | .attempt _ align _ => align.toNat.isPowerOfTwo

/-- What one operation does to the arena. -/
inductive ArenaEffect (sh : ArenaShared) (p : ArenaPc) (c : ArenaChoice) (sh' : ArenaShared) :
    Prop where
  | silent (after : sh' = sh)
  | reset (call : c = .reset) (after : sh' = sh.reset)
  | bump (size align : BitVec 64) (expected : p = .attempt size align sh.arena.offset)
      (room : (Block.ofRequest size align sh.arena.offset).newOffset ≤ sh.arena.size)
      (after : sh' = sh.bump (.ofRequest size align sh.arena.offset))

/-- One round moves the offset if it is what the thread has loaded, and else nothing. -/
theorem attempt_effect {sh sh' : ArenaShared} {size align current : BitVec 64} {p' : ArenaPc}
    {c : ArenaChoice} {failSpuriously : Bool} (halign : align.toNat.isPowerOfTwo)
    (h : sh.attempt size align current failSpuriously = (sh', p')) :
    ArenaEffect sh (.attempt size align current) c sh' ∧ p'.Ok := by
  unfold ArenaShared.attempt at h
  dsimp only at h
  split at h
  · cases h
    exact ⟨.silent rfl, trivial⟩
  · rename_i hroom
    split at h
    · rename_i hsame
      obtain ⟨rfl, -⟩ := hsame
      cases h
      exact ⟨.bump size align rfl (BitVec.not_lt.mp hroom) rfl, trivial⟩
    · cases h
      exact ⟨.silent rfl, halign⟩

/-- **The operations by their effect.** -/
theorem allocator_effect {t : Tid} {sh sh' : ArenaShared} {p p' : ArenaPc} {c : ArenaChoice}
    (hp : p.Ok) (h : allocator t sh p c = some (sh', p')) : ArenaEffect sh p c sh' ∧ p'.Ok := by
  cases p with
  | idle =>
      cases c with
      | allocate size align =>
          simp only [allocator] at h
          split at h
          · rename_i halign
            cases h
            exact ⟨.silent rfl, halign⟩
          · cases h
      | reset =>
          cases h
          exact ⟨.reset rfl rfl, trivial⟩
      | goOn | failSpuriously => cases h
  | attempt size align current =>
      cases c with
      | goOn | failSpuriously => exact attempt_effect hp (Option.some.inj h)
      | allocate | reset => cases h

/-! ## The blocks lie below the offset -/

/-- The blocks are sound, and the offset is behind all of them. -/
structure BelowOffset (sh : ArenaShared) : Prop where
  /-- the blocks are sound -/
  sound : sh.Sound
  /-- and end before the offset -/
  below : ∀ b ∈ sh.blocks, b.stop ≤ sh.arena.offset.toNat

/-- After a reset there are no blocks. -/
theorem belowOffset_reset (sh : ArenaShared) : BelowOffset sh.reset where
  sound := ⟨.nil, fun _ hb => absurd hb List.not_mem_nil, fun _ hb => absurd hb List.not_mem_nil⟩
  below := fun _ hb => absurd hb List.not_mem_nil

/-- **A block is put behind the others.** -/
theorem BelowOffset.bump {sh : ArenaShared} (inv : BelowOffset sh) {size align : BitVec 64}
    (halign : align.toNat.isPowerOfTwo)
    (hfits : (ArenaPc.attempt size align sh.arena.offset).Fits)
    (hroom : (Block.ofRequest size align sh.arena.offset).newOffset ≤ sh.arena.size) :
    BelowOffset (sh.bump (.ofRequest size align sh.arena.offset)) ∧
      sh.arena.offset ≤ (Block.ofRequest size align sh.arena.offset).newOffset := by
  obtain ⟨hsum, hstop⟩ := hfits
  have hfrom : sh.arena.offset.toNat ≤ (alignUp sh.arena.offset align).toNat :=
    le_alignUp halign hsum
  have hnew : (Block.ofRequest size align sh.arena.offset).newOffset.toNat =
      (Block.ofRequest size align sh.arena.offset).stop := by
    rw [Block.newOffset, BitVec.toNat_add]
    exact Nat.mod_eq_of_lt hstop
  have hgrows : sh.arena.offset.toNat ≤ (Block.ofRequest size align sh.arena.offset).stop :=
    hfrom.trans (Nat.le_add_right _ _)
  refine ⟨⟨⟨?_, ?_, ?_⟩, ?_⟩, ?_⟩
  · exact inv.sound.disjoint.cons fun b hb => Or.inr ((inv.below b hb).trans hfrom)
  · refine List.forall_mem_cons.mpr ⟨?_, inv.sound.inside⟩
    rw [← hnew]
    exact BitVec.le_def.mp hroom
  · exact List.forall_mem_cons.mpr ⟨dvd_alignUp halign hsum, inv.sound.aligned⟩
  · refine List.forall_mem_cons.mpr ⟨hnew.ge, fun b hb => ?_⟩
    exact (inv.below b hb).trans (hgrows.trans hnew.ge)
  · rw [BitVec.le_def, hnew]
    exact hgrows

/-! ## Along a run -/

variable [DecidableEq Tid]

/-- What holds between the operations. -/
structure ArenaInv (s : ArenaThreads Tid) : Prop where
  /-- the blocks lie below the offset -/
  blocks : BelowOffset s.shared
  /-- and requests are proper -/
  pcs : ∀ t, (s.pc t).Ok

/-- **One operation** puts a block behind the others, or resets, or does nothing. -/
theorem arenaInv_step {s s' : ArenaThreads Tid} {a : Tid × ArenaChoice} (inv : ArenaInv s)
    (hstep : step allocator s a = some s') (hfits : NoOverflow s a s') :
    ArenaInv s' ∧ NeverBack s a s' := by
  obtain ⟨sh, p, hprog, rfl⟩ := step_eq_some.mp hstep
  obtain ⟨effect, hp⟩ := allocator_effect (inv.pcs a.1) hprog
  have hpcs : ∀ t, (Function.update s.pc a.1 p t).Ok :=
    forall_pc_update hp fun u _ => inv.pcs u
  cases effect with
  | silent after =>
      subst after
      exact ⟨⟨inv.blocks, hpcs⟩, Or.inr (BitVec.le_refl _)⟩
  | reset call after =>
      subst after
      exact ⟨⟨belowOffset_reset _, hpcs⟩, Or.inl call⟩
  | bump size align expected room after =>
      subst after
      have halign := inv.pcs a.1
      unfold NoOverflow at hfits
      rw [expected] at halign hfits
      obtain ⟨hblocks, hgrows⟩ := inv.blocks.bump halign hfits room
      exact ⟨⟨hblocks, hpcs⟩, Or.inr hgrows⟩

/-- **Blocks never overlap.**  For any threads and every interleaving of their calls, with
any sizes and alignments whose sums do not overflow. -/
theorem soundBlocks_of_noOverflow (id size : BitVec 64) (run : List (Tid × ArenaChoice))
    (hfits : AllSteps (step allocator) NoOverflow (ArenaThreads.init Tid id size) run) :
    AllStates (step allocator) (fun s => s.shared.Sound) (ArenaThreads.init Tid id size) run ∧
      AllSteps (step allocator) NeverBack (ArenaThreads.init Tid id size) run := by
  have start : ArenaInv (ArenaThreads.init Tid id size) :=
    ⟨belowOffset_reset ⟨.new id size, []⟩, fun _ => trivial⟩
  exact ⟨AllStates.of_invariant (fun s (inv : ArenaInv s) => inv.blocks.sound)
      (fun s a s' inv hstep hguard => (arenaInv_step inv hstep hguard).1) start hfits,
    AllSteps.of_invariant (fun s a s' inv hstep hguard => arenaInv_step inv hstep hguard)
      run _ start hfits⟩

/-- Two threads load the same offset; the second one has to align again. -/
def racing : List (Bool × ArenaChoice) :=
  [(false, .allocate 5 1), (true, .allocate 8 8), (false, .goOn), (true, .goOn),
    (true, .failSpuriously), (true, .goOn)]

/-- The second thread's exchange fails, and its block comes behind the first. -/
theorem soundBlocks_racing :
    AllStates (step allocator) (fun s => s.shared.Sound) (ArenaThreads.init Bool 0 64) racing ∧
      AllSteps (step allocator) NeverBack (ArenaThreads.init Bool 0 64) racing :=
  soundBlocks_of_noOverflow 0 64 racing (by decide)

end StopTrading.Memory
