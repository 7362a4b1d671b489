import StopTrading.Disruptor.Sequencer
import StopTrading.Library.Threads

/-!
# Publication by several producers

Producers claim a sequence number (`next` or `try_next` with a batch of one),
write the slot that belongs to it, and publish it.  `producer` runs these calls
one atomic operation at a time, so the runs of `Threads.step producer` are all
interleavings of any number of producers; the history records which numbers were
claimed and which have been stored into the cursor.

`Publication` is what these calls are for: numbers are claimed in order and
published in some order, and a barrier may answer with the cursor.  `Progress`
says that every atomic operation is a claim, a publication, or invisible at that
level (`producer_progress`), and the results are proved about `Publication`
alone.

`publish` stores its number into the cursor whatever the cursor was.  Hence the
answers of a barrier are safe exactly as long as numbers are published in the
order in which they were claimed (`barrierSafe_iff_inOrder`): the two halves are

* a store that does not skip a number keeps all numbers up to the cursor
  published (`Covered`), for any number of claims;
* a store that skips one exposes it, because the skipped number has been claimed
  by then.  This half needs `Contiguous`, and with it that the counter has not
  wrapped.
-/

namespace StopTrading.Disruptor

open Transition Threads

/-! ## What publication is for -/

/-- The claims and publications that have happened, with the two counters they
move. -/
structure Publication where
  cursor : Nat
  nextSequence : Nat
  claimed : List Nat
  published : List Nat
  deriving Repr, DecidableEq

namespace Publication

/-- The next sequence number is claimed. -/
def claim (p : Publication) : Publication :=
  { p with
    nextSequence := (p.nextSequence + 1) % 2 ^ 64
    claimed := p.nextSequence :: p.claimed }

/-- A sequence number is published. -/
def publish (p : Publication) (sequence : Nat) : Publication :=
  { p with
    cursor := sequence
    published := sequence :: p.published }

/-- **The answers of every barrier are safe**: when one says that `a` is
available, the claimed numbers `1, …, a` have all been published. -/
def BarrierSafe (p : Publication) : Prop :=
  ∀ (barrier : SequenceBarrier) (sequence a : Nat),
    barrier.tryWaitFor p.cursor sequence = .ok a →
      ∀ k ∈ p.claimed, 1 ≤ k → k ≤ a → k ∈ p.published

/-- All numbers up to the cursor are published. -/
def Covered (p : Publication) : Prop :=
  ∀ k, 1 ≤ k → k ≤ p.cursor → k ∈ p.published

/-- Where everything up to the cursor is published, no answer is wrong. -/
theorem Covered.barrierSafe {p : Publication} (h : p.Covered) : p.BarrierSafe := by
  intro barrier sequence a hanswer k _ hk hka
  exact h k hk (hka.trans (SequenceBarrier.le_cursor_of_tryWaitFor hanswer))

/-- A claim moves no cursor, -/
theorem Covered.claim {p : Publication} (h : p.Covered) : p.claim.Covered := h

/-- and a store that skips no number leaves none behind. -/
theorem Covered.publish {p : Publication} {sequence : Nat} (h : p.Covered)
    (hseq : sequence ≤ p.cursor + 1) : (p.publish sequence).Covered := by
  intro k hk hle
  show k ∈ sequence :: p.published
  by_cases heq : k = sequence
  · rw [heq]
    exact List.mem_cons_self
  · exact List.mem_cons_of_mem _ (h k hk (by
      change k ≤ sequence at hle
      omega))

/-- **Numbers are handed out and published contiguously**, short of the wrap of
the counter: `1, …, next - 1` are claimed and `1, …, cursor` are published. -/
structure Contiguous (p : Publication) : Prop where
  /-- the next number is behind those that were claimed -/
  next_eq : p.nextSequence = p.claimed.length + 1
  /-- the cursor stays behind it -/
  cursor_lt : p.cursor < p.nextSequence
  /-- what was claimed is a range -/
  mem_claimed : ∀ k, k ∈ p.claimed ↔ 1 ≤ k ∧ k < p.nextSequence
  /-- and what was published is one -/
  mem_published : ∀ k, k ∈ p.published ↔ 1 ≤ k ∧ k ≤ p.cursor

/-- Contiguous publication is covered. -/
theorem Contiguous.covered {p : Publication} (h : p.Contiguous) : p.Covered :=
  fun k hk hle => (h.mem_published k).mpr ⟨hk, hle⟩

/-- The next number is claimed, -/
theorem Contiguous.claim {p : Publication} (h : p.Contiguous)
    (hroom : p.claim.claimed.length + 1 < 2 ^ 64) : p.claim.Contiguous := by
  have hlen : p.claim.claimed.length = p.claimed.length + 1 := rfl
  have hnext : p.claim.nextSequence = p.nextSequence + 1 := by
    have := h.next_eq
    exact Nat.mod_eq_of_lt (by omega)
  refine ⟨?_, ?_, fun k => ?_, h.mem_published⟩
  · rw [hnext, hlen, h.next_eq]
  · rw [hnext]
    exact h.cursor_lt.trans (Nat.lt_succ_self _)
  · rw [hnext]
    show k ∈ p.nextSequence :: p.claimed ↔ _
    rw [List.mem_cons, h.mem_claimed]
    have := h.next_eq
    omega

/-- or the one behind the cursor is published. -/
theorem Contiguous.publish {p : Publication} (h : p.Contiguous)
    (hclaimed : p.cursor + 1 < p.nextSequence) : (p.publish (p.cursor + 1)).Contiguous := by
  refine ⟨h.next_eq, hclaimed, h.mem_claimed, fun k => ?_⟩
  show k ∈ (p.cursor + 1) :: p.published ↔ 1 ≤ k ∧ k ≤ p.cursor + 1
  rw [List.mem_cons, h.mem_published]
  omega

/-- **A store that skips a number is seen by a barrier.** -/
theorem Contiguous.le_of_barrierSafe {p : Publication} {sequence : Nat} (h : p.Contiguous)
    (hclaimed : sequence < p.nextSequence) (hsafe : (p.publish sequence).BarrierSafe) :
    sequence ≤ p.cursor + 1 := by
  by_contra hskip
  have hmem : p.cursor + 1 ∈ p.claimed := (h.mem_claimed _).mpr (by omega)
  have hpub := hsafe .new sequence sequence (SequenceBarrier.tryWaitFor_new sequence)
    (p.cursor + 1) hmem (by omega) (by omega)
  rcases List.mem_cons.mp hpub with heq | hold
  · omega
  · have := (h.mem_published _).mp hold
    omega

end Publication

/-! ## The producers -/

/-- Where a producer is in its calls.  The number it carries is the one it has
claimed. -/
inductive ProducerPc where
  | idle
  | nextFetch
  | tryPending
  | tryBackpressure
  | tryFetch
  | countPending (sequence : Nat)
  | writeSlot (sequence : Nat)
  | storeCursor (sequence : Nat)
  | subPending (sequence : Nat)
  | fixPending (sequence pending : Nat)
  | countPublished (sequence : Nat)
  deriving Repr, DecidableEq

/-- The number a producer has claimed and not yet stored into the cursor. -/
def ProducerPc.held : ProducerPc → Option Nat
  | .countPending sequence => some sequence
  | .writeSlot sequence => some sequence
  | .storeCursor sequence => some sequence
  | _ => none

/-- What an idle producer does next; a producer inside a call can only go on. -/
inductive ProducerChoice where
  | next
  | tryNext
  | goOn
  deriving Repr, DecidableEq

/-- The sequencer the producers share, and the history of the run. -/
structure Shared where
  sequencer : Sequencer
  claimed : List Nat
  published : List Nat
  deriving Repr, DecidableEq

/-- What the shared state says about publication. -/
def Shared.publication (sh : Shared) : Publication :=
  ⟨sh.sequencer.cursor, sh.sequencer.nextSequence, sh.claimed, sh.published⟩

/-- `next_sequence.fetch_add(1)`, recorded. -/
def Shared.fetchNext (sh : Shared) : Shared × ProducerPc :=
  (⟨sh.sequencer.claim 1, sh.sequencer.nextSequence :: sh.claimed, sh.published⟩,
    .countPending sh.sequencer.nextSequence)

/-- **One atomic operation of a producer**: `next(1)` or `try_next(1)`, the write
of the slot, `publish`. -/
def producer {Tid : Type} (_ : Tid) (sh : Shared) :
    ProducerPc → ProducerChoice → Option (Shared × ProducerPc)
  | .idle, .next =>
      if sh.sequencer.isRunning then some (sh, .nextFetch) else some (sh, .idle)
  | .idle, .tryNext =>
      if sh.sequencer.isRunning then some (sh, .tryPending) else some (sh, .idle)
  | .nextFetch, .goOn => some sh.fetchNext
  | .tryPending, .goOn =>
      if sh.sequencer.pendingCount > sh.sequencer.bufferMask then some (sh, .tryBackpressure)
      else some (sh, .tryFetch)
  | .tryBackpressure, .goOn =>
      some ({ sh with sequencer := sh.sequencer.countBackpressure }, .idle)
  | .tryFetch, .goOn => some sh.fetchNext
  | .countPending sequence, .goOn =>
      some ({ sh with sequencer := sh.sequencer.addPending 1 }, .writeSlot sequence)
  -- the slot belongs to the producer alone, and no word of the sequencer changes
  | .writeSlot sequence, .goOn => some (sh, .storeCursor sequence)
  | .storeCursor sequence, .goOn =>
      some (⟨sh.sequencer.storeCursor sequence, sh.claimed, sequence :: sh.published⟩,
        .subPending sequence)
  | .subPending sequence, .goOn =>
      some ({ sh with sequencer := sh.sequencer.subPending },
        .fixPending sequence sh.sequencer.pendingCount)
  | .fixPending sequence pending, .goOn =>
      some ({ sh with sequencer := sh.sequencer.fixPending pending }, .countPublished sequence)
  | .countPublished _, .goOn =>
      some ({ sh with sequencer := sh.sequencer.countPublished }, .idle)
  | _, _ => none

/-- Producers and what they share. -/
abbrev Producers (Tid : Type) := State Tid ProducerPc Shared

/-- A started sequencer of any buffer mask, every producer idle. -/
def Producers.init (Tid : Type) (mask : Nat) : Producers Tid :=
  ⟨⟨(Sequencer.new.setBufferMask mask).start, [], []⟩, fun _ => .idle⟩

/-- What one operation does at the level of publication. -/
inductive Progress (sh : Shared) (p : ProducerPc) (sh' : Shared) (p' : ProducerPc) : Prop where
  /-- neither a claim nor a publication -/
  | silent (core : sh'.publication = sh.publication) (held : p'.held = p.held)
      (pc : ∀ sequence, p ≠ .storeCursor sequence)
  /-- the next number is claimed -/
  | claim (core : sh'.publication = sh.publication.claim) (before : p.held = none)
      (after : p'.held = some sh.publication.nextSequence)
      (pc : ∀ sequence, p ≠ .storeCursor sequence)
  /-- the claimed number is published -/
  | publish (sequence : Nat) (core : sh'.publication = sh.publication.publish sequence)
      (pc : p = .storeCursor sequence) (after : p'.held = none)

/-- **Every atomic operation is a claim, a publication, or silent.** -/
theorem producer_progress {Tid : Type} {t : Tid} {sh sh' : Shared} {p p' : ProducerPc}
    {c : ProducerChoice} (h : producer t sh p c = some (sh', p')) : Progress sh p sh' p' := by
  cases p with
  | idle =>
      cases c with
      | next | tryNext =>
          simp only [producer] at h
          split at h <;> cases h <;> exact .silent rfl rfl nofun
      | goOn => cases h
  | tryPending =>
      cases c with
      | next | tryNext => cases h
      | goOn =>
          simp only [producer] at h
          split at h <;> cases h <;> exact .silent rfl rfl nofun
  | nextFetch | tryFetch =>
      cases c with
      | next | tryNext => cases h
      | goOn => cases h; exact .claim rfl rfl rfl nofun
  | storeCursor sequence =>
      cases c with
      | next | tryNext => cases h
      | goOn => cases h; exact .publish sequence rfl rfl rfl
  | fixPending sequence pending =>
      cases c with
      | next | tryNext => cases h
      | goOn =>
          cases h
          exact .silent (by simp [Shared.publication]) rfl nofun
  | tryBackpressure | countPending _ | writeSlot _ | subPending _ | countPublished _ =>
      cases c with
      | next | tryNext => cases h
      | goOn => cases h; exact .silent rfl rfl nofun

/-! ## Along a run -/

variable {Tid : Type} [DecidableEq Tid]

/-- **The step publishes in order**: a producer about to store its number into
the cursor skips none.  Every other step is in order. -/
def InOrder (s : Producers Tid) (a : Tid × ProducerChoice) (_ : Producers Tid) : Prop :=
  ∀ sequence, s.pc a.1 = .storeCursor sequence → sequence ≤ s.shared.sequencer.cursor + 1

/-- Barriers answer safely in this state. -/
def Producers.Safe (s : Producers Tid) : Prop :=
  s.shared.publication.BarrierSafe

/-- **The invariant of in-order runs**: publication is contiguous, a number a
producer holds has been claimed and not published, and no two producers hold the
same one. -/
structure ProducersInv (s : Producers Tid) : Prop where
  /-- numbers are claimed and published in order -/
  contiguous : s.shared.publication.Contiguous
  /-- who holds a number has yet to publish it -/
  held : ∀ t sequence, (s.pc t).held = some sequence →
    s.shared.publication.cursor < sequence ∧ sequence < s.shared.publication.nextSequence
  /-- and is the only one to hold it -/
  distinct : ∀ t u sequence, (s.pc t).held = some sequence → (s.pc u).held = some sequence → t = u

omit [DecidableEq Tid] in
/-- Nobody holds a number yet. -/
theorem producersInv_init (mask : Nat) : ProducersInv (Producers.init Tid mask) := by
  refine ⟨⟨rfl, Nat.zero_lt_one, fun k => ?_, fun k => ?_⟩, nofun, nofun⟩
  · show k ∈ [] ↔ 1 ≤ k ∧ k < 1
    simp only [List.not_mem_nil, false_iff]
    omega
  · show k ∈ [] ↔ 1 ≤ k ∧ k ≤ 0
    simp only [List.not_mem_nil, false_iff]
    omega

/-- An in-order step keeps all numbers up to the cursor published, whatever the
counters are. -/
theorem covered_step {s s' : Producers Tid} {a : Tid × ProducerChoice}
    (h : s.shared.publication.Covered) (hstep : step producer s a = some s')
    (horder : InOrder s a s') : s'.shared.publication.Covered := by
  obtain ⟨sh, p, hprog, rfl⟩ := step_eq_some.mp hstep
  rcases producer_progress hprog with ⟨core, -, -⟩ | ⟨core, -, -, -⟩ | ⟨sequence, core, hpc, -⟩
  · exact core ▸ h
  · exact core ▸ h.claim
  · exact core ▸ h.publish (horder sequence hpc)

/-- After a move of `t`, what a thread holds is what `t` holds now or what another thread
held before. -/
theorem held_update {pc : Tid → ProducerPc} {t u : Tid} {p : ProducerPc} {q : Nat}
    (h : (Function.update pc t p u).held = some q) :
    (u = t ∧ p.held = some q) ∨ (u ≠ t ∧ (pc u).held = some q) := by
  rcases eq_or_pc_of_update (Eq.refl (Function.update pc t p u)) with ⟨hu, hp⟩ | ⟨hu, hp⟩
  · exact Or.inl ⟨hu, hp ▸ h⟩
  · exact Or.inr ⟨hu, hp ▸ h⟩

/-- No number is held twice after a move if nobody else holds what the thread that moved
holds now. -/
theorem distinct_update {pc : Tid → ProducerPc} {t : Tid} {p : ProducerPc}
    (distinct : ∀ u v q, (pc u).held = some q → (pc v).held = some q → u = v)
    (hnew : ∀ u q, u ≠ t → p.held = some q → (pc u).held ≠ some q) (u v : Tid) (q : Nat)
    (hu : (Function.update pc t p u).held = some q)
    (hv : (Function.update pc t p v).held = some q) : u = v := by
  rcases held_update hu with ⟨rfl, h⟩ | ⟨hut, h⟩ <;>
    rcases held_update hv with ⟨rfl, h'⟩ | ⟨hvt, h'⟩
  · rfl
  · exact absurd h' (hnew v q hvt h)
  · exact absurd h (hnew u q hut h')
  · exact distinct u v q h h'

/-- An in-order step that leaves the counter short of its wrap keeps the
invariant. -/
theorem producersInv_step {s s' : Producers Tid} {a : Tid × ProducerChoice}
    (inv : ProducersInv s) (hstep : step producer s a = some s')
    (hroom : s'.shared.claimed.length + 1 < 2 ^ 64) (horder : InOrder s a s') :
    ProducersInv s' := by
  obtain ⟨sh, p, hprog, rfl⟩ := step_eq_some.mp hstep
  rcases producer_progress hprog with ⟨core, held, -⟩ | ⟨core, before, after, -⟩ |
      ⟨sequence, core, hpc, after⟩
  · -- nothing is claimed or published, and the thread holds what it held
    refine ⟨core ▸ inv.contiguous, fun u q hq => ?_, distinct_update inv.distinct ?_⟩
    · rw [core]
      rcases held_update hq with ⟨-, h⟩ | ⟨-, h⟩
      · exact inv.held a.1 q (held ▸ h)
      · exact inv.held u q h
    · exact fun u q hne hq hu => hne (inv.distinct u a.1 q hu (held ▸ hq))
  · -- the next number is claimed, which is beyond all that are held
    have hnext := inv.contiguous.next_eq
    have hcontiguous : sh.publication.Contiguous := by
      rw [core]
      refine inv.contiguous.claim ?_
      rw [← core]
      exact hroom
    have hnext' : sh.publication.nextSequence = s.shared.publication.nextSequence + 1 := by
      rw [hcontiguous.next_eq, hnext, core]
      rfl
    have hcursor : sh.publication.cursor = s.shared.publication.cursor := by rw [core]; rfl
    have hlt := inv.contiguous.cursor_lt
    refine ⟨hcontiguous, fun u q hq => ?_, distinct_update inv.distinct fun u q _ hq hu => ?_⟩
    · show sh.publication.cursor < q ∧ q < sh.publication.nextSequence
      rw [hcursor, hnext']
      rcases held_update hq with ⟨-, h⟩ | ⟨-, h⟩
      · have := Option.some.inj (after.symm.trans h)
        omega
      · have := inv.held u q h
        omega
    · have := Option.some.inj (after.symm.trans hq)
      have := inv.held u q hu
      omega
  · -- the number after the cursor is published, and held by nobody any more
    have hsome : (s.pc a.1).held = some sequence := by rw [hpc]; rfl
    have hbounds := inv.held a.1 sequence hsome
    have hseq : sequence = s.shared.publication.cursor + 1 := by
      have := horder sequence hpc
      change sequence ≤ s.shared.publication.cursor + 1 at this
      omega
    refine ⟨?_, fun u q hq => ?_, distinct_update inv.distinct fun u q _ hq => ?_⟩
    · rw [core, hseq]
      exact inv.contiguous.publish (hseq ▸ hbounds.2)
    · rcases held_update hq with ⟨-, h⟩ | ⟨hne, h⟩
      · rw [after] at h
        cases h
      · have hq' := inv.held u q h
        have hdiff : q ≠ sequence := fun heq => hne (inv.distinct u a.1 q h (heq ▸ hsome))
        rw [core]
        show sequence < q ∧ q < s.shared.publication.nextSequence
        omega
    · rw [after] at hq
      cases hq

/-- A safe step publishes in order. -/
theorem inOrder_of_safe {s s' : Producers Tid} {a : Tid × ProducerChoice}
    (inv : ProducersInv s) (hstep : step producer s a = some s') (hsafe : s'.Safe) :
    InOrder s a s' := by
  intro sequence hpc
  obtain ⟨sh, p, hprog, rfl⟩ := step_eq_some.mp hstep
  rcases producer_progress hprog with ⟨-, -, hne⟩ | ⟨-, -, -, hne⟩ | ⟨sequence', core, hpc', -⟩
  · exact absurd hpc (hne sequence)
  · exact absurd hpc (hne sequence)
  · have heq : sequence = sequence' := ProducerPc.storeCursor.inj (hpc.symm.trans hpc')
    subst heq
    have hsome : (s.pc a.1).held = some sequence := by
      rw [hpc]
      rfl
    have hsafe' : (s.shared.publication.publish sequence).BarrierSafe := core ▸ hsafe
    exact inv.contiguous.le_of_barrierSafe (inv.held a.1 sequence hsome).2 hsafe'

/-- **Publication safety.**  Whatever the number of producers and the
interleaving, barriers answer safely throughout every run that publishes in
order; and as long as the counter has not wrapped, only throughout such runs. -/
theorem barrierSafe_iff_inOrder (mask : Nat) (run : List (Tid × ProducerChoice)) :
    (AllSteps (step producer) InOrder (Producers.init Tid mask) run →
        AllStates (step producer) Producers.Safe (Producers.init Tid mask) run) ∧
      (AllStates (step producer) (fun s => s.shared.claimed.length + 1 < 2 ^ 64)
          (Producers.init Tid mask) run →
        (AllSteps (step producer) InOrder (Producers.init Tid mask) run ↔
          AllStates (step producer) Producers.Safe (Producers.init Tid mask) run)) := by
  have start : ProducersInv (Producers.init Tid mask) := producersInv_init mask
  constructor
  · intro horder
    exact AllStates.of_invariant
      (fun (s : Producers Tid) (h : s.shared.publication.Covered) => h.barrierSafe)
      (fun _ _ _ h hstep guard => covered_step h hstep guard) start.contiguous.covered horder
  · rintro ⟨-, hroom⟩
    exact allSteps_iff_allStates_of_valid
      (fun s (inv : ProducersInv s) => inv.contiguous.covered.barrierSafe)
      (fun s a s' inv hstep room guard => producersInv_step inv hstep room guard)
      (fun s a s' inv hstep _ safe => inOrder_of_safe inv hstep safe) start hroom

/-- The number a producer is about to store into the cursor. -/
def ProducerPc.storing : ProducerPc → Option Nat
  | .storeCursor sequence => some sequence
  | _ => none

/-- Only a producer at the store is about to store. -/
theorem ProducerPc.storing_eq_some {p : ProducerPc} {sequence : Nat} :
    p.storing = some sequence ↔ p = .storeCursor sequence := by
  cases p <;> simp [storing]

instance (s : Producers Tid) (a : Tid × ProducerChoice) (s' : Producers Tid) :
    Decidable (InOrder s a s') :=
  decidable_of_iff
    (∀ sequence ∈ (s.pc a.1).storing, sequence ≤ s.shared.sequencer.cursor + 1)
    (by simp only [InOrder, Option.mem_def, ProducerPc.storing_eq_some])

/-- Two producers claim 1 and 2 before either publishes, and publish in turn. -/
def inTurn : List (Bool × ProducerChoice) :=
  [(false, .next), (false, .goOn), (true, .next), (true, .goOn), (true, .goOn), (false, .goOn),
    (false, .goOn), (true, .goOn), (false, .goOn), (true, .goOn)]

/-- There are two claims at once in that run, and every step is in order. -/
theorem barrierSafe_iff_inOrder_inTurn :
    ((Transition.run (step producer) (Producers.init Bool 1023) inTurn).map
        fun s => s.shared.published) = some [2, 1] ∧
      AllSteps (step producer) InOrder (Producers.init Bool 1023) inTurn ∧
      AllStates (step producer) Producers.Safe (Producers.init Bool 1023) inTurn := by
  have horder : AllSteps (step producer) InOrder (Producers.init Bool 1023) inTurn := by decide
  exact ⟨by decide, horder, (barrierSafe_iff_inOrder 1023 inTurn).1 horder⟩

/-- **Two producers suffice to break it**: they claim 1 and 2, the second
publishes first, and a barrier then answers 2 while 1 is unpublished. -/
theorem not_forall_barrierSafe :
    ¬ ∀ run : List (Bool × ProducerChoice),
      AllStates (step producer) Producers.Safe (Producers.init Bool 1023) run := by
  intro h
  let run : List (Bool × ProducerChoice) :=
    [(false, .next), (false, .goOn), (true, .next), (true, .goOn), (true, .goOn), (true, .goOn),
      (true, .goOn)]
  obtain ⟨-, -, -, -, -, -, -, hsafe, -⟩ := h run
  exact absurd (hsafe .new 2 2 rfl 1 (by decide) (by decide) (by decide)) (by decide)

end StopTrading.Disruptor
