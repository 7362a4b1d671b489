import StopTrading.Disruptor.Sequencer
import StopTrading.Library.Transition
import Mathlib.Data.List.Nodup
import Mathlib.Data.List.Range

/-!
# What the sequencer counts

A single producer claims batches (`next`, `try_next`) and publishes their numbers, each once.
`ClaimRun` keeps the numbers that were claimed and those that were published next to the
sequencer; a call is possible if its batch is not empty, and its number is outstanding.

The counters are right (`Accounted`) as long as the sequence numbers do not run out
(`Inv.claim`).  But `try_next` compares what is pending before the batch, whatever its size:
an answer leaves room in the buffer just if the batch fits as well (`fits_iff_accounted`).

### What is load-bearing

A claim and what is counted for it are exact as long as the claimed numbers are a range
(`batchNumbers_eq`), which they are until the counter wraps; from there on a batch contains the
number zero, and `numbersLast_of_accounted` says that the counters are wrong from that batch on.
So "the numbers last" is no assumption of convenience but half of the condition.

The other half is the test of `try_next`.  It refuses when as much is pending as the buffer has
slots, which says that there is room for *something*.  What the batch needs is room for all of
it, and the two differ by the size of the batch.
-/

namespace StopTrading.Disruptor

open Transition

/-- A call of the producer. -/
inductive SequencerCall where
  | start
  | stop
  | next (batchSize : Nat)
  | tryNext (batchSize : Nat)
  | publish (sequence : Nat)
  deriving Repr, DecidableEq

/-- The numbers of a batch. -/
def batchNumbers (sequence batchSize : Nat) : List Nat :=
  (List.range batchSize).map fun i => (sequence + i) % 2 ^ 64

/-- A sequencer, the numbers that were claimed and those that were published. -/
structure ClaimRun where
  sequencer : Sequencer
  claimed : List Nat
  published : List Nat
  deriving Repr, DecidableEq

namespace ClaimRun

/-- A new sequencer for a buffer. -/
def init (bufferMask : Nat) : ClaimRun := ⟨Sequencer.new.setBufferMask bufferMask, [], []⟩

/-- The numbers that were claimed and not published. -/
def outstanding (r : ClaimRun) : List Nat := r.claimed.filter fun s => s ∉ r.published

/-- What a claim leaves behind. -/
def after (r : ClaimRun) (batchSize : Nat) (outcome : Option Nat × Sequencer) : ClaimRun :=
  { r with
    sequencer := outcome.2
    claimed := r.claimed ++ outcome.1.elim [] fun sequence => batchNumbers sequence batchSize }

/-- One call. -/
def step (r : ClaimRun) : SequencerCall → Option ClaimRun
  | .start => some { r with sequencer := r.sequencer.start }
  | .stop => some { r with sequencer := r.sequencer.stop }
  | .next batchSize =>
      if 1 ≤ batchSize ∧ batchSize < 2 ^ 64 then
        some (r.after batchSize (r.sequencer.next batchSize))
      else none
  | .tryNext batchSize =>
      if 1 ≤ batchSize ∧ batchSize < 2 ^ 64 then
        some (r.after batchSize (r.sequencer.tryNext batchSize))
      else none
  | .publish sequence =>
      if sequence ∈ r.outstanding then
        some
          { r with
            sequencer := r.sequencer.publish sequence
            published := r.published ++ [sequence] }
      else none

/-! ## What the counters are for -/

/-- **The counters are right**: what is pending are the outstanding numbers, what is
published is counted, and the batches are the numbers from one on, one behind the other. -/
structure Accounted (r : ClaimRun) : Prop where
  /-- what is pending was claimed and not published -/
  pending : r.sequencer.pendingCount = r.outstanding.length
  /-- what was published is counted -/
  total : r.sequencer.totalPublished = r.published.length
  /-- and no number was left out -/
  contiguous : r.claimed = List.range' 1 r.claimed.length

/-- **A batch from `try_next` has room**: no more numbers are outstanding than the buffer has
slots. -/
def HasRoom (r : ClaimRun) (c : SequencerCall) (r' : ClaimRun) : Prop :=
  ∀ batchSize, c = .tryNext batchSize → (r.sequencer.tryNext batchSize).1 ≠ none →
    r'.outstanding.length ≤ r.sequencer.bufferMask + 1

/-- The sequence numbers do not run out. -/
def NumbersLast (r : ClaimRun) (batchSize : Nat) : Prop :=
  0 < r.sequencer.nextSequence ∧ r.sequencer.nextSequence + batchSize ≤ 2 ^ 64

/-- **A batch fits**: there are sequence numbers left for it, and if it is asked for by
`try_next` while nothing but it could fill the buffer, it does not. -/
def Fits (r : ClaimRun) (c : SequencerCall) (_ : ClaimRun) : Prop :=
  r.sequencer.isRunning = true →
    (∀ batchSize, c = .next batchSize → r.NumbersLast batchSize) ∧
      ∀ batchSize, c = .tryNext batchSize →
        r.sequencer.pendingCount ≤ r.sequencer.bufferMask →
          r.NumbersLast batchSize ∧
            r.sequencer.pendingCount + batchSize ≤ r.sequencer.bufferMask + 1

/-- What a run keeps as long as its batches fit. -/
structure Inv (r : ClaimRun) : Prop extends Accounted r where
  next : r.sequencer.nextSequence = (r.claimed.length + 1) % 2 ^ 64
  length_lt : r.claimed.length < 2 ^ 64
  known : ∀ s ∈ r.published, s ∈ r.claimed
  counted : r.published.length + r.outstanding.length = r.claimed.length

/-- Nothing is claimed and nothing published. -/
theorem inv_init (bufferMask : Nat) : (init bufferMask).Inv :=
  ⟨⟨rfl, rfl, rfl⟩, rfl, Nat.two_pow_pos 64, fun _ h => absurd h List.not_mem_nil, rfl⟩

/-! ## Batches -/

/-- Where the numbers last, a batch is a range. -/
theorem batchNumbers_eq {sequence batchSize : Nat} (h : sequence + batchSize ≤ 2 ^ 64) :
    batchNumbers sequence batchSize = List.range' sequence batchSize := by
  rw [batchNumbers, List.range'_eq_map_range]
  refine List.map_congr_left fun i hi => Nat.mod_eq_of_lt ?_
  have := List.mem_range.mp hi
  omega

/-- Where they do not, it has the number zero. -/
theorem zero_mem_batchNumbers {sequence batchSize : Nat} (hsequence : sequence < 2 ^ 64)
    (hbatch : 1 ≤ batchSize) (h : ¬ (0 < sequence ∧ sequence + batchSize ≤ 2 ^ 64)) :
    0 ∈ batchNumbers sequence batchSize := by
  rcases Nat.eq_zero_or_pos sequence with rfl | hpos
  · exact List.mem_map.mpr ⟨0, List.mem_range.mpr hbatch, rfl⟩
  · refine List.mem_map.mpr ⟨2 ^ 64 - sequence, List.mem_range.mpr (by omega), ?_⟩
    rw [Nat.add_sub_cancel' hsequence.le, Nat.mod_self]

namespace Inv

variable {r : ClaimRun} {batchSize : Nat}

/-- The run behind a batch that was claimed. -/
def claimRun (r : ClaimRun) (batchSize : Nat) : ClaimRun :=
  r.after batchSize
    (some r.sequencer.nextSequence, (r.sequencer.claim batchSize).addPending batchSize)

/-- The next number is the one behind those that were claimed. -/
theorem nextSequence_eq (inv : r.Inv) (h : r.NumbersLast batchSize) :
    r.sequencer.nextSequence = 1 + r.claimed.length := by
  have hnext := inv.next
  have hlt := inv.length_lt
  obtain ⟨hpos, -⟩ := h
  omega

/-- **A batch for which the numbers last** is accounted for. -/
theorem claim (inv : r.Inv) (hbatch : 1 ≤ batchSize) (h : r.NumbersLast batchSize) :
    (claimRun r batchSize).Inv ∧
      (claimRun r batchSize).outstanding.length = r.sequencer.pendingCount + batchSize := by
  have hnext := inv.nextSequence_eq h
  have hlast : r.sequencer.nextSequence + batchSize ≤ 2 ^ 64 := h.2
  have hclaimed : (claimRun r batchSize).claimed =
      r.claimed ++ List.range' (1 + r.claimed.length) batchSize := by
    rw [← hnext, ← batchNumbers_eq hlast]
    rfl
  have hlength : (claimRun r batchSize).claimed.length = r.claimed.length + batchSize := by
    rw [hclaimed, List.length_append, List.length_range']
  have hfresh : ∀ s ∈ List.range' (1 + r.claimed.length) batchSize, s ∉ r.published := by
    intro s hs hpublished
    have hold := inv.known s hpublished
    rw [inv.contiguous, List.mem_range'_1] at hold
    rw [List.mem_range'_1] at hs
    omega
  have houtstanding : (claimRun r batchSize).outstanding =
      r.outstanding ++ List.range' (1 + r.claimed.length) batchSize := by
    rw [outstanding, hclaimed, List.filter_append]
    congr 1
    exact List.filter_eq_self.mpr fun s hs => decide_eq_true (hfresh s hs)
  have hcount : (claimRun r batchSize).outstanding.length =
      r.sequencer.pendingCount + batchSize := by
    rw [houtstanding, List.length_append, List.length_range', inv.pending]
  have hcounted := inv.counted
  have hpending := inv.pending
  refine ⟨⟨⟨?_, inv.total, ?_⟩, ?_, by omega, fun s hs => ?_, ?_⟩, hcount⟩
  · rw [hcount]
    show (r.sequencer.pendingCount + batchSize) % 2 ^ 64 = _
    exact Nat.mod_eq_of_lt (by omega)
  · rw [hlength, hclaimed, ← List.range'_append_1, ← inv.contiguous]
  · rw [hlength]
    show (r.sequencer.nextSequence + batchSize) % 2 ^ 64 = _
    rw [hnext]
    congr 1
    omega
  · rw [hclaimed]
    exact List.mem_append_left _ (inv.known s hs)
  · rw [hlength, hcount]
    show r.published.length + _ = _
    omega

/-- **Behind a batch for which they do not last** the numbers are wrong. -/
theorem numbersLast_of_accounted (inv : r.Inv) (hbatch : 1 ≤ batchSize)
    (h : (claimRun r batchSize).Accounted) : r.NumbersLast batchSize := by
  by_contra hnot
  have hlt : r.sequencer.nextSequence < 2 ^ 64 := by
    rw [inv.next]
    exact Nat.mod_lt _ (by decide)
  have hzero : 0 ∈ (claimRun r batchSize).claimed :=
    List.mem_append_right _ (zero_mem_batchNumbers hlt hbatch hnot)
  rw [h.contiguous, List.mem_range'_1] at hzero
  omega

/-- **A publication** takes its number from those that are outstanding. -/
theorem publish (inv : r.Inv) {sequence : Nat} (h : sequence ∈ r.outstanding) :
    (ClaimRun.mk (r.sequencer.publish sequence) r.claimed (r.published ++ [sequence])).Inv := by
  have hnodup : r.outstanding.Nodup := by
    rw [outstanding, inv.contiguous]
    exact (List.nodup_range' 1 Nat.one_pos).filter _
  have houtstanding : (r.claimed.filter fun s => s ∉ r.published ++ [sequence]) =
      r.outstanding.erase sequence := by
    rw [hnodup.erase_eq_filter, outstanding, List.filter_filter]
    refine List.filter_congr fun s _ => Bool.eq_iff_iff.mpr ?_
    simp [and_comm]
  have hlength : (r.claimed.filter fun s => s ∉ r.published ++ [sequence]).length =
      r.outstanding.length - 1 := by
    rw [houtstanding, List.length_erase_of_mem h]
  have hpos : 0 < r.outstanding.length := List.length_pos_of_mem h
  have hpending := inv.pending
  have hcounted := inv.counted
  have hlt := inv.length_lt
  refine ⟨⟨?_, ?_, inv.contiguous⟩, ?_, hlt, fun s hs => ?_, ?_⟩
  · rw [Sequencer.publish_eq, outstanding]
    dsimp only
    rw [hlength, if_pos (by omega), hpending]
  · rw [Sequencer.publish_eq, List.length_append, List.length_singleton, inv.total]
    exact Nat.mod_eq_of_lt (by omega)
  · rw [Sequencer.publish_eq]
    exact inv.next
  · rcases List.mem_append.mp hs with hold | hnew
    · exact inv.known s hold
    · rw [List.mem_singleton.mp hnew]
      exact (List.mem_filter.mp h).1
  · rw [outstanding]
    dsimp only
    rw [hlength, List.length_append, List.length_singleton]
    omega

end Inv

/-! ## Calls -/

/-- **A call is good**: the counters are right afterwards, and a batch from `try_next` has
room. -/
def Good (r : ClaimRun) (c : SequencerCall) (r' : ClaimRun) : Prop :=
  r'.Accounted ∧ r.HasRoom c r'

section Calls

variable {r r' : ClaimRun} {c : SequencerCall} {batchSize : Nat}

/-- What `next` leaves behind. -/
theorem after_next (r : ClaimRun) (batchSize : Nat) :
    r.after batchSize (r.sequencer.next batchSize) =
      if r.sequencer.isRunning = true then Inv.claimRun r batchSize else r := by
  unfold Sequencer.next
  split_ifs
  · rfl
  · rw [after, Option.elim_none, List.append_nil]

/-- What `try_next` answers and leaves behind. -/
theorem tryNext_cases (r : ClaimRun) (batchSize : Nat) :
    (r.sequencer.isRunning = true ∧ r.sequencer.pendingCount ≤ r.sequencer.bufferMask ∧
      (r.sequencer.tryNext batchSize).1 ≠ none ∧
      r.after batchSize (r.sequencer.tryNext batchSize) = Inv.claimRun r batchSize) ∨
    (¬ (r.sequencer.isRunning = true ∧ r.sequencer.pendingCount ≤ r.sequencer.bufferMask) ∧
      (r.sequencer.tryNext batchSize).1 = none ∧
      (r.after batchSize (r.sequencer.tryNext batchSize) = r ∨
        r.after batchSize (r.sequencer.tryNext batchSize) =
          { r with sequencer := r.sequencer.countBackpressure })) := by
  unfold Sequencer.tryNext
  split_ifs with hrunning hfull
  · refine .inr ⟨fun h => absurd h.2 (not_le.mpr hfull), rfl, .inr ?_⟩
    rw [after, Option.elim_none, List.append_nil]
  · exact .inl ⟨hrunning, not_lt.mp hfull, nofun, rfl⟩
  · refine .inr ⟨fun h => hrunning h.1, rfl, .inl ?_⟩
    rw [after, Option.elim_none, List.append_nil]

/-- A call that moves none of the three counters keeps the invariant. -/
theorem Inv.stay (inv : r.Inv) {sequencer : Sequencer}
    (hnext : sequencer.nextSequence = r.sequencer.nextSequence)
    (hpending : sequencer.pendingCount = r.sequencer.pendingCount)
    (htotal : sequencer.totalPublished = r.sequencer.totalPublished) :
    (ClaimRun.mk sequencer r.claimed r.published).Inv :=
  ⟨⟨hpending.trans inv.pending, htotal.trans inv.total, inv.contiguous⟩,
    hnext.trans inv.next, inv.length_lt, inv.known, inv.counted⟩

/-- A call of `next`. -/
theorem Inv.next_iff (inv : r.Inv) (hbatch : 1 ≤ batchSize)
    (hrunning : r.sequencer.isRunning = true) :
    (r.Fits (.next batchSize) (claimRun r batchSize) → (claimRun r batchSize).Inv) ∧
      (r.Fits (.next batchSize) (claimRun r batchSize) ↔
        r.Good (.next batchSize) (claimRun r batchSize)) := by
  have hfits : r.Fits (.next batchSize) (claimRun r batchSize) ↔ r.NumbersLast batchSize := by
    constructor
    · exact fun h => (h hrunning).1 batchSize rfl
    · rintro h -
      exact ⟨fun _ hc => SequencerCall.next.inj hc ▸ h, nofun⟩
  rw [hfits]
  refine ⟨fun h => (inv.claim hbatch h).1, fun h => ?_, fun h => ?_⟩
  · exact ⟨(inv.claim hbatch h).1.toAccounted, nofun⟩
  · exact inv.numbersLast_of_accounted hbatch h.1

/-- A call of `try_next` that is answered with a batch. -/
theorem Inv.tryNext_iff (inv : r.Inv) (hbatch : 1 ≤ batchSize)
    (hrunning : r.sequencer.isRunning = true)
    (hpending : r.sequencer.pendingCount ≤ r.sequencer.bufferMask)
    (hok : (r.sequencer.tryNext batchSize).1 ≠ none) :
    (r.Fits (.tryNext batchSize) (claimRun r batchSize) → (claimRun r batchSize).Inv) ∧
      (r.Fits (.tryNext batchSize) (claimRun r batchSize) ↔
        r.Good (.tryNext batchSize) (claimRun r batchSize)) := by
  have hfits : r.Fits (.tryNext batchSize) (claimRun r batchSize) ↔
      r.NumbersLast batchSize ∧
        r.sequencer.pendingCount + batchSize ≤ r.sequencer.bufferMask + 1 := by
    constructor
    · exact fun h => (h hrunning).2 batchSize rfl hpending
    · rintro h -
      exact ⟨nofun, fun _ hc _ => SequencerCall.tryNext.inj hc ▸ h⟩
  rw [hfits]
  refine ⟨fun h => (inv.claim hbatch h.1).1, fun h => ?_, fun h => ?_⟩
  · obtain ⟨inv', hcount⟩ := inv.claim hbatch h.1
    refine ⟨inv'.toAccounted, fun _ hc _ => ?_⟩
    rw [hcount]
    exact h.2
  · have hlast := inv.numbersLast_of_accounted hbatch h.1
    obtain ⟨-, hcount⟩ := inv.claim hbatch hlast
    rw [← hcount]
    exact ⟨hlast, h.2 batchSize rfl hok⟩

/-- **One call**: it is good exactly if its batch fits, and then it keeps the invariant. -/
theorem Inv.step (inv : r.Inv) (hstep : r.step c = some r') :
    (r.Fits c r' → r'.Inv) ∧ (r.Fits c r' ↔ r.Good c r') := by
  have hquiet : ∀ {r'' : ClaimRun}, r''.Inv → r.Fits c r'' → r.HasRoom c r'' →
      (r.Fits c r'' → r''.Inv) ∧ (r.Fits c r'' ↔ r.Good c r'') := fun inv'' hfits hroom =>
    ⟨fun _ => inv'', iff_of_true hfits ⟨inv''.toAccounted, hroom⟩⟩
  cases c with
  | start =>
      cases hstep
      exact hquiet (inv.stay rfl rfl rfl) (fun _ => ⟨nofun, nofun⟩) nofun
  | stop =>
      cases hstep
      exact hquiet (inv.stay rfl rfl rfl) (fun _ => ⟨nofun, nofun⟩) nofun
  | publish sequence =>
      obtain ⟨hmem, hr'⟩ := Option.ite_none_right_eq_some.mp hstep
      cases hr'
      exact hquiet (inv.publish hmem) (fun _ => ⟨nofun, nofun⟩) nofun
  | next batchSize =>
      obtain ⟨⟨hbatch, -⟩, hr'⟩ := Option.ite_none_right_eq_some.mp hstep
      cases hr'
      rw [after_next]
      split_ifs with hrunning
      · exact inv.next_iff hbatch hrunning
      · exact hquiet inv (fun h => absurd h hrunning) nofun
  | tryNext batchSize =>
      obtain ⟨⟨hbatch, -⟩, hr'⟩ := Option.ite_none_right_eq_some.mp hstep
      cases hr'
      obtain ⟨hrunning, hpending, hok, heq⟩ | ⟨hnot, hnone, heq⟩ := r.tryNext_cases batchSize
      · rw [heq]
        exact inv.tryNext_iff hbatch hrunning hpending hok
      · -- the call is refused
        have inv' : (r.after batchSize (r.sequencer.tryNext batchSize)).Inv := by
          rcases heq with heq | heq
          · rwa [heq]
          · rw [heq]
            exact inv.stay rfl rfl rfl
        refine hquiet inv' (fun hrunning => ⟨nofun, fun _ _ hpending => ?_⟩) fun _ hc hok => ?_
        · exact absurd ⟨hrunning, hpending⟩ hnot
        · cases hc
          exact absurd hnone hok

/-- **What is counted is right**, and every batch from `try_next` has room, exactly in the
runs in which every batch fits. -/
theorem fits_iff_accounted (bufferMask : Nat) (calls : List SequencerCall) :
    AllSteps step Fits (init bufferMask) calls ↔
      AllStates step Accounted (init bufferMask) calls ∧
        AllSteps step HasRoom (init bufferMask) calls := by
  have hgood : AllSteps step Fits (init bufferMask) calls ↔
      AllSteps step Good (init bufferMask) calls :=
    allSteps_iff_of_invariant
      (fun _ _ _ (inv : Inv _) hstep (_ : True) hfits =>
        ⟨(inv.step hstep).1 hfits, (inv.step hstep).2.mp hfits⟩)
      (fun _ _ _ (inv : Inv _) hstep _ hgood => (inv.step hstep).2.mpr hgood) calls _
      (inv_init bufferMask) (allSteps_of_forall (fun _ _ _ _ => trivial) calls _)
  rw [hgood, AllStates, and_iff_right (inv_init bufferMask).toAccounted]
  exact allSteps_and

/-- **A batch of three from `try_next`** on a buffer for two. -/
theorem not_forall_claimsAccounted :
    ¬ ∀ (bufferMask : Nat) (calls : List SequencerCall),
      AllStates step Accounted (init bufferMask) calls ∧
        AllSteps step HasRoom (init bufferMask) calls := by
  intro h
  obtain ⟨-, hroom, -⟩ := (h 1 [.start, .tryNext 3]).2
  exact absurd (hroom 3 rfl (by decide)) (by decide)

end Calls

end ClaimRun

end StopTrading.Disruptor
