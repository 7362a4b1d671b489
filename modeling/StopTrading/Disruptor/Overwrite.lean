import StopTrading.Disruptor.Ring
import StopTrading.Library.Transition

/-!
# When publishing overwrites an unread event

A `World` is a disruptor with the list of the sequence numbers it has published;
`step` performs one call.  The consumers' positions enter through
`update_gate_sequence`, which may be called with any positions at any time.

`KeepsUnread` is the promise of a ring: a publication that is accepted does not
write the slot of a number beyond the gate that is published already.  Nothing
in the calls enforces it.  The invariant `Inv` finds out what is left:

* a number is handed out by adding one to the last, so the next number is one
  past the cursor and everything up to the cursor is published;
* the pending count is zero between calls, so `try_publish` accepts whenever the
  disruptor runs, as `publish` does.

So the promise is kept by exactly the runs in which every publication is made
while there is `room` (`keepsUnread_iff_room`).  The counters wrap after
`2 ^ 64` publications; only the direction from the promise to the room uses that
they have not.

### What is load-bearing

A turn of the ring is the whole argument.  Two numbers share a slot exactly if they differ by a
multiple of the size, and all numbers up to the cursor are published; so the slot of the next
number holds an unread event exactly if the number one turn before it is beyond the gate.
`HasRoom` says that it is not, in terms of the state before the call.

`publish` and `try_publish` do the same in every state that calls can reach (`Inv.publishing`).
The test of the latter is about a count of pending publications that is zero between any two
calls.
-/

namespace StopTrading.Disruptor

open Transition

/-- A call to the disruptor or, for the last one, to its ring. -/
inductive Call (E : Type) where
  | start
  | stop
  | publish (f : E → E)
  | tryPublish (f : E → E)
  | updateGateSequence (consumers : List Nat)

/-- The call publishes an event, if it is accepted. -/
def Call.publishes {E : Type} : Call E → Bool
  | .publish _ => true
  | .tryPublish _ => true
  | _ => false

/-- A disruptor and the numbers it has published. -/
structure World (E : Type) where
  disruptor : Disruptor E
  published : List Nat

namespace World

variable {E : Type}

/-- The answer of a publishing call is recorded. -/
def record (w : World E) (outcome : Option Nat × Disruptor E) : World E :=
  ⟨outcome.2, outcome.1.toList ++ w.published⟩

/-- One call; `none` when it does not return. -/
def step (w : World E) : Call E → Option (World E)
  | .start => some { w with disruptor := w.disruptor.start }
  | .stop => w.disruptor.stop.map fun d => { w with disruptor := d }
  | .publish f => some (w.record (w.disruptor.publish f))
  | .tryPublish f => some (w.record (w.disruptor.tryPublish f))
  | .updateGateSequence consumers =>
      some
        { w with
          disruptor :=
            { w.disruptor with
              ringBuffer := w.disruptor.ringBuffer.updateGateSequence consumers } }

/-- The sequence number a call answers `Ok` with. -/
def answer (w : World E) : Call E → Option Nat
  | .publish f => (w.disruptor.publish f).1
  | .tryPublish f => (w.disruptor.tryPublish f).1
  | _ => none

/-- **No unread event is overwritten**: the slot of the number answered is not the
slot of a published number beyond the gate. -/
def KeepsUnread (w : World E) (call : Call E) (_ : World E) : Prop :=
  ∀ seq, w.answer call = some seq → ∀ q ∈ w.published,
    w.disruptor.ringBuffer.gateSequence < q → q < seq →
      w.disruptor.ringBuffer.index q ≠ w.disruptor.ringBuffer.index seq

/-- The number answered is at most a turn of the ring past the gate. -/
def WithinTurn (w : World E) (call : Call E) (_ : World E) : Prop :=
  ∀ seq, w.answer call = some seq →
    seq ≤ w.disruptor.ringBuffer.gateSequence + w.disruptor.ringBuffer.size

/-- **There is room** whenever a running disruptor is asked to publish. -/
def HasRoom (w : World E) (call : Call E) (_ : World E) : Prop :=
  call.publishes = true → w.disruptor.isRunning = true → 0 < w.disruptor.room

/-! ## The invariant -/

/-- **What the calls keep.** -/
structure Inv (w : World E) : Prop where
  /-- the sequencer runs with the disruptor -/
  running : w.disruptor.sequencer.isRunning = w.disruptor.isRunning
  /-- nothing is pending between calls -/
  pending : w.disruptor.sequencer.pendingCount = 0
  /-- the next number is behind the cursor -/
  next_eq : w.disruptor.sequencer.nextSequence = (w.disruptor.sequencer.cursor + 1) % 2 ^ 64
  /-- and all up to the cursor are published -/
  published : ∀ q, 1 ≤ q → q ≤ w.disruptor.sequencer.cursor → q ∈ w.published

/-- Publishing a number just claimed leaves the pending count at zero. -/
theorem pendingCount_publish {s : Sequencer} (h : s.pendingCount = 0) (seq : Nat) :
    (((s.claim 1).addPending 1).publish seq).pendingCount = 0 := by
  have hone : ((s.claim 1).addPending 1).pendingCount = 1 := by
    show (s.pendingCount + 1) % 2 ^ 64 = 1
    rw [h]
    rfl
  rw [Sequencer.publish_eq, hone]
  rfl

/-- **Both publishing calls do the same** in a state the calls can reach: a
running disruptor answers with the next number and commits it, one that does not
run changes nothing. -/
theorem Inv.publishing {w : World E} (inv : w.Inv) {call : Call E}
    (hcall : call.publishes = true) :
    (w.disruptor.isRunning = false ∧ w.answer call = none ∧ w.step call = some w) ∨
      (w.disruptor.isRunning = true ∧
        w.answer call = some w.disruptor.sequencer.nextSequence ∧
        ∃ f, w.step call =
          some ⟨w.disruptor.commit ((w.disruptor.sequencer.claim 1).addPending 1)
              w.disruptor.sequencer.nextSequence f,
            w.disruptor.sequencer.nextSequence :: w.published⟩) := by
  have hpending : ¬ w.disruptor.sequencer.pendingCount > w.disruptor.sequencer.bufferMask := by
    rw [inv.pending]
    exact Nat.not_lt_zero _
  cases hrun : w.disruptor.isRunning with
  | false =>
      left
      cases call with
      | start | stop | updateGateSequence => cases hcall
      | publish f | tryPublish f =>
          simp [answer, step, record, publish, tryPublish, hrun]
  | true =>
      right
      have hseq : w.disruptor.sequencer.isRunning = true := inv.running.trans hrun
      cases call with
      | start | stop | updateGateSequence => cases hcall
      | publish f =>
          refine ⟨rfl, ?_, f, ?_⟩ <;>
            simp [answer, step, record, publish, Sequencer.next, hrun, hseq]
      | tryPublish f =>
          refine ⟨rfl, ?_, f, ?_⟩ <;>
            simp [answer, step, record, tryPublish, Sequencer.tryNext, hrun, hseq, hpending]

/-- The invariant after a publication. -/
theorem Inv.commit {w : World E} (inv : w.Inv) (f : E → E) :
    Inv ⟨w.disruptor.commit ((w.disruptor.sequencer.claim 1).addPending 1)
        w.disruptor.sequencer.nextSequence f,
      w.disruptor.sequencer.nextSequence :: w.published⟩ := by
  have hnext := inv.next_eq
  refine ⟨?_, pendingCount_publish inv.pending _, ?_, fun q hq hle => ?_⟩
  · show (Sequencer.publish _ _).isRunning = w.disruptor.isRunning
    rw [Sequencer.publish_eq]
    exact inv.running
  · show (Sequencer.publish _ _).nextSequence = ((Sequencer.publish _ _).cursor + 1) % 2 ^ 64
    rw [Sequencer.publish_eq]
    rfl
  · change q ≤ (Sequencer.publish _ _).cursor at hle
    rw [Sequencer.publish_eq] at hle
    change q ≤ w.disruptor.sequencer.nextSequence at hle
    rw [List.mem_cons]
    by_cases heq : q = w.disruptor.sequencer.nextSequence
    · exact Or.inl heq
    · -- the next number is one past the cursor, or zero after the wrap
      have hwrap : w.disruptor.sequencer.nextSequence ≤ w.disruptor.sequencer.cursor + 1 :=
        hnext ▸ Nat.mod_le _ _
      exact Or.inr (inv.published q hq (by omega))

/-- **What a call does**: it publishes the next number, or it leaves the counters
and the published numbers as they are. -/
theorem Inv.step_cases {w w' : World E} (inv : w.Inv) {call : Call E}
    (hstep : w.step call = some w') :
    (∃ f, w' = ⟨w.disruptor.commit ((w.disruptor.sequencer.claim 1).addPending 1)
          w.disruptor.sequencer.nextSequence f,
        w.disruptor.sequencer.nextSequence :: w.published⟩) ∨
      (w'.published = w.published ∧
        w'.disruptor.sequencer =
          { w.disruptor.sequencer with isRunning := w'.disruptor.isRunning }) := by
  have unchanged : w.disruptor.sequencer =
      { w.disruptor.sequencer with isRunning := w.disruptor.isRunning } := by
    rw [← inv.running]
  cases hcall : call.publishes with
  | true =>
      rcases inv.publishing hcall with ⟨-, -, hw⟩ | ⟨-, -, f, hw⟩
      · rw [hw] at hstep
        obtain rfl := Option.some.inj hstep
        exact Or.inr ⟨rfl, unchanged⟩
      · rw [hw] at hstep
        exact Or.inl ⟨f, (Option.some.inj hstep).symm⟩
  | false =>
      right
      cases call with
      | publish | tryPublish => cases hcall
      | start =>
          cases hstep
          exact ⟨rfl, rfl⟩
      | updateGateSequence consumers =>
          cases hstep
          exact ⟨rfl, unchanged⟩
      | stop =>
          obtain ⟨d, hd, rfl⟩ := Option.map_eq_some_iff.mp hstep
          unfold stop at hd
          split at hd
          · cases hd
          · cases hd
            exact ⟨rfl, rfl⟩

/-- Every call keeps what is needed. -/
theorem inv_step {w w' : World E} {call : Call E} (inv : w.Inv) (hstep : w.step call = some w') :
    w'.Inv := by
  rcases inv.step_cases hstep with ⟨f, rfl⟩ | ⟨hpublished, hsequencer⟩
  · exact inv.commit f
  · refine ⟨?_, ?_, ?_, ?_⟩ <;> rw [hsequencer]
    · exact inv.pending
    · exact inv.next_eq
    · rw [hpublished]
      exact inv.published

/-! ## One publication -/

/-- A call that answers is a publication accepted by a running disruptor. -/
theorem Inv.of_answer {w : World E} (inv : w.Inv) {call : Call E} {seq : Nat}
    (h : w.answer call = some seq) :
    call.publishes = true ∧ w.disruptor.isRunning = true ∧
      seq = w.disruptor.sequencer.nextSequence := by
  have hcall : call.publishes = true := by
    cases call with
    | publish | tryPublish => rfl
    | start | stop | updateGateSequence => cases h
  rcases inv.publishing hcall with ⟨-, hnone, -⟩ | ⟨hrun, hsome, -⟩
  · rw [hnone] at h
    cases h
  · exact ⟨hcall, hrun, Option.some.inj (h.symm.trans hsome)⟩

/-- With room, the number answered is within a turn of the gate. -/
theorem Inv.withinTurn {w w' : World E} (inv : w.Inv) {call : Call E}
    (hroom : w.HasRoom call w') : w.WithinTurn call w' := by
  intro seq hanswer
  obtain ⟨hcall, hrun, rfl⟩ := inv.of_answer hanswer
  have hpos := w.disruptor.room_pos_iff.mp (hroom hcall hrun)
  have : w.disruptor.sequencer.nextSequence ≤ w.disruptor.sequencer.cursor + 1 :=
    inv.next_eq ▸ Nat.mod_le _ _
  omega

/-- Within a turn of the gate no published number shares the slot. -/
theorem WithinTurn.keepsUnread {w w' : World E} {call : Call E} (h : w.WithinTurn call w') :
    w.KeepsUnread call w' := by
  intro seq hanswer q _ hgate hlt
  have := h seq hanswer
  exact w.disruptor.ringBuffer.index_ne hlt (by omega)

/-- **Without room the slot of a published number is written**, before the
counter wraps. -/
theorem Inv.hasRoom_of_keepsUnread {w w' : World E} (inv : w.Inv) {call : Call E}
    (hwrap : w.disruptor.sequencer.cursor + 1 < 2 ^ 64) (h : w.KeepsUnread call w') :
    w.HasRoom call w' := by
  intro hcall hrun
  rw [Disruptor.room_pos_iff]
  by_contra hfull
  have hnext : w.disruptor.sequencer.nextSequence = w.disruptor.sequencer.cursor + 1 := by
    rw [inv.next_eq, Nat.mod_eq_of_lt hwrap]
  have hanswer : w.answer call = some w.disruptor.sequencer.nextSequence := by
    rcases inv.publishing hcall with ⟨hstopped, -, -⟩ | ⟨-, hsome, -⟩
    · rw [hrun] at hstopped
      cases hstopped
    · exact hsome
  have hsize := w.disruptor.ringBuffer.size_powerOfTwo.1
  -- the number a whole turn back is published and beyond the gate
  refine h _ hanswer (w.disruptor.sequencer.nextSequence - w.disruptor.ringBuffer.size)
    (inv.published _ (by omega) (by omega)) (by omega) (by omega) ?_
  exact w.disruptor.ringBuffer.index_sub_size (by omega)

/-! ## Runs -/

/-- Short of the wrap the cursor is the number of publications. -/
structure Counted (w : World E) : Prop where
  /-- what the calls keep -/
  inv : w.Inv
  /-- the cursor counts the publications -/
  cursor_eq : w.disruptor.sequencer.cursor = w.published.length
  /-- and has not wrapped -/
  short : w.published.length + 1 < 2 ^ 64

/-- A call keeps the count, short of the wrap. -/
theorem counted_step {w w' : World E} {call : Call E} (h : w.Counted)
    (hstep : w.step call = some w') (hshort : w'.published.length + 1 < 2 ^ 64) :
    w'.Counted := by
  refine ⟨inv_step h.inv hstep, ?_, hshort⟩
  rcases h.inv.step_cases hstep with ⟨f, rfl⟩ | ⟨hpublished, hsequencer⟩
  · show (Sequencer.publish _ _).cursor = w.published.length + 1
    have hnext := h.inv.next_eq
    rw [h.cursor_eq, Nat.mod_eq_of_lt h.short] at hnext
    rw [Sequencer.publish_eq]
    exact hnext
  · rw [hsequencer, hpublished]
    exact h.cursor_eq

/-- A new disruptor that has published nothing. -/
def init (d : Disruptor E) : World E := ⟨d, []⟩

/-- A new disruptor has published nothing. -/
theorem counted_init {event : E} {size : Nat} {d : Disruptor E}
    (h : Disruptor.new event size = some d) : (init d).Counted := by
  obtain ⟨ring, -, rfl⟩ := Option.map_eq_some_iff.mp h
  refine ⟨⟨rfl, rfl, rfl, fun q hq hle => ?_⟩, rfl, by norm_num [init]⟩
  change q ≤ 0 at hle
  omega

/-- **When a disruptor keeps its unread events.**  For a ring of any size its
constructor accepts, a run in which every publication is made while there is
room overwrites no unread event and stays within a turn of the gate; and until
the counters wrap, only such a run does either. -/
theorem keepsUnread_iff_room (event : E) (size : Nat) (d : Disruptor E)
    (hnew : Disruptor.new event size = some d) (calls : List (Call E)) :
    (AllSteps step HasRoom (init d) calls →
        AllSteps step KeepsUnread (init d) calls ∧ AllSteps step WithinTurn (init d) calls) ∧
      (AllStates step (fun w => w.published.length + 1 < 2 ^ 64) (init d) calls →
        (AllSteps step HasRoom (init d) calls ↔ AllSteps step KeepsUnread (init d) calls) ∧
        (AllSteps step HasRoom (init d) calls ↔ AllSteps step WithinTurn (init d) calls)) := by
  have start := counted_init hnew
  have sufficient : ∀ (w : World E) (call : Call E) (w' : World E), w.Inv →
      w.HasRoom call w' → w.KeepsUnread call w' ∧ w.WithinTurn call w' := by
    intro w call w' inv room
    have within : w.WithinTurn call w' := inv.withinTurn room
    exact ⟨within.keepsUnread, within⟩
  have necessary : ∀ (w : World E) (call : Call E) (w' : World E), w.Counted →
      w.KeepsUnread call w' → w.HasRoom call w' :=
    fun _ _ _ h keeps => h.inv.hasRoom_of_keepsUnread (h.cursor_eq ▸ h.short) keeps
  constructor
  · intro hroom
    constructor
    · exact AllSteps.of_invariant (fun w call w' inv hstep room =>
        ⟨inv_step inv hstep, (sufficient w call w' inv room).1⟩) calls _ start.inv hroom
    · exact AllSteps.of_invariant (fun w call w' inv hstep room =>
        ⟨inv_step inv hstep, (sufficient w call w' inv room).2⟩) calls _ start.inv hroom
  · rintro ⟨-, hshort⟩
    constructor
    · exact allSteps_iff_of_invariant
        (fun w call w' h hstep short room =>
          ⟨counted_step h hstep short, (sufficient w call w' h.inv room).1⟩)
        (fun w call w' h _ _ keeps => necessary w call w' h keeps) calls _ start hshort
    · exact allSteps_iff_of_invariant
        (fun w call w' h hstep short room =>
          ⟨counted_step h hstep short, (sufficient w call w' h.inv room).2⟩)
        (fun w call w' h _ _ within => necessary w call w' h within.keepsUnread)
        calls _ start hshort

/-- The theorem on a ring of two slots and two publications. -/
theorem keepsUnread_two :
    AllSteps step KeepsUnread (init ((Disruptor.new 0 2).get rfl))
      [.start, .publish (· + 7), .tryPublish (· + 8)] := by
  refine ((keepsUnread_iff_room 0 2 _ (Option.some_get _).symm _).1 ?_).1
  refine ⟨nofun, fun _ _ => ?_, fun _ _ => ?_, trivial⟩
  · decide
  · decide

/-- **A third publication overwrites the first event**, which no consumer has
passed. -/
theorem not_forall_keepsUnread :
    ¬ ∀ (size : Nat) (d : Disruptor Nat) (calls : List (Call Nat)),
      Disruptor.new 0 size = some d → AllSteps step KeepsUnread (init d) calls := by
  intro h
  obtain ⟨-, -, -, hkeeps, -⟩ := h 2 _ [.start, .publish id, .publish id, .publish id] rfl
  exact hkeeps 3 rfl 1 (by decide) (by decide) (by decide) rfl

end World

end StopTrading.Disruptor
