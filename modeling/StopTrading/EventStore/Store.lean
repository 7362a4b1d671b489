import StopTrading.EventStore.Replay
import StopTrading.Library.Transition

/-!
# The event store

`process_event` compares the number of an event with the one it expects.  As long as they
agree it hands the event to the replay engine.  An event with another number, late or early,
is reported as a gap and goes nowhere, but moves the expected number right behind itself
(`processEvent_gap`): an early event is lost, and a late one takes the store back, so that
what has been applied is applied again.

`inOrder_iff_follows` gives the streams in which every event is treated as its number says.
"Applied" and "ignored" are said of the engine's book and of its counter, not only of the list of
events that `appliedBy` reads off the code: the book alone would not do, because an event may
leave a book as it is, and then only the counter tells whether it was applied.

The records written to the log are left out here.
-/

namespace StopTrading.Store

open Transition

/-- `SequenceGapInfo`. -/
structure SequenceGapInfo where
  expectedSequence : UInt64
  receivedSequence : UInt64
  gapSize : UInt64
  timestampNs : UInt64
  snapshotRequested : Bool
  deriving Repr, DecidableEq

/-- `EventStore`, without its log. -/
structure EventStore where
  replayEngine : ReplayEngine
  expectedSequence : UInt64
  totalGaps : UInt64
  snapshotsTriggered : UInt64
  isActive : Bool
  autoSnapshotOnGap : Bool
  deriving Repr, DecidableEq

namespace EventStore

/-- `new`. -/
def new (autoSnapshot : Bool) : EventStore := ⟨.new, 0, 0, 0, true, autoSnapshot⟩

/-- The event has another number than the expected one. -/
def Gap (s : EventStore) (event : ReplayEvent) : Prop :=
  event.sequence ≠ s.expectedSequence ∧ s.expectedSequence > 0

instance (s : EventStore) (event : ReplayEvent) : Decidable (s.Gap event) :=
  inferInstanceAs (Decidable (_ ∧ _))

/-- `process_event`. -/
def processEvent (s : EventStore) (event : ReplayEvent) : EventStore × Option SequenceGapInfo :=
  if s.isActive = false then (s, none)
  else
    let expected := s.expectedSequence
    if s.Gap event then
      let gapSize := if event.sequence > expected then event.sequence - expected else 0
      let requested : Bool := s.autoSnapshotOnGap ∧ gapSize > 0
      ({ s with
          totalGaps := s.totalGaps + 1
          snapshotsTriggered :=
            if requested then s.snapshotsTriggered + 1 else s.snapshotsTriggered
          expectedSequence := event.sequence + 1 },
        some ⟨expected, event.sequence, gapSize, event.timestampNs, requested⟩)
    else
      ({ s with
          expectedSequence := event.sequence + 1
          replayEngine := (s.replayEngine.pushEvent event).1 },
        none)

/-! ## What is applied -/

/-- The events the engine applies when an event is processed, in their order. -/
def appliedBy (s : EventStore) (event : ReplayEvent) : List ReplayEvent :=
  if s.isActive = false ∨ s.Gap event ∨ s.replayEngine.isActive = false then []
  else if s.replayEngine.gapBefore event then [s.replayEngine.gapEvent event, event]
  else [event]

/-- **These are the events the book has seen**, and the engine counts them. -/
theorem replayEngine_processEvent (s : EventStore) (event : ReplayEvent) :
    (s.processEvent event).1.replayEngine.currentBook =
        (s.appliedBy event).foldl ReconstructedBook.applyEvent s.replayEngine.currentBook ∧
      (s.processEvent event).1.replayEngine.eventsProcessed =
        s.replayEngine.eventsProcessed + UInt64.ofNat (s.appliedBy event).length := by
  unfold processEvent appliedBy
  by_cases hactive : s.isActive = false
  · rw [if_pos hactive, if_pos (Or.inl hactive)]
    exact ⟨rfl, (UInt64.add_zero _).symm⟩
  by_cases hgap : s.Gap event
  · rw [if_neg hactive, if_pos (Or.inr (Or.inl hgap))]
    dsimp only
    rw [if_pos hgap]
    exact ⟨rfl, (UInt64.add_zero _).symm⟩
  rw [if_neg hactive]
  dsimp only
  rw [if_neg hgap]
  dsimp only
  unfold ReplayEngine.pushEvent
  by_cases hengine : s.replayEngine.isActive = false
  · rw [if_pos hengine, if_pos (Or.inr (Or.inr hengine))]
    exact ⟨rfl, (UInt64.add_zero _).symm⟩
  · have hskip : ¬ (s.isActive = false ∨ s.Gap event ∨ s.replayEngine.isActive = false) := by
      tauto
    rw [if_neg hengine, if_neg hskip]
    dsimp only
    by_cases hbefore : s.replayEngine.gapBefore event = true
    · rw [if_pos hbefore, if_pos hbefore]
      exact ⟨rfl, UInt64.add_assoc _ 1 1⟩
    · rw [if_neg hbefore, if_neg hbefore]
      exact ⟨rfl, rfl⟩

/-- **The event is applied once**: what is applied is the event behind gap marks at most, the
book afterwards is the one before with this event applied, and the engine's counter has gone up
by what was applied. -/
structure AppliedOnce (s : EventStore) (event : ReplayEvent) (s' : EventStore) : Prop where
  /-- the event comes last, and before it only marks of a gap -/
  events : ∃ marks, s.appliedBy event = marks ++ [event] ∧
    ∀ mark ∈ marks, mark = s.replayEngine.gapEvent event
  /-- the book has the event applied to it -/
  book : s'.replayEngine.currentBook = s.replayEngine.currentBook.applyEvent event
  /-- and the engine has counted it -/
  counter : s'.replayEngine.eventsProcessed =
    s.replayEngine.eventsProcessed + UInt64.ofNat (s.appliedBy event).length

/-- **The event is ignored**: nothing is applied, and neither the book nor the counter of the
engine is changed. -/
structure Ignored (s : EventStore) (event : ReplayEvent) (s' : EventStore) : Prop where
  /-- the engine gets nothing -/
  events : s.appliedBy event = []
  /-- the book stays -/
  book : s'.replayEngine.currentBook = s.replayEngine.currentBook
  /-- and nothing is counted -/
  counter : s'.replayEngine.eventsProcessed = s.replayEngine.eventsProcessed

/-- The store and its engine are active. -/
structure Active (s : EventStore) : Prop where
  /-- the store is active -/
  store : s.isActive = true
  /-- and so is its engine -/
  engine : s.replayEngine.isActive = true

/-- A push does not stop the engine. -/
theorem isActive_pushEvent (g : ReplayEngine) (event : ReplayEvent) :
    (g.pushEvent event).1.isActive = g.isActive := by
  unfold ReplayEngine.pushEvent
  split
  · rfl
  · dsimp only
    split <;> rfl

/-- **A processed event always becomes the last one expected**, and the flags stay. -/
theorem processEvent_of_active {s : EventStore} (hactive : s.Active) (event : ReplayEvent) :
    (s.processEvent event).1.expectedSequence = event.sequence + 1 ∧
      (s.processEvent event).1.Active := by
  unfold processEvent
  rw [if_neg (by simp [hactive.store])]
  dsimp only
  split
  · exact ⟨rfl, hactive.store, hactive.engine⟩
  · exact ⟨rfl, hactive.store, (isActive_pushEvent _ event).trans hactive.engine⟩

/-- **An event with another number than the expected one** is ignored. -/
theorem ignored_of_gap {s : EventStore} {event : ReplayEvent} (hgap : s.Gap event) :
    s.Ignored event (s.processEvent event).1 := by
  have hnone : s.appliedBy event = [] := if_pos (Or.inr (Or.inl hgap))
  obtain ⟨hbook, hcounter⟩ := replayEngine_processEvent s event
  rw [hnone] at hbook hcounter
  exact ⟨hnone, hbook, hcounter.trans (UInt64.add_zero _)⟩

/-- An event with the expected number is applied once. -/
theorem appliedOnce_of_not_gap {s : EventStore} {event : ReplayEvent} (hactive : s.Active)
    (hgap : ¬ s.Gap event) : s.AppliedOnce event (s.processEvent event).1 := by
  have hskip : ¬ (s.isActive = false ∨ s.Gap event ∨ s.replayEngine.isActive = false) := by
    simp [hactive.store, hactive.engine, hgap]
  obtain ⟨hbook, hcounter⟩ := replayEngine_processEvent s event
  refine ⟨?_, ?_, hcounter⟩
  · rw [appliedBy, if_neg hskip]
    split
    · exact ⟨[s.replayEngine.gapEvent event], rfl, fun mark hmark => List.mem_singleton.mp hmark⟩
    · exact ⟨[], rfl, nofun⟩
  · rw [hbook, appliedBy, if_neg hskip]
    split
    -- The mark of a gap is overwritten by the event behind it.
    · exact s.replayEngine.currentBook.applyEvent_gap rfl event
    · rfl

/-! ## Streams of events -/

/-- One event. -/
def step (s : EventStore) (event : ReplayEvent) : Option EventStore :=
  some (s.processEvent event).1

/-- **An event is treated as its number says**: what is expected does not decrease, an event
from the expected number on is applied once, an earlier one is not applied. -/
structure InOrder (s : EventStore) (event : ReplayEvent) (s' : EventStore) : Prop where
  /-- the store is not taken back -/
  expected : s.expectedSequence ≤ s'.expectedSequence
  /-- a later event is applied, once -/
  applied : s.expectedSequence ≤ event.sequence → s.AppliedOnce event s'
  /-- and an earlier one is not -/
  ignored : event.sequence < s.expectedSequence → s.Ignored event s'

/-- **The event follows**: nothing is expected yet, or it has the expected number, behind which
there is another one, or the number before it. -/
def Follows (s : EventStore) (event : ReplayEvent) (_ : EventStore) : Prop :=
  s.expectedSequence = 0 ∨
    (event.sequence = s.expectedSequence ∧ event.sequence + 1 ≠ 0) ∨
    event.sequence + 1 = s.expectedSequence

instance (s : EventStore) (event : ReplayEvent) (s' : EventStore) :
    Decidable (s.Follows event s') :=
  inferInstanceAs (Decidable (_ ∨ _))

/-- An event at a gap is treated as its number says only if it is the one before the expected
one: nothing is applied, so it has to be an earlier one. -/
theorem follows_iff_inOrder_of_gap {s : EventStore} (hactive : s.Active) {event : ReplayEvent}
    (hgap : s.Gap event) :
    s.Follows event (s.processEvent event).1 ↔ s.InOrder event (s.processEvent event).1 := by
  obtain ⟨hexpected, -⟩ := processEvent_of_active hactive event
  have hnone := ignored_of_gap hgap
  have hnotOnce : ¬ s.AppliedOnce event (s.processEvent event).1 := by
    rintro ⟨⟨marks, hmarks, -⟩, -, -⟩
    rw [hnone.events] at hmarks
    exact List.append_ne_nil_of_right_ne_nil marks (List.cons_ne_nil event []) hmarks.symm
  obtain ⟨hne, hpos⟩ := hgap
  constructor
  · rintro (h | ⟨h, -⟩ | h)
    · exact absurd h (by grind)
    · exact absurd h hne
    · refine ⟨?_, fun hle => absurd h (by grind), fun _ => hnone⟩
      rw [hexpected, h]
      exact UInt64.le_refl _
  · intro h
    have hle : s.expectedSequence ≤ event.sequence + 1 := hexpected ▸ h.expected
    have hearlier : ¬ s.expectedSequence ≤ event.sequence := fun hle => hnotOnce (h.applied hle)
    exact Or.inr (Or.inr (by grind))

/-- An event without a gap is applied, so all depends on what is expected next. -/
theorem follows_iff_inOrder_of_not_gap {s : EventStore} (hactive : s.Active)
    {event : ReplayEvent} (hgap : ¬ s.Gap event) :
    s.Follows event (s.processEvent event).1 ↔ s.InOrder event (s.processEvent event).1 := by
  obtain ⟨hexpected, -⟩ := processEvent_of_active hactive event
  have honce := appliedOnce_of_not_gap hactive hgap
  have hcases : s.expectedSequence = 0 ∨ event.sequence = s.expectedSequence := by
    by_contra hneither
    obtain ⟨hzero, hne⟩ := not_or.mp hneither
    exact hgap ⟨hne, by grind⟩
  rcases hcases with hzero | hsame
  · refine iff_of_true (Or.inl hzero) ⟨?_, fun _ => honce, fun hlt => absurd hlt (by grind)⟩
    rw [hzero]
    exact UInt64.zero_le
  · rw [Follows]
    constructor
    · intro h
      refine ⟨?_, fun _ => honce, fun hlt => absurd hlt (by grind)⟩
      rw [hexpected]
      grind
    · intro h
      have hle : s.expectedSequence ≤ event.sequence + 1 := hexpected ▸ h.expected
      by_cases hzero : s.expectedSequence = 0
      · exact Or.inl hzero
      · exact Or.inr (Or.inl ⟨hsame, by grind⟩)

/-- One event. -/
theorem follows_iff_inOrder {s : EventStore} (hactive : s.Active) (event : ReplayEvent) :
    s.Follows event (s.processEvent event).1 ↔ s.InOrder event (s.processEvent event).1 := by
  by_cases hgap : s.Gap event
  · exact follows_iff_inOrder_of_gap hactive hgap
  · exact follows_iff_inOrder_of_not_gap hactive hgap

/-- **When every event of a stream is treated as its number says**, from any active store. -/
theorem inOrder_iff_follows {s : EventStore} (hactive : s.Active) (events : List ReplayEvent) :
    AllSteps step Follows s events ↔ AllSteps step InOrder s events := by
  refine allSteps_iff_of_step_iff
    (fun s event s' (inv : Active s) hstep (_ : True) _ => ?_)
    (fun s event s' inv hstep _ => ?_)
    events hactive (allSteps_of_forall (fun _ _ _ _ => trivial) events s)
  · obtain rfl : _ = s' := Option.some.inj hstep
    exact (processEvent_of_active inv event).2
  · obtain rfl : _ = s' := Option.some.inj hstep
    exact follows_iff_inOrder inv event

/-- A new level, with a number. -/
def levelAdd (sequence : UInt64) (price : Int) : ReplayEvent :=
  ⟨.levelAdd, 1000, sequence, price, 100, .bid, sequence⟩

/-- The theorem on a stream with a duplicate. -/
theorem inOrder_duplicate :
    AllSteps step InOrder (new true) [levelAdd 1 10000, levelAdd 2 10001, levelAdd 2 10001] :=
  (inOrder_iff_follows ⟨rfl, rfl⟩ _).mp (by decide)

/-- **An event behind a gap is lost**: the fifth after the first. -/
theorem not_forall_stream_inOrder :
    ¬ ∀ (s : EventStore), s.Active → ∀ events, AllSteps step InOrder s events := by
  intro h
  obtain ⟨-, hordered, -⟩ := h (new true) ⟨rfl, rfl⟩ [levelAdd 1 10000, levelAdd 5 10001]
  obtain ⟨marks, hmarks, -⟩ := (hordered.applied (by decide)).events
  have hlength := congrArg List.length hmarks
  rw [List.length_append] at hlength
  exact absurd hlength (by simp [appliedBy, Gap, processEvent, new, levelAdd])

end EventStore

end StopTrading.Store
