import Mathlib.Data.List.Basic
import Mathlib.Tactic.Common

/-!
# Replaying events

`ReplayEngine` rebuilds an order book from events.  `push_event` takes the events as they
come in and puts an event of its own in front of one whose number does not follow the
book's; `replay_events` takes a recorded list as it is.

The number and the time of an event that only marks a gap are overwritten by the event that
comes after it (`applyEvent_gap`).  So both ways lead to the same book
(`currentBook_pushEvents`), and only the statistics tell them apart.

### What is load-bearing

The two ways differ in what they put in front of an event.  A mark is an event like others to
`apply_event`: it sets the number and the time of the book and has no level.  The event behind it
sets both again.  That is all, and it is said once, of one event (`applyEvent_gap`); the streams
follow by induction.
-/

namespace StopTrading.Store

/-- `ReplayEventType`. -/
inductive ReplayEventType where
  | snapshot
  | levelAdd
  | levelUpdate
  | levelDelete
  | trade
  | sequenceGap
  deriving Repr, DecidableEq

/-- `Side`. -/
inductive Side where
  | bid
  | ask
  deriving Repr, DecidableEq

/-- `ReplayEvent`. -/
structure ReplayEvent where
  eventType : ReplayEventType
  timestampNs : UInt64
  sequence : UInt64
  price : Int
  quantity : Nat
  side : Side
  orderId : UInt64
  deriving Repr, DecidableEq

/-- `BookLevel`. -/
structure BookLevel where
  price : Int
  quantity : Nat
  orderCount : Nat
  deriving Repr, DecidableEq

/-- Change the first level with a price. -/
def modifyLevel (price : Int) (change : BookLevel → BookLevel) (levels : List BookLevel) :
    List BookLevel :=
  levels.replaceF fun l => if l.price = price then some (change l) else none

/-- The side of a book after an event. -/
def applyToLevels (event : ReplayEvent) (levels : List BookLevel) : List BookLevel :=
  let level : BookLevel := ⟨event.price, event.quantity, 1⟩
  match event.eventType with
  | .snapshot => if event.quantity > 0 then [level] else []
  | .levelAdd =>
      let worse := fun l : BookLevel =>
        if event.side = .bid then decide (l.price < event.price) else decide (l.price > event.price)
      match levels.findIdx? worse with
      | some i => levels.insertIdx i level
      | none => levels ++ [level]
  | .levelUpdate => modifyLevel event.price (fun l => { l with quantity := event.quantity }) levels
  | .levelDelete => levels.filter fun l => l.price ≠ event.price
  | .trade =>
      modifyLevel event.price (fun l => { l with quantity := l.quantity - event.quantity }) levels
  | .sequenceGap => levels

/-- `ReconstructedBook`. -/
structure ReconstructedBook where
  bids : List BookLevel
  asks : List BookLevel
  lastUpdateNs : UInt64
  sequence : UInt64
  deriving Repr, DecidableEq

namespace ReconstructedBook

/-- `new`. -/
def new : ReconstructedBook := ⟨[], [], 0, 0⟩

/-- `apply_event`. -/
def applyEvent (book : ReconstructedBook) (event : ReplayEvent) : ReconstructedBook :=
  let book := { book with lastUpdateNs := event.timestampNs, sequence := event.sequence }
  match event.side with
  | .bid => { book with bids := applyToLevels event book.bids }
  | .ask => { book with asks := applyToLevels event book.asks }

/-- **A gap in front of an event leaves no trace** in the book. -/
theorem applyEvent_gap (book : ReconstructedBook) {gap : ReplayEvent}
    (hgap : gap.eventType = .sequenceGap) (event : ReplayEvent) :
    (book.applyEvent gap).applyEvent event = book.applyEvent event := by
  have hlevels : ∀ levels, applyToLevels gap levels = levels := fun levels => by
    rw [applyToLevels, hgap]
  have happlied : book.applyEvent gap =
      { book with lastUpdateNs := gap.timestampNs, sequence := gap.sequence } := by
    unfold applyEvent
    cases gap.side <;> simp only [hlevels]
  rw [happlied]
  rfl

end ReconstructedBook

/-! ## The engine -/

/-- `ReplayEngine`, without the ring of indices that nothing reads. -/
structure ReplayEngine where
  eventsProcessed : UInt64
  gapsDetected : UInt64
  isActive : Bool
  currentBook : ReconstructedBook
  deriving Repr, DecidableEq

/-- `ReplayResult`. -/
structure ReplayResult where
  eventsReplayed : Nat
  gapsFound : Nat
  elapsedNs : Nat
  finalSequence : UInt64
  success : Bool
  deriving Repr, DecidableEq

namespace ReplayEngine

/-- `new`. -/
def new : ReplayEngine := ⟨0, 0, true, .new⟩

/-- `apply_event_internal`. -/
def applyEventInternal (g : ReplayEngine) (event : ReplayEvent) : ReplayEngine :=
  { g with currentBook := g.currentBook.applyEvent event, eventsProcessed := g.eventsProcessed + 1 }

/-- The event that marks a gap in front of an event. -/
def gapEvent (g : ReplayEngine) (event : ReplayEvent) : ReplayEvent where
  eventType := .sequenceGap
  timestampNs := event.timestampNs
  sequence := g.currentBook.sequence + 1
  price := 0
  quantity := 0
  side := .bid
  orderId := 0

/-- The number of the event does not follow that of the book. -/
def gapBefore (g : ReplayEngine) (event : ReplayEvent) : Bool :=
  event.sequence ≠ g.currentBook.sequence + 1 ∧ g.currentBook.sequence > 0

/-- `push_event`. -/
def pushEvent (g : ReplayEngine) (event : ReplayEvent) : ReplayEngine × Bool :=
  if g.isActive = false then (g, false)
  else
    let marked :=
      if g.gapBefore event then
        { g with gapsDetected := g.gapsDetected + 1 }.applyEventInternal (g.gapEvent event)
      else g
    (marked.applyEventInternal event, true)

/-- The events pushed one after the other. -/
def pushEvents (g : ReplayEngine) (events : List ReplayEvent) : ReplayEngine :=
  events.foldl (fun g event => (g.pushEvent event).1) g

/-- `replay_events`. -/
def replayEvents (g : ReplayEngine) (events : List ReplayEvent) (elapsedNs : Nat) :
    ReplayEngine × ReplayResult :=
  if g.isActive = false then (g, ⟨0, 0, 0, 0, false⟩)
  else
    let book := events.foldl ReconstructedBook.applyEvent g.currentBook
    ({ g with currentBook := book },
      { eventsReplayed := events.length
        gapsFound := events.countP fun event => event.eventType = .sequenceGap
        elapsedNs := elapsedNs
        finalSequence := book.sequence
        success := true })

/-! ## Both ways to a book -/

/-- **What a pushed event does to the book** is what the event alone does. -/
theorem pushEvent_of_active {g : ReplayEngine} (hactive : g.isActive = true)
    (event : ReplayEvent) :
    (g.pushEvent event).1.currentBook = g.currentBook.applyEvent event ∧
      (g.pushEvent event).1.isActive = true ∧ (g.pushEvent event).2 = true := by
  unfold pushEvent
  rw [if_neg (by simp [hactive])]
  dsimp only
  split
  · refine ⟨?_, hactive, rfl⟩
    exact g.currentBook.applyEvent_gap rfl event
  · exact ⟨rfl, hactive, rfl⟩

/-- By induction on the events: after each of them the books agree. -/
theorem currentBook_pushEvents (events : List ReplayEvent) :
    ∀ {g : ReplayEngine}, g.isActive = true →
      (g.pushEvents events).currentBook =
        events.foldl ReconstructedBook.applyEvent g.currentBook := by
  induction events with
  | nil => intro g _; rfl
  | cons event events ih =>
      intro g hactive
      obtain ⟨hbook, hactive', -⟩ := pushEvent_of_active hactive event
      rw [List.foldl_cons, ← hbook, ← ih hactive']
      rfl

/-- **The live book is the replayed book**, for every stream of events. -/
theorem currentBook_pushEvents_eq_replayEvents (events : List ReplayEvent) (elapsedNs : Nat) :
    (new.pushEvents events).currentBook = (new.replayEvents events elapsedNs).1.currentBook :=
  currentBook_pushEvents events rfl

/-- A stream in which the fourth event is late: the book is the one replayed, and the
statistics of the live engine count what it has put in. -/
example :
    let add (sequence : UInt64) (price : Int) : ReplayEvent :=
      ⟨.levelAdd, 1000 + sequence, sequence, price, 5, .bid, 0⟩
    let live := new.pushEvents [add 1 10, add 2 12, add 5 11, add 3 9]
    live.currentBook.bids.map (·.price) = [12, 11, 10, 9] ∧ live.gapsDetected = 2 ∧
      live.eventsProcessed = 6 := by
  decide

end ReplayEngine

end StopTrading.Store
