import StopTrading.EventStore.Replay
import StopTrading.Library.RankedList
import StopTrading.Library.Transition
import Mathlib.Order.Bounds.Basic

/-!
# The levels of a reconstructed book

The first level of a side of a `ReconstructedBook` is taken for its best one.  It is if the
levels are in the order of their prices, no price is there twice and no quantity is zero
(`WellKept`, `best_eq_some_iff`).

`apply_event` keeps that only for events that fit: a new level with a quantity and at a new
price, an update to a quantity, a trade that leaves something (`Fits`).  The snapshot looks at
the quantity; the other events do not, and the insertion does not look for a level with its
price.  `sound_iff_fits` says that nothing else goes wrong.

### What is load-bearing

A side is a list that is searched from the front, and `RankedList` of the library is about such
lists and an order in which elements are ahead of one another.  Both sides are one proof: `Ahead`
turns the order round for the asks.

Three events change a side, and each keeps it under a condition of its own that is also
necessary. Necessity is what takes some care.  A level that is inserted twice, or without a
quantity, is one that the side now has, and nothing repairs it within the same call; a quantity
that becomes zero stays in the list, since only the snapshot takes empty levels out.
-/

namespace StopTrading.Store

open RankedList Transition

namespace ReconstructedBook

/-- `best_bid`. -/
def bestBid (book : ReconstructedBook) : Option Int := book.bids.head?.map BookLevel.price

/-- `best_ask`. -/
def bestAsk (book : ReconstructedBook) : Option Int := book.asks.head?.map BookLevel.price

end ReconstructedBook

/-! ## Well kept sides -/

/-- A price is better than another one on a side. -/
def Better : Side → Int → Int → Prop
  | .bid, p, p' => p' < p
  | .ask, p, p' => p < p'

/-- A level comes before another one on a side. -/
def Ahead (side : Side) (l l' : BookLevel) : Prop := Better side l.price l'.price

/-- **A side is well kept**: strictly in the order of the prices, and without empty levels. -/
structure WellKept (side : Side) (levels : List BookLevel) : Prop where
  /-- the best level comes first, and no price twice -/
  sorted : levels.Pairwise (Ahead side)
  /-- and every level has a quantity -/
  positive : ∀ l ∈ levels, 0 < l.quantity

/-- The prices at which a side has a quantity. -/
def livePrices (levels : List BookLevel) : Set Int :=
  {p | ∃ l ∈ levels, l.price = p ∧ 0 < l.quantity}

/-- **The book is sound**: both sides are well kept, and the best prices are the best ones at
which there is a quantity. -/
structure ReconstructedBook.Sound (book : ReconstructedBook) : Prop where
  /-- the bids are well kept -/
  bids : WellKept .bid book.bids
  /-- and so are the asks -/
  asks : WellKept .ask book.asks
  /-- the best bid is the greatest price -/
  bestBid : ∀ p, book.bestBid = some p ↔ IsGreatest (livePrices book.bids) p
  /-- and the best ask the least one -/
  bestAsk : ∀ p, book.bestAsk = some p ↔ IsLeast (livePrices book.asks) p

/-- **An event fits the levels of its side.** -/
def ReplayEvent.Fits (event : ReplayEvent) (levels : List BookLevel) : Prop :=
  match event.eventType with
  | .levelAdd => 0 < event.quantity ∧ ∀ l ∈ levels, l.price ≠ event.price
  | .levelUpdate => ∀ l ∈ levels, l.price = event.price → 0 < event.quantity
  | .trade => ∀ l ∈ levels, l.price = event.price → event.quantity < l.quantity
  | .snapshot | .levelDelete | .sequenceGap => True

/-- The levels of a side. -/
def ReconstructedBook.levels (book : ReconstructedBook) : Side → List BookLevel
  | .bid => book.bids
  | .ask => book.asks

section Sides

variable {side : Side} {levels : List BookLevel}

instance : IsTrans BookLevel (Ahead side) :=
  ⟨fun _ _ _ h h' =>
    match side with
    | .bid => Int.lt_trans h' h
    | .ask => Int.lt_trans h h'⟩

/-- Of two levels at different prices one is ahead. -/
theorem ahead_or_ahead_iff {l l' : BookLevel} :
    Ahead side l l' ∨ Ahead side l' l ↔ l.price ≠ l'.price := by
  cases side with
  | bid => exact or_comm.trans (lt_or_lt_iff_ne (a := l.price))
  | ask => exact lt_or_lt_iff_ne (a := l.price)

/-- No price is there twice. -/
theorem WellKept.prices_ne (h : WellKept side levels) (price : Int) :
    levels.Pairwise fun l l' => l.price = price → ¬ l'.price = price :=
  h.sorted.imp fun hahead heq heq' =>
    ahead_or_ahead_iff.mp (.inl hahead) (heq.trans heq'.symm)

/-- **Changing a quantity** keeps a side exactly if something is left. -/
theorem wellKept_modifyLevel_iff (h : WellKept side levels) (price : Int)
    {quantity : BookLevel → Nat} :
    WellKept side (modifyLevel price (fun l => { l with quantity := quantity l }) levels) ↔
      ∀ l ∈ levels, l.price = price → 0 < quantity l := by
  have hprices : (modifyLevel price (fun l => { l with quantity := quantity l }) levels).map
      BookLevel.price = levels.map BookLevel.price :=
    map_modifyFirst (f := fun l => { l with quantity := quantity l }) (fun _ => rfl) levels
  have hpositive := forall_mem_modifyFirst (P := fun l => 0 < l.quantity)
    (f := fun l => { l with quantity := quantity l }) (h.prices_ne price)
  constructor
  · intro hkept l hl hprice
    have hleft := hpositive.mp hkept.positive l hl
    rwa [if_pos hprice] at hleft
  · intro hleft
    refine ⟨?_, hpositive.mpr fun l hl => ?_⟩
    · refine (List.pairwise_map (R := Better side) (f := BookLevel.price)).mp ?_
      rw [hprices]
      exact List.pairwise_map.mpr h.sorted
    · split
      · exact hleft l hl ‹_›
      · exact h.positive l hl

/-- **Inserting a level** keeps a side exactly if the level has a quantity and a new price. -/
theorem wellKept_insertBefore_iff (h : WellKept side levels) {worse : BookLevel → Bool}
    (level : BookLevel) (hworse : ∀ l, worse l = true ↔ Ahead side level l) :
    WellKept side (insertBefore worse level levels) ↔
      0 < level.quantity ∧ ∀ l ∈ levels, l.price ≠ level.price := by
  have hsorted := pairwise_insertBefore hworse h.sorted
  constructor
  · intro hkept
    exact ⟨hkept.positive level (mem_insertBefore.mpr (.inl rfl)), fun l hl =>
      ahead_or_ahead_iff.mp (hsorted.mp hkept.sorted l hl)⟩
  · rintro ⟨hquantity, hprices⟩
    refine ⟨hsorted.mpr fun l hl => ahead_or_ahead_iff.mpr (hprices l hl), fun l hl => ?_⟩
    rcases mem_insertBefore.mp hl with rfl | hl
    · exact hquantity
    · exact h.positive l hl

/-- **An event keeps its side** exactly if it fits. -/
theorem wellKept_applyToLevels_iff (h : WellKept side levels) {event : ReplayEvent}
    (hside : event.side = side) :
    WellKept side (applyToLevels event levels) ↔ event.Fits levels := by
  unfold applyToLevels ReplayEvent.Fits
  cases event.eventType with
  | snapshot =>
      refine iff_of_true ?_ trivial
      dsimp only
      split
      · rename_i hquantity
        exact ⟨List.pairwise_singleton _ _, fun l hl => by rwa [List.mem_singleton.mp hl]⟩
      · exact ⟨.nil, nofun⟩
  | levelAdd =>
      refine wellKept_insertBefore_iff h ⟨event.price, event.quantity, 1⟩ fun l => ?_
      subst hside
      cases hevent : event.side with
      | bid => exact decide_eq_true_iff
      | ask => exact decide_eq_true_iff
  | levelUpdate => exact wellKept_modifyLevel_iff h event.price
  | levelDelete =>
      refine iff_of_true ⟨h.sorted.filter _, fun l hl => ?_⟩ trivial
      exact h.positive l (List.mem_of_mem_filter hl)
  | trade =>
      refine (wellKept_modifyLevel_iff h event.price).trans ?_
      exact forall₂_congr fun l _ => imp_congr_right fun _ => Nat.sub_pos_iff_lt
  | sequenceGap => exact iff_of_true h trivial

/-- **The first level is the best one** of a side that is well kept. -/
theorem WellKept.best_iff (h : WellKept side levels) (p : Int) :
    levels.head?.map BookLevel.price = some p ↔
      p ∈ livePrices levels ∧ ∀ p' ∈ livePrices levels, p' = p ∨ Better side p p' := by
  cases levels with
  | nil => exact iff_of_false nofun fun ⟨⟨_, hl, _⟩, _⟩ => List.not_mem_nil hl
  | cons best rest =>
      have hbest : best.price ∈ livePrices (best :: rest) :=
        ⟨best, List.mem_cons_self, rfl, h.positive best List.mem_cons_self⟩
      have hbounds : ∀ p' ∈ livePrices (best :: rest), p' = best.price ∨
          Better side best.price p' := by
        rintro _ ⟨l, hl, rfl, -⟩
        rcases List.mem_cons.mp hl with rfl | hl
        · exact .inl rfl
        · exact .inr ((List.pairwise_cons.mp h.sorted).1 l hl)
      refine Option.some_inj.trans ⟨?_, fun ⟨hp, hall⟩ => ?_⟩
      · rintro rfl
        exact ⟨hbest, hbounds⟩
      · rcases hall best.price hbest with heq | hahead
        · exact heq
        · rcases hbounds p hp with heq | hbehind
          · exact heq.symm
          · cases side with
            | bid => exact absurd hahead (not_lt.mpr hbehind.le)
            | ask => exact absurd hahead (not_lt.mpr hbehind.le)

end Sides

namespace ReconstructedBook

variable {book : ReconstructedBook}

/-- Well kept sides are all there is to a sound book. -/
theorem sound_iff : book.Sound ↔ WellKept .bid book.bids ∧ WellKept .ask book.asks := by
  refine ⟨fun h => ⟨h.bids, h.asks⟩, fun ⟨hbids, hasks⟩ => ⟨hbids, hasks, fun p => ?_, fun p => ?_⟩⟩
  · refine (hbids.best_iff p).trans (and_congr_right fun _ => forall₂_congr fun p' _ => ?_)
    exact le_iff_eq_or_lt.symm
  · refine (hasks.best_iff p).trans (and_congr_right fun _ => forall₂_congr fun p' _ => ?_)
    exact (or_congr_left eq_comm).trans le_iff_eq_or_lt.symm

/-- An empty book has no best prices. -/
theorem sound_new : new.Sound := sound_iff.mpr ⟨⟨.nil, nofun⟩, ⟨.nil, nofun⟩⟩

/-- **An event leaves a sound book** exactly if it fits the levels of its side. -/
theorem sound_applyEvent_iff (h : book.Sound) (event : ReplayEvent) :
    (book.applyEvent event).Sound ↔ event.Fits (book.levels event.side) := by
  rw [sound_iff]
  unfold applyEvent
  cases hside : event.side with
  | bid => exact (and_iff_left h.asks).trans (wellKept_applyToLevels_iff h.bids hside)
  | ask => exact (and_iff_right h.bids).trans (wellKept_applyToLevels_iff h.asks hside)

/-- One event. -/
def step (book : ReconstructedBook) (event : ReplayEvent) : Option ReconstructedBook :=
  some (book.applyEvent event)

/-- **The book is sound after every event** exactly if every event fits the book it comes to. -/
theorem sound_iff_fits (events : List ReplayEvent) :
    AllStates step Sound new events ↔
      AllSteps step (fun book event _ => event.Fits (book.levels event.side)) new events := by
  refine (allSteps_iff_allStates (fun _ h => h)
    (fun book event book' h hstep hfits => ?_)
    (fun book event book' h hstep hsound => ?_) sound_new events).symm
  · cases hstep
    exact (sound_applyEvent_iff h event).mpr hfits
  · cases hstep
    exact (sound_applyEvent_iff h event).mp hsound

/-- **A level added twice** is there twice. -/
theorem not_forall_soundBook : ¬ ∀ events : List ReplayEvent, AllStates step Sound new events := by
  intro h
  obtain ⟨-, hfirst, hsecond, -⟩ :=
    h [⟨.levelAdd, 1, 1, 100, 5, .bid, 0⟩, ⟨.levelAdd, 2, 2, 100, 7, .bid, 0⟩]
  have hfits := (sound_applyEvent_iff hfirst _).mp hsecond
  exact hfits.2 _ List.mem_cons_self rfl

end ReconstructedBook

end StopTrading.Store
