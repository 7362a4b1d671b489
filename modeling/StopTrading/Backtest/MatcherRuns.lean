import StopTrading.Backtest.Matcher
import StopTrading.Library.LastWrite
import StopTrading.Library.Transition
import Mathlib.Tactic.NormNum

/-!
# Rejected orders and the cached best prices of the simulated book

A resting order is put into the book before the test for adverse selection, so that a rejected
order stays in the book.  And `best_bid` and `best_ask` are written by snapshots only, whereas
orders change the volumes.

`tracelessAndBest_iff` says of the first that an order leaves no trace exactly if it is not
rejected, and of the second that the caches are right throughout a run exactly if every call
fits the book it comes to (`Fits`): a snapshot lists a best price first, an order that crosses
the spread leaves some of the volume at the best price, and a resting one does not become the
best.

### What is load-bearing

Both parts come down to the volumes as a function of the price.  For the caches this is `IsBest`:
it speaks of volumes and a price, and not of levels or orders, and `isBest_update_iff` says what
a change at one price does to it.  A snapshot is a sequence of such changes in which the last one
at a price counts (`LastWrite`), an order that rests is one of them, and an execution is one for
each price it draws on, of which only the first can matter.

For the rejected orders it is not volumes but the level itself: the order is *in* it, so that the
levels differ even where the quantity is zero (`withOrder_ne`).

The random draws are arguments of a call.  Nothing that is proved depends on them, which is why
the results hold of every run of the generator.
-/

namespace StopTrading.Backtest

open KeyedProfile Transition

namespace BookLevel

/-- The level with one order more. -/
def withOrder (level : BookLevel) (order : SimulatedOrder) : BookLevel :=
  match order.side with
  | .buy =>
      { level with
        bids := level.bids ++ [order]
        totalBidVolume := level.totalBidVolume + order.quantity }
  | .sell =>
      { level with
        asks := level.asks ++ [order]
        totalAskVolume := level.totalAskVolume + order.quantity }

/-- An order adds its quantity to the volume of its side. -/
theorem volume_withOrder (level : BookLevel) (order : SimulatedOrder) (side : Side) :
    (level.withOrder order).volume side =
      if side = order.side then level.volume side + order.quantity else level.volume side := by
  unfold withOrder
  cases order.side <;> cases side <;> rfl

/-- A level with one order more is another level. -/
theorem withOrder_ne (level : BookLevel) (order : SimulatedOrder) :
    level.withOrder order ≠ level := by
  intro heq
  have hcount : (level.withOrder order).bids.length + (level.withOrder order).asks.length =
      level.bids.length + level.asks.length + 1 := by
    unfold withOrder
    cases order.side <;> simp only [List.length_append, List.length_singleton] <;> omega
  rw [heq] at hcount
  omega

end BookLevel

namespace SimulatedOrderBook

/-! ## The calls -/

/-- `new`. -/
def new (symbol : String) : SimulatedOrderBook where
  symbol := symbol
  levels := ∅
  bestBid := none
  bestAsk := none
  lastUpdateNs := 0
  toxicFlowScore := 0
  recentFills := []

/-- A level of a snapshot is written. -/
def writeLevel (side : Side) (levels : AList fun _ : ℚ => BookLevel) (level : Level) :
    AList fun _ : ℚ => BookLevel :=
  levels.insert level.price
    (((levels.lookup level.price).getD BookLevel.default).withVolume side level.volume)

/-- `update_from_snapshot`. -/
def updateFromSnapshot (book : SimulatedOrderBook) (bids asks : List Level) (timestampNs : Nat) :
    SimulatedOrderBook :=
  { book with
    levels := asks.foldl (writeLevel .sell) (bids.foldl (writeLevel .buy) ∅)
    bestBid := bids.head?.map (·.price)
    bestAsk := asks.head?.map (·.price)
    lastUpdateNs := timestampNs }

/-- `f64::MAX`. -/
def f64Max : ℚ := (2 ^ 53 - 1) * 2 ^ 971

/-- An aggressive fill is recorded. -/
def recordFill (book : SimulatedOrderBook) (side : Side) (tick : Tick) : SimulatedOrderBook :=
  { book with
    recentFills := book.recentFills ++
      [⟨tick.timestampNs, side, tick.lastPrice, tick.volume, true⟩]
    toxicFlowScore := book.toxicFlowScore + 1 / 10 }

/-- `update_from_tick`. -/
def updateFromTick (book : SimulatedOrderBook) (tick : Tick) : SimulatedOrderBook :=
  let book := { book with lastUpdateNs := tick.timestampNs }
  let book :=
    if tick.lastPrice > book.bestAsk.getD f64Max * (9999 / 10000) then book.recordFill .buy tick
    else if tick.lastPrice < book.bestBid.getD 0 * (10001 / 10000) then book.recordFill .sell tick
    else book
  { book with
    toxicFlowScore := book.toxicFlowScore * (99 / 100)
    recentFills :=
      if book.recentFills.length > 100 then book.recentFills.tail else book.recentFills }

/-- `add_to_book`. -/
def addToBook (book : SimulatedOrderBook) (order : SimulatedOrder) : SimulatedOrderBook :=
  { book with
    levels := book.levels.insert order.price
      (((book.levels.lookup order.price).getD BookLevel.default).withOrder order) }

/-- `calculate_fill_probability`. -/
def calculateFillProbability (book : SimulatedOrderBook) (order : SimulatedOrder)
    (config : MatcherConfig) : ℚ :=
  let midPrice := (book.bestBid.getD 0 + book.bestAsk.getD f64Max) / 2
  let distanceBps := |order.price - midPrice| / midPrice * 10000
  let probability := 1 / 2 * (1 - min (distanceBps / 100) (9 / 10)) * config.queuePositionFactor *
    (1 + book.toxicFlowScore * (1 / 2))
  max 0 (min probability 1)

/-- `is_toxic_flow`. -/
def isToxicFlow (book : SimulatedOrderBook) (order : SimulatedOrder) : Bool :=
  if book.recentFills.isEmpty then false
  else
    let sameDirectionFills :=
      (book.recentFills.filter fun f => f.side = order.side ∧ f.wasAggressive = true).length
    (sameDirectionFills : ℚ) / book.recentFills.length > 7 / 10

/-- What the generator gives in a time step: for whether an incoming order hits the level, and
for how much of the quantity it takes. -/
abbrev Rng := Nat → ℚ × ℚ

/-- The loop of `simulate_incoming_flow`, with the steps that are left. -/
def incomingFlow (order : SimulatedOrder) (hitProbability : ℚ) (rng : Rng) :
    Nat → Nat → ℚ → ℚ
  | 0, _, remaining => remaining
  | steps + 1, i, remaining =>
      if remaining ≤ 0 then remaining
      else if (rng i).1 < hitProbability then
        let fillAmount := min remaining ((rng i).2 * order.quantity * (1 / 10))
        incomingFlow order hitProbability rng steps (i + 1) (remaining - fillAmount)
      else incomingFlow order hitProbability rng steps (i + 1) remaining

/-- `simulate_incoming_flow`. -/
def simulateIncomingFlow (order : SimulatedOrder) (baseProbability : ℚ)
    (config : MatcherConfig) (rng : Rng) : ℚ :=
  incomingFlow order (baseProbability * config.incomingFlowRate) rng config.simulationSteps 0
    order.quantity

/-- What a simulation returns, and the order and the book that it leaves. -/
structure Simulated where
  result : OrderSimulationResult
  order : SimulatedOrder
  book : SimulatedOrderBook

/-- The simulation of an order that does not cross the spread. -/
def simulateResting (book : SimulatedOrderBook) (order : SimulatedOrder) (config : MatcherConfig)
    (rng : Rng) : Simulated :=
  let result := OrderSimulationResult.new order.orderId
  -- The order is in the book before it is tested.
  let book := book.addToBook order
  let fillProbability := book.calculateFillProbability order config
  if config.modelAdverseSelection && book.isToxicFlow order then
    { result :=
        { result with
          rejectedReason := some "Adverse selection detected"
          wouldBeToxic := true }
      order := order
      book := book }
  else
    let remaining := simulateIncomingFlow order fillProbability config rng
    let filledQuantity := order.quantity - remaining
    { result :=
        { result with
          filledQuantity := filledQuantity
          remainingQuantity := remaining
          avgFillPrice := order.price
          partiallyFilled := remaining < order.quantity
          fullyFilled := remaining ≤ 0 }
      order := { order with filledQuantity := filledQuantity }
      book := book }

/-- The simulation of an order that crosses the spread. -/
def simulateCrossing (book : SimulatedOrderBook) (order : SimulatedOrder)
    (config : MatcherConfig) : Simulated :=
  let (result, book) := book.executeMarketOrder order config
  ⟨result, order, book⟩

/-- `simulate_buy_order`. -/
def simulateBuyOrder (book : SimulatedOrderBook) (order : SimulatedOrder) (config : MatcherConfig)
    (rng : Rng) : Simulated :=
  match book.bestAsk with
  | some bestAsk =>
      if order.price ≥ bestAsk then book.simulateCrossing order config
      else book.simulateResting order config rng
  | none => book.simulateResting order config rng

/-- `simulate_sell_order`. -/
def simulateSellOrder (book : SimulatedOrderBook) (order : SimulatedOrder) (config : MatcherConfig)
    (rng : Rng) : Simulated :=
  match book.bestBid with
  | some bestBid =>
      if order.price ≤ bestBid then book.simulateCrossing order config
      else book.simulateResting order config rng
  | none => book.simulateResting order config rng

/-- `simulate_limit_order`. -/
def simulateLimitOrder (book : SimulatedOrderBook) (order : SimulatedOrder)
    (config : MatcherConfig) (rng : Rng) : Simulated :=
  match order.side with
  | .buy => book.simulateBuyOrder order config rng
  | .sell => book.simulateSellOrder order config rng

/-- The cached best price of a side. -/
def best (book : SimulatedOrderBook) : Side → Option ℚ
  | .buy => book.bestBid
  | .sell => book.bestAsk

/-- The order crosses the spread. -/
def crosses (book : SimulatedOrderBook) (order : SimulatedOrder) : Bool :=
  (book.best order.side.opposite).any fun best => ! order.isBeyond best

/-- **The two ways of an order** are told apart by the cached prices. -/
theorem simulateLimitOrder_eq (book : SimulatedOrderBook) (order : SimulatedOrder)
    (config : MatcherConfig) (rng : Rng) :
    book.simulateLimitOrder order config rng =
      if book.crosses order then book.simulateCrossing order config
      else book.simulateResting order config rng := by
  unfold simulateLimitOrder crosses
  cases hside : order.side with
  | buy =>
      unfold simulateBuyOrder
      cases hbest : book.bestAsk with
      | none => simp [best, Side.opposite, hbest]
      | some price => simp [best, Side.opposite, hbest, SimulatedOrder.isBeyond, hside]
  | sell =>
      unfold simulateSellOrder
      cases hbest : book.bestBid with
      | none => simp [best, Side.opposite, hbest]
      | some price => simp [best, Side.opposite, hbest, SimulatedOrder.isBeyond, hside]

/-! ## Rejected orders -/

/-- The order is rejected for adverse selection. -/
def rejects (book : SimulatedOrderBook) (order : SimulatedOrder) (config : MatcherConfig) : Bool :=
  ! book.crosses order && config.modelAdverseSelection && book.isToxicFlow order

/-- **A rejected order leaves no trace** in the levels. -/
def Traceless (book : SimulatedOrderBook) (order : SimulatedOrder) (config : MatcherConfig)
    (rng : Rng) : Prop :=
  (book.simulateLimitOrder order config rng).result.rejectedReason.isSome = true →
    ∀ p, (book.simulateLimitOrder order config rng).book.levels.lookup p = book.levels.lookup p

/-- Where there is no level, a new one starts from no volume. -/
theorem volume_getD (levels : AList fun _ : ℚ => BookLevel) (side : Side) (price : ℚ) :
    ((levels.lookup price).getD BookLevel.default).volume side = volumeAt levels side price := by
  unfold volumeAt amount
  cases levels.lookup price with
  | none => cases side <;> rfl
  | some level => rfl

/-- An order that is added is in the book. -/
theorem lookup_addToBook_ne (book : SimulatedOrderBook) (order : SimulatedOrder) :
    (book.addToBook order).levels.lookup order.price ≠ book.levels.lookup order.price := by
  unfold addToBook
  rw [AList.lookup_insert]
  cases book.levels.lookup order.price with
  | none => exact nofun
  | some level => exact fun heq => BookLevel.withOrder_ne level order (Option.some.inj heq)

/-- **An order leaves no trace** exactly if it is not rejected. -/
theorem traceless_iff (book : SimulatedOrderBook) (order : SimulatedOrder)
    (config : MatcherConfig) (rng : Rng) :
    Traceless book order config rng ↔ book.rejects order config = false := by
  have htoxic : (book.addToBook order).isToxicFlow order = book.isToxicFlow order := rfl
  unfold Traceless rejects
  rw [simulateLimitOrder_eq]
  cases hcrosses : book.crosses order with
  | true => exact iff_of_true nofun rfl
  | false =>
      cases hrejected : config.modelAdverseSelection && book.isToxicFlow order with
      | true =>
          have hresting : book.simulateResting order config rng =
              { result :=
                  { OrderSimulationResult.new order.orderId with
                    rejectedReason := some "Adverse selection detected"
                    wouldBeToxic := true }
                order := order
                book := book.addToBook order } := by
            unfold simulateResting
            exact if_pos (htoxic.symm ▸ hrejected)
          rw [if_neg (by decide), hresting]
          refine iff_of_false (fun h => ?_) (by simp [hrejected])
          exact book.lookup_addToBook_ne order (h rfl order.price)
      | false =>
          have hkept : (book.simulateResting order config rng).result.rejectedReason = none := by
            unfold simulateResting
            dsimp only
            rw [htoxic, hrejected]
            rfl
          rw [if_neg (by decide), hkept]
          exact iff_of_true nofun (by simp [hrejected])

/-! ## The best prices -/

end SimulatedOrderBook

/-- A price is not worse than another one for those who take the side. -/
def Side.NoWorse : Side → ℚ → ℚ → Prop
  | .buy, p, p' => p' ≤ p
  | .sell, p, p' => p ≤ p'

/-- **The best price of a side**: there is volume at it, and none at a better price; and there
is none only if there is no volume. -/
def IsBest (side : Side) (volume : ℚ → ℚ) : Option ℚ → Prop
  | none => ∀ p, volume p ≤ 0
  | some best => 0 < volume best ∧ ∀ p, 0 < volume p → side.NoWorse best p

/-- A price is no worse than itself. -/
theorem Side.NoWorse.refl (side : Side) (p : ℚ) : side.NoWorse p p := by
  cases side <;> exact le_refl p

/-- Nothing that is no worse is passed over. -/
theorem Side.NoWorse.not_before {side : Side} {p p' : ℚ} (h : side.opposite.NoWorse p p') :
    ¬ side.Before p' p := by
  cases side <;> exact not_lt.mpr h

/-- A change of the volume at a price keeps the best price. -/
def KeepsBest (side : Side) (best : Option ℚ) (price volume : ℚ) : Prop :=
  match best with
  | none => volume ≤ 0
  | some b => if price = b then 0 < volume else 0 < volume → side.NoWorse b price

/-- **A change at one price** keeps the best price just when `KeepsBest` says so. -/
theorem isBest_update_iff {side : Side} {volume : ℚ → ℚ} {best : Option ℚ}
    (h : IsBest side volume best) (price v : ℚ) :
    IsBest side (Function.update volume price v) best ↔ KeepsBest side best price v := by
  cases best with
  | none =>
      constructor
      · intro hbest
        exact (Function.update_self price v volume) ▸ hbest price
      · intro hv p
        by_cases hp : p = price
        · rw [hp, Function.update_self]
          exact hv
        · rw [Function.update_of_ne hp]
          exact h p
  | some b =>
      unfold KeepsBest
      dsimp only
      split_ifs with hb
      · subst hb
        refine ⟨fun hbest => (Function.update_self price v volume) ▸ hbest.1, fun hv => ⟨?_, ?_⟩⟩
        · rwa [Function.update_self]
        · intro p hp
          by_cases heq : p = price
          · rw [heq]
            exact .refl side price
          · rw [Function.update_of_ne heq] at hp
            exact h.2 p hp
      · constructor
        · intro hbest hv
          exact hbest.2 price (by rwa [Function.update_self])
        · intro hv
          refine ⟨by rw [Function.update_of_ne (Ne.symm hb)]; exact h.1, fun p hp => ?_⟩
          by_cases heq : p = price
          · rw [heq, Function.update_self] at hp
            exact heq ▸ hv hp
          · rw [Function.update_of_ne heq] at hp
            exact h.2 p hp

namespace SimulatedOrderBook

/-- A call on a book. -/
inductive BookCall where
  | snapshot (bids asks : List Level) (timestampNs : Nat)
  | tick (tick : Tick)
  | order (order : SimulatedOrder) (config : MatcherConfig) (rng : Rng)

/-- The book that a call leaves. -/
def call (book : SimulatedOrderBook) : BookCall → SimulatedOrderBook
  | .snapshot bids asks timestampNs => book.updateFromSnapshot bids asks timestampNs
  | .tick tick => book.updateFromTick tick
  | .order order config rng => (book.simulateLimitOrder order config rng).book

/-- **The cached prices are the best ones.** -/
def BestsRight (book : SimulatedOrderBook) : Prop :=
  ∀ side, IsBest side (volumeAt book.levels side) (book.best side)

/-! ### Snapshots -/

/-- The volume listed last at a price. -/
def lastVolume (levels : List Level) (price : ℚ) : ℚ :=
  ((LastWrite.last (fun level => level.price = price) levels).map (·.volume)).getD 0

/-- A level of a snapshot replaces the volume at its price, -/
theorem volumeAt_writeLevel (side : Side) (levels : AList fun _ : ℚ => BookLevel) (level : Level) :
    volumeAt (writeLevel side levels level) side =
      Function.update (volumeAt levels side) level.price level.volume := by
  rw [writeLevel, volumeAt_insert, BookLevel.volume_withVolume]

/-- on its own side only. -/
theorem volumeAt_writeLevel_of_ne {side side' : Side} (h : side' ≠ side)
    (levels : AList fun _ : ℚ => BookLevel) (level : Level) :
    volumeAt (writeLevel side levels level) side' = volumeAt levels side' := by
  rw [writeLevel, volumeAt_insert, BookLevel.volume_withVolume_of_ne _ h, volume_getD,
    Function.update_eq_self]

/-- Of several levels at one price the last one counts, -/
theorem volumeAt_foldl_writeLevel (side : Side) (written : List Level)
    (levels : AList fun _ : ℚ => BookLevel) (p : ℚ) :
    volumeAt (written.foldl (writeLevel side) levels) side p =
      ((LastWrite.last (fun level => level.price = p) written).map (·.volume)).getD
        (volumeAt levels side p) :=
  LastWrite.read_foldl (fun levels => volumeAt levels side p) (writeLevel side) (·.volume)
    (fun level => level.price = p)
    (fun levels level hp => by
      rw [volumeAt_writeLevel, ← of_decide_eq_true hp, Function.update_self])
    (fun levels level hp => by
      rw [volumeAt_writeLevel, Function.update_of_ne (Ne.symm (of_decide_eq_false hp))])
    written levels

/-- and the other side is as it was. -/
theorem volumeAt_foldl_writeLevel_of_ne {side side' : Side} (h : side' ≠ side)
    (written : List Level) (levels : AList fun _ : ℚ => BookLevel) :
    volumeAt (written.foldl (writeLevel side) levels) side' = volumeAt levels side' := by
  induction written generalizing levels with
  | nil => rfl
  | cons level written ih => exact (ih _).trans (volumeAt_writeLevel_of_ne h levels level)

/-- **The volumes after a snapshot** are those listed last. -/
theorem volumeAt_updateFromSnapshot (book : SimulatedOrderBook) (bids asks : List Level)
    (timestampNs : Nat) :
    volumeAt (book.updateFromSnapshot bids asks timestampNs).levels .buy = lastVolume bids ∧
      volumeAt (book.updateFromSnapshot bids asks timestampNs).levels .sell = lastVolume asks := by
  have hempty : volumeAt ∅ .sell = fun _ => 0 := rfl
  constructor
  · unfold updateFromSnapshot
    dsimp only
    rw [volumeAt_foldl_writeLevel_of_ne (by decide)]
    exact funext fun p => volumeAt_foldl_writeLevel .buy bids ∅ p
  · funext p
    unfold updateFromSnapshot
    dsimp only
    rw [volumeAt_foldl_writeLevel, volumeAt_foldl_writeLevel_of_ne (by decide), hempty]
    rfl

/-! ### Orders -/

/-- An order that rests adds to the volume at its price, -/
theorem volumeAt_addToBook (book : SimulatedOrderBook) (order : SimulatedOrder) :
    volumeAt (book.addToBook order).levels order.side =
      Function.update (volumeAt book.levels order.side) order.price
        (volumeAt book.levels order.side order.price + order.quantity) := by
  unfold addToBook
  rw [volumeAt_insert, BookLevel.volume_withOrder, if_pos rfl, volume_getD]

/-- on its own side only. -/
theorem volumeAt_addToBook_of_ne (book : SimulatedOrderBook) {order : SimulatedOrder} {side : Side}
    (h : side ≠ order.side) :
    volumeAt (book.addToBook order).levels side = volumeAt book.levels side := by
  unfold addToBook
  rw [volumeAt_insert, BookLevel.volume_withOrder, if_neg h, volume_getD, Function.update_eq_self]

/-- A resting order is in the book, whatever becomes of it. -/
theorem book_simulateResting (book : SimulatedOrderBook) (order : SimulatedOrder)
    (config : MatcherConfig) (rng : Rng) :
    (book.simulateResting order config rng).book = book.addToBook order := by
  unfold simulateResting
  dsimp only
  split <;> rfl

/-- An execution leaves the cached prices. -/
theorem best_simulateCrossing (book : SimulatedOrderBook) (order : SimulatedOrder)
    (config : MatcherConfig) (side : Side) :
    (book.simulateCrossing order config).book.best side = book.best side := by
  cases side <;> rfl

/-- Nothing is executed for no quantity. -/
theorem levels_executeMarketOrder_of_neg {book : SimulatedOrderBook} {order : SimulatedOrder}
    (hquantity : order.quantity < 0) (config : MatcherConfig) :
    (book.executeMarketOrder order config).2.levels = book.levels := by
  rw [(executeMarketOrder_of_loop config rfl).1]
  cases pricesToCheck book.levels order.side with
  | nil => rfl
  | cons p ps => rw [fillLoop, if_pos hquantity.le]

/-- An execution leaves the volumes of the side of the order. -/
theorem volumeAt_executeMarketOrder_of_ne (book : SimulatedOrderBook) (order : SimulatedOrder)
    (config : MatcherConfig) {side : Side} (h : side ≠ order.side.opposite) :
    volumeAt (book.executeMarketOrder order config).2.levels side = volumeAt book.levels side := by
  by_cases hquantity : 0 ≤ order.quantity
  · have hredrawn := (draws_execution book.levels hquantity).redrawn
    rw [(executeMarketOrder_of_loop config rfl).1]
    funext p
    unfold volumeAt amount
    rw [hredrawn p]
    cases book.levels.lookup p with
    | none => rfl
    | some level => exact BookLevel.volume_withVolume_of_ne level h _
  · rw [levels_executeMarketOrder_of_neg (not_le.mp hquantity)]

/-- The best price is the first that an execution draws on. -/
theorem exists_drawnPrices_eq {levels : AList fun _ : ℚ => BookLevel} {order : SimulatedOrder}
    {b : ℚ} (hbest : IsBest order.side.opposite (volumeAt levels order.side.opposite) (some b))
    (hwithin : order.isBeyond b = false) : ∃ ps, drawnPrices levels order = b :: ps := by
  have hmem : b ∈ drawnPrices levels order := mem_drawnPrices.mpr ⟨hbest.1, hwithin⟩
  have horder := pairwise_drawnPrices levels order
  cases hprices : drawnPrices levels order with
  | nil =>
      rw [hprices] at hmem
      exact absurd hmem nofun
  | cons p ps =>
      have hp : 0 < volumeAt levels order.side.opposite p :=
        (mem_drawnPrices.mp (hprices ▸ List.mem_cons_self)).1
      rw [hprices] at hmem horder
      rcases List.mem_cons.mp hmem with rfl | hb
      · exact ⟨ps, rfl⟩
      · exact absurd ((List.pairwise_cons.mp horder).1 b hb) (hbest.2 p hp).not_before

/-- **An execution keeps the best price** exactly if it leaves some of the volume at it. -/
theorem isBest_execution_iff {book : SimulatedOrderBook} {order : SimulatedOrder} {b : ℚ}
    (hbest : IsBest order.side.opposite (volumeAt book.levels order.side.opposite) (some b))
    (hwithin : order.isBeyond b = false) (config : MatcherConfig) :
    IsBest order.side.opposite
        (volumeAt (book.executeMarketOrder order config).2.levels order.side.opposite) (some b) ↔
      order.quantity < volumeAt book.levels order.side.opposite b := by
  by_cases hquantity : 0 ≤ order.quantity
  · obtain ⟨s, hs⟩ : ∃ s, fillLoop order (pricesToCheck book.levels order.side)
        ⟨book.levels, order.quantity, 0, 0⟩ = s := ⟨_, rfl⟩
    rw [(executeMarketOrder_of_loop config hs).1]
    have hrationed := rationed_execution book.levels hquantity hs
    have hdraws := draws_execution book.levels hquantity
    obtain ⟨ps, hps⟩ := exists_drawnPrices_eq hbest hwithin
    have hhead : volumeAt s.levels order.side.opposite b =
        volumeAt book.levels order.side.opposite b -
          min order.quantity (volumeAt book.levels order.side.opposite b) := by
      rw [← hs, hdraws.volumes, hps]
      refine Rationing.drawAll_head ?_ _ ?_
      · exact hps ▸ (pairwise_drawnPrices book.levels order).imp Side.Before.ne
      · exact fun p hp => (mem_drawnPrices.mp (hps.symm ▸ hp)).1.le
    have hleft : 0 < volumeAt s.levels order.side.opposite b ↔
        order.quantity < volumeAt book.levels order.side.opposite b := by
      rw [hhead, sub_pos, min_lt_iff, or_iff_left (lt_irrefl _)]
    refine Iff.trans ⟨fun h => h.1, fun h => ⟨h, fun p hp => ?_⟩⟩ hleft
    exact hbest.2 p (hp.trans_le (hrationed.le p))
  · rw [levels_executeMarketOrder_of_neg (not_le.mp hquantity)]
    exact iff_of_true hbest ((not_le.mp hquantity).trans hbest.1)

/-! ### Runs -/

/-- **A call fits the book it comes to**: a snapshot lists a best price of each side first, an
order that crosses the spread leaves some of the volume at the best price, and any other order
is not better than the best price of its side. -/
def Fits (book : SimulatedOrderBook) : BookCall → Prop
  | .snapshot bids asks _ =>
      IsBest .buy (lastVolume bids) (bids.head?.map (·.price)) ∧
        IsBest .sell (lastVolume asks) (asks.head?.map (·.price))
  | .tick _ => True
  | .order order _ _ =>
      if book.crosses order then
        ∀ b, book.best order.side.opposite = some b →
          order.quantity < volumeAt book.levels order.side.opposite b
      else
        KeepsBest order.side (book.best order.side) order.price
          (volumeAt book.levels order.side order.price + order.quantity)

/-- Both sides, seen from one of them. -/
theorem forall_side_iff {P : Side → Prop} (side : Side) :
    (∀ s, P s) ↔ P side ∧ P side.opposite := by
  constructor
  · exact fun h => ⟨h side, h side.opposite⟩
  · rintro ⟨h, h'⟩ s
    cases side <;> cases s <;> assumption

/-- A side is not its opposite. -/
theorem opposite_ne (side : Side) : side ≠ side.opposite := by
  cases side <;> exact nofun

/-- A tick leaves the levels and the cached prices. -/
theorem updateFromTick_frame (book : SimulatedOrderBook) (tick : Tick) :
    (book.updateFromTick tick).levels = book.levels ∧
      ∀ side, (book.updateFromTick tick).best side = book.best side := by
  unfold updateFromTick
  dsimp only
  split_ifs <;> exact ⟨rfl, fun side => by cases side <;> rfl⟩

/-- **A call leaves right prices** exactly if it fits. -/
theorem bestsRight_call_iff {book : SimulatedOrderBook} (h : book.BestsRight) (call : BookCall) :
    (book.call call).BestsRight ↔ book.Fits call := by
  cases call with
  | snapshot bids asks timestampNs =>
      obtain ⟨hbids, hasks⟩ := volumeAt_updateFromSnapshot book bids asks timestampNs
      refine (forall_side_iff .buy).trans (and_congr ?_ ?_)
      · exact iff_of_eq (congrArg (IsBest .buy · _) hbids)
      · exact iff_of_eq (congrArg (IsBest .sell · _) hasks)
  | tick tick =>
      obtain ⟨hlevels, hbest⟩ := updateFromTick_frame book tick
      refine iff_of_true (fun side => ?_) trivial
      rw [call, hlevels, hbest]
      exact h side
  | order order config rng =>
      unfold call Fits
      dsimp only
      rw [simulateLimitOrder_eq]
      refine (forall_side_iff order.side).trans ?_
      cases hcrosses : book.crosses order with
      | true =>
          obtain ⟨b, hb, hwithin⟩ := (Option.any_eq_true _ _).mp hcrosses
          have hbest := h order.side.opposite
          rw [hb] at hbest
          have hown : volumeAt (book.simulateCrossing order config).book.levels order.side =
              volumeAt book.levels order.side :=
            volumeAt_executeMarketOrder_of_ne book order config (opposite_ne order.side)
          rw [if_pos rfl, if_pos rfl, best_simulateCrossing, best_simulateCrossing, hown, hb]
          refine (and_iff_right (h order.side)).trans ?_
          refine (isBest_execution_iff hbest (by simpa using hwithin) config).trans ?_
          exact ⟨fun hq b' hb' => Option.some.inj hb' ▸ hq, fun hq => hq b rfl⟩
      | false =>
          rw [if_neg (by decide), if_neg (by decide), book_simulateResting, volumeAt_addToBook,
            volumeAt_addToBook_of_ne book (opposite_ne order.side).symm]
          exact (and_iff_left (h order.side.opposite)).trans
            (isBest_update_iff (h order.side) order.price _)

/-- An empty book has no best prices, and caches none. -/
theorem bestsRight_new (symbol : String) : (new symbol).BestsRight := by
  intro side
  cases side <;> exact fun p => le_refl (0 : ℚ)

/-- One call. -/
def step (book : SimulatedOrderBook) (call : BookCall) : Option SimulatedOrderBook :=
  some (book.call call)

/-- The caches are right throughout a run exactly if every call fits. -/
theorem allStates_bestsRight_iff (symbol : String) (calls : List BookCall) :
    AllStates step BestsRight (new symbol) calls ↔
      AllSteps step (fun book call _ => book.Fits call) (new symbol) calls := by
  refine (allSteps_iff_allStates (fun _ h => h)
    (fun book call book' h hstep hfits => ?_)
    (fun book call book' h hstep hright => ?_) (bestsRight_new symbol) calls).symm
  · cases hstep
    exact (bestsRight_call_iff h call).mpr hfits
  · cases hstep
    exact (bestsRight_call_iff h call).mp hright

/-- **When the book is faithful**: an order leaves no trace exactly if it is not rejected, and
the cached prices are the best ones throughout a run exactly if every call fits the book it
comes to. -/
theorem tracelessAndBest_iff (book : SimulatedOrderBook) (order : SimulatedOrder)
    (config : MatcherConfig) (rng : Rng) (symbol : String) (calls : List BookCall) :
    (Traceless book order config rng ↔ book.rejects order config = false) ∧
      (AllStates step BestsRight (new symbol) calls ↔
        AllSteps step (fun book call _ => book.Fits call) (new symbol) calls) :=
  ⟨traceless_iff book order config rng, allStates_bestsRight_iff symbol calls⟩

/-- A book after ten aggressive buys. -/
def toxic : SimulatedOrderBook :=
  { new "X" with recentFills := List.replicate 10 ⟨0, .buy, 100, 1, true⟩ }

/-- A rejected buy stays in the book, and a buy at a new price becomes the best bid, which the
cache does not know. -/
theorem not_forall_tracelessAndBest :
    (¬ ∀ (book : SimulatedOrderBook) (order : SimulatedOrder) (config : MatcherConfig)
        (rng : Rng), Traceless book order config rng) ∧
      ¬ ∀ (symbol : String) (calls : List BookCall),
        AllStates step BestsRight (new symbol) calls := by
  constructor
  · intro h
    have hkept := (traceless_iff _ _ _ _).mp
      (h toxic ⟨1, "X", .buy, 99, 1, 0, 0, 0⟩ .default fun _ => 0)
    have hrejected : toxic.rejects ⟨1, "X", .buy, 99, 1, 0, 0, 0⟩ .default = true := by
      norm_num [rejects, crosses, best, isToxicFlow, toxic, new, MatcherConfig.default,
        Side.opposite]
    exact absurd (hrejected.symm.trans hkept) (by decide)
  · intro h
    have hfits := (allStates_bestsRight_iff _ _).mp
      (h "X" [.order ⟨1, "X", .buy, 99, 1, 0, 0, 0⟩ .default fun _ => 0])
    have hnone : (0 : ℚ) + 1 ≤ 0 := hfits.1
    exact absurd hnone (by norm_num)

end SimulatedOrderBook

end StopTrading.Backtest
