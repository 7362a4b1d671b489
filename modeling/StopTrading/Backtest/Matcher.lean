import StopTrading.Backtest.Engine
import StopTrading.Library.KeyedProfile
import StopTrading.Library.Rationing
import Mathlib.Algebra.Order.Field.Basic
import Mathlib.Data.List.Sort

/-!
# The simulated book of the backtest

`SimulatedOrderBook` keeps a level for each price, with the volume and the orders of both
sides, and caches the best prices.  An order that crosses the spread is executed against the
volumes of the other side; any other order is put into the book and filled by chance.  Prices
and quantities are exact rationals, and the random draws are given.

An execution draws on the volumes in the order of the prices: `executeMarketOrder_fair` says
that nothing is lost, that no price beyond the limit and no price behind a better one that
still has volume is consumed, and that the order is filled if there is enough volume.

### What is load-bearing

The loop of `execute_market_order` goes through the prices that had volume when it started, from
the best one on, and stops at the first one beyond the limit.  It is described by what it does to
the *volumes* as a function of the price (`Draws`), which is `Rationing.drawAll` of the library;
that the levels of the book are otherwise untouched is `Redrawn`.  From there on fairness is a
fact about rationing over a list of prices in an order, and the book does not occur in it.

Three properties of the list are used.  Its prices are pairwise different and in the order of the
side (`pairwise_pricesToCheck`), they are just those with volume (`mem_pricesToCheck`), and the
part within the limit is an initial part of it (`isBeyond_of_before`): so nothing within the
limit is left behind a price that stops the loop.
-/

namespace StopTrading.Backtest

open KeyedProfile KeyedTotal

/-! ## The data -/

/-- `SimulatedOrder`. -/
structure SimulatedOrder where
  orderId : Nat
  symbol : String
  side : Side
  price : ℚ
  quantity : ℚ
  filledQuantity : ℚ
  timestampNs : Nat
  priority : Nat
  deriving Repr, DecidableEq

/-- `BookLevel`. -/
structure BookLevel where
  bids : List SimulatedOrder
  asks : List SimulatedOrder
  totalBidVolume : ℚ
  totalAskVolume : ℚ
  deriving Repr, DecidableEq

/-- `FillEvent`. -/
structure Matcher.FillEvent where
  timestampNs : Nat
  side : Side
  price : ℚ
  quantity : ℚ
  wasAggressive : Bool
  deriving Repr, DecidableEq

/-- `SimulatedOrderBook`. -/
structure SimulatedOrderBook where
  symbol : String
  levels : AList fun _ : ℚ => BookLevel
  bestBid : Option ℚ
  bestAsk : Option ℚ
  lastUpdateNs : Nat
  toxicFlowScore : ℚ
  recentFills : List Matcher.FillEvent

/-- `Level`, as the snapshots give it. -/
structure Level where
  price : ℚ
  volume : ℚ
  deriving Repr, DecidableEq

/-- `Tick`, as far as the book reads it. -/
structure Tick where
  timestampNs : Nat
  lastPrice : ℚ
  volume : ℚ
  deriving Repr, DecidableEq

/-- `MatcherConfig`. -/
structure MatcherConfig where
  modelAdverseSelection : Bool
  applySlippage : Bool
  slippageBps : ℚ
  queuePositionFactor : ℚ
  incomingFlowRate : ℚ
  simulationSteps : Nat
  deriving Repr, DecidableEq

/-- `MatcherConfig::default`. -/
def MatcherConfig.default : MatcherConfig where
  modelAdverseSelection := true
  applySlippage := true
  slippageBps := 2
  queuePositionFactor := 1 / 2
  incomingFlowRate := 3 / 10
  simulationSteps := 100

/-- `OrderSimulationResult`. -/
structure OrderSimulationResult where
  orderId : Nat
  filledQuantity : ℚ
  remainingQuantity : ℚ
  avgFillPrice : ℚ
  fullyFilled : Bool
  partiallyFilled : Bool
  rejectedReason : Option String
  wouldBeToxic : Bool
  fillEvents : List Matcher.FillEvent
  deriving Repr, DecidableEq

/-- `OrderSimulationResult::new`. -/
def OrderSimulationResult.new (orderId : Nat) : OrderSimulationResult where
  orderId := orderId
  filledQuantity := 0
  remainingQuantity := 0
  avgFillPrice := 0
  fullyFilled := false
  partiallyFilled := false
  rejectedReason := none
  wouldBeToxic := false
  fillEvents := []

/-! ## The volumes of a side -/

/-- The other side. -/
def Side.opposite : Side → Side
  | .buy => .sell
  | .sell => .buy

namespace BookLevel

/-- `default`. -/
def default : BookLevel := ⟨[], [], 0, 0⟩

/-- The total volume of a side: that of the bids for buys, that of the asks for sells. -/
def volume (level : BookLevel) : Side → ℚ
  | .buy => level.totalBidVolume
  | .sell => level.totalAskVolume

/-- The level with another total volume of a side. -/
def withVolume (level : BookLevel) (side : Side) (volume : ℚ) : BookLevel :=
  match side with
  | .buy => { level with totalBidVolume := volume }
  | .sell => { level with totalAskVolume := volume }

/-- A volume that is written is read, -/
@[simp] theorem volume_withVolume (level : BookLevel) (side : Side) (v : ℚ) :
    (level.withVolume side v).volume side = v := by
  cases side <;> rfl

/-- and that of the other side is as it was. -/
theorem volume_withVolume_of_ne (level : BookLevel) {side side' : Side} (h : side' ≠ side) (v : ℚ) :
    (level.withVolume side v).volume side' = level.volume side' := by
  cases side <;> cases side' <;> first | rfl | exact absurd rfl h

/-- Writing what is there changes nothing, -/
@[simp] theorem withVolume_volume (level : BookLevel) (side : Side) :
    level.withVolume side (level.volume side) = level := by
  cases side <;> rfl

/-- and the last write counts. -/
@[simp] theorem withVolume_withVolume (level : BookLevel) (side : Side) (v w : ℚ) :
    (level.withVolume side v).withVolume side w = level.withVolume side w := by
  cases side <;> rfl

end BookLevel

/-- The total volume of a side at a price, zero where there is no level. -/
def volumeAt (levels : AList fun _ : ℚ => BookLevel) (side : Side) (price : ℚ) : ℚ :=
  amount (fun level : BookLevel => level.volume side) levels price

/-- The volume at a price with a level is that of the level. -/
theorem volumeAt_of_lookup {levels : AList fun _ : ℚ => BookLevel} {price : ℚ} {level : BookLevel}
    (h : levels.lookup price = some level) (side : Side) :
    volumeAt levels side price = level.volume side := by
  rw [volumeAt, amount, h]
  rfl

/-- A level that is written changes the volumes at its price, and nowhere else. -/
theorem volumeAt_insert (levels : AList fun _ : ℚ => BookLevel) (side : Side) (price : ℚ)
    (level : BookLevel) :
    volumeAt (levels.insert price level) side =
      Function.update (volumeAt levels side) price (level.volume side) := by
  funext p
  unfold volumeAt amount
  by_cases h : p = price
  · subst h
    rw [AList.lookup_insert, Function.update_self]
    rfl
  · rw [AList.lookup_insert_ne h, Function.update_of_ne h]

/-- The prices of the book, from the lowest up. -/
def sortedPrices (levels : AList fun _ : ℚ => BookLevel) : List ℚ :=
  levels.keys.insertionSort (· ≤ ·)

/-! ## Executing an order -/

namespace SimulatedOrder

/-- The order does not go as far as the price. -/
def isBeyond (order : SimulatedOrder) (price : ℚ) : Bool :=
  (order.side = .buy ∧ price > order.price) ∨ (order.side = .sell ∧ price < order.price)

end SimulatedOrder

/-- `prices_to_check`. -/
def pricesToCheck (levels : AList fun _ : ℚ => BookLevel) (side : Side) : List ℚ :=
  let hasVolume := fun p =>
    (levels.lookup p).elim false fun level => decide (level.volume side.opposite > 0)
  match side with
  | .buy => (sortedPrices levels).filter hasVolume
  | .sell => (sortedPrices levels).reverse.filter hasVolume

/-- What the loop of `execute_market_order` changes. -/
structure Fills where
  levels : AList fun _ : ℚ => BookLevel
  remaining : ℚ
  totalCost : ℚ
  fillCount : Nat

/-- A round of the loop that is not skipped. -/
def Fills.fillAt (s : Fills) (side : Side) (price : ℚ) : Fills :=
  match s.levels.lookup price with
  | none => s
  | some level =>
      let available := level.volume side.opposite
      let fillQty := min s.remaining available
      if fillQty > 0 then
        { levels := s.levels.insert price (level.withVolume side.opposite (available - fillQty))
          remaining := s.remaining - fillQty
          totalCost := s.totalCost + fillQty * price
          fillCount := s.fillCount + 1 }
      else s

/-- The loop of `execute_market_order`. -/
def fillLoop (order : SimulatedOrder) : List ℚ → Fills → Fills
  | [], s => s
  | price :: prices, s =>
      if s.remaining ≤ 0 then s
      else if order.isBeyond price then fillLoop order prices s
      else fillLoop order prices (s.fillAt order.side price)

namespace SimulatedOrderBook

/-- `execute_market_order`. -/
def executeMarketOrder (book : SimulatedOrderBook) (order : SimulatedOrder)
    (config : MatcherConfig) : OrderSimulationResult × SimulatedOrderBook :=
  let s := fillLoop order (pricesToCheck book.levels order.side) ⟨book.levels, order.quantity, 0, 0⟩
  let filledQuantity := order.quantity - s.remaining
  let avgFillPrice := if filledQuantity > 0 then s.totalCost / filledQuantity else 0
  ({ OrderSimulationResult.new order.orderId with
      filledQuantity := filledQuantity
      remainingQuantity := s.remaining
      avgFillPrice :=
        if config.applySlippage then avgFillPrice * (1 + config.slippageBps / 10000)
        else avgFillPrice
      fullyFilled := s.remaining ≤ 0
      partiallyFilled := ¬ s.remaining ≤ 0 ∧ filledQuantity > 0 },
    { book with levels := s.levels })

end SimulatedOrderBook

/-! ## What the loop draws -/

/-- One side of the levels has other volumes, and nothing else has changed. -/
def Redrawn (side : Side) (levels levels' : AList fun _ : ℚ => BookLevel) : Prop :=
  ∀ p, levels'.lookup p =
    (levels.lookup p).map fun level => level.withVolume side (volumeAt levels' side p)

/-- Nothing was drawn, -/
theorem Redrawn.refl (side : Side) (levels : AList fun _ : ℚ => BookLevel) :
    Redrawn side levels levels := by
  intro p
  cases h : levels.lookup p with
  | none => rfl
  | some level => rw [volumeAt_of_lookup h, Option.map_some, BookLevel.withVolume_volume]

/-- or something, and then something else, -/
theorem Redrawn.trans {side : Side} {levels levels' levels'' : AList fun _ : ℚ => BookLevel}
    (h : Redrawn side levels levels') (h' : Redrawn side levels' levels'') :
    Redrawn side levels levels'' := by
  intro p
  rw [h' p, h p, Option.map_map]
  congr 1
  funext level
  exact BookLevel.withVolume_withVolume level side _ _

/-- or the volume at one price. -/
theorem Redrawn.insert {side : Side} {levels : AList fun _ : ℚ => BookLevel} {price : ℚ}
    {level : BookLevel} (h : levels.lookup price = some level) (v : ℚ) :
    Redrawn side levels (levels.insert price (level.withVolume side v)) := by
  intro p
  by_cases hp : p = price
  · subst hp
    rw [AList.lookup_insert, h, Option.map_some, volumeAt_insert, Function.update_self,
      BookLevel.volume_withVolume]
  · rw [AList.lookup_insert_ne hp, volumeAt_insert, Function.update_of_ne hp]
    exact Redrawn.refl side levels p

/-- **The loop draws on the volumes** of some prices in their order. -/
structure Draws (side : Side) (prices : List ℚ) (s s' : Fills) : Prop where
  /-- the volumes are those that rationing leaves -/
  volumes : volumeAt s'.levels side =
    (Rationing.drawAll prices (volumeAt s.levels side) s.remaining).1
  /-- as is the rest of the order -/
  remaining : s'.remaining = (Rationing.drawAll prices (volumeAt s.levels side) s.remaining).2
  /-- nothing but volumes has changed -/
  redrawn : Redrawn side s.levels s'.levels
  /-- and what has left the book has gone into the order -/
  total : total (fun level => level.volume side) s'.levels + s.remaining =
    total (fun level => level.volume side) s.levels + s'.remaining

/-- A round, and the rounds after it. -/
theorem Draws.cons {side : Side} {price : ℚ} {prices : List ℚ} {s s' s'' : Fills}
    (h : Draws side [price] s s') (h' : Draws side prices s' s'') :
    Draws side (price :: prices) s s'' := by
  refine ⟨?_, ?_, h.redrawn.trans h'.redrawn, ?_⟩
  · rw [h'.volumes, h.volumes, h.remaining]
    rfl
  · rw [h'.remaining, h.volumes, h.remaining]
    rfl
  · have htotal := h.total
    have htotal' := h'.total
    linarith

/-- A round that is not skipped draws on the volume at its price. -/
theorem draws_fillAt {s : Fills} {side : Side} {price : ℚ} (hremaining : 0 < s.remaining)
    (hvolume : 0 < volumeAt s.levels side.opposite price) :
    Draws side.opposite [price] s (s.fillAt side price) := by
  obtain ⟨level, hlevel⟩ : ∃ level, s.levels.lookup price = some level := by
    cases h : s.levels.lookup price with
    | none =>
        rw [volumeAt, amount, h] at hvolume
        exact absurd hvolume (lt_irrefl _)
    | some level => exact ⟨level, rfl⟩
  have hvol := volumeAt_of_lookup hlevel side.opposite
  have hqty : min s.remaining (level.volume side.opposite) > 0 :=
    lt_min hremaining (hvol ▸ hvolume)
  have hround : s.fillAt side price =
      { levels := s.levels.insert price (level.withVolume side.opposite
          (level.volume side.opposite - min s.remaining (level.volume side.opposite)))
        remaining := s.remaining - min s.remaining (level.volume side.opposite)
        totalCost := s.totalCost + min s.remaining (level.volume side.opposite) * price
        fillCount := s.fillCount + 1 } := by
    unfold Fills.fillAt
    rw [hlevel]
    exact if_pos hqty
  rw [hround]
  refine ⟨?_, ?_, Redrawn.insert hlevel _, ?_⟩
  · rw [volumeAt_insert, BookLevel.volume_withVolume, ← hvol]
    rfl
  · rw [← hvol]
    rfl
  · have hinsert := total_insert (fun level : BookLevel => level.volume side.opposite) s.levels
      price (level.withVolume side.opposite
        (level.volume side.opposite - min s.remaining (level.volume side.opposite)))
    rw [hlevel, Option.elim_some, BookLevel.volume_withVolume] at hinsert
    dsimp only
    linarith

/-- The prices of a list that the order goes as far as. -/
def within (order : SimulatedOrder) (prices : List ℚ) : List ℚ :=
  prices.filter fun p => ! order.isBeyond p

/-- **The loop draws on the volumes** within the limit; by induction on the prices. -/
theorem draws_fillLoop {order : SimulatedOrder} {prices : List ℚ} (hnodup : prices.Nodup)
    {s : Fills} (hremaining : 0 ≤ s.remaining)
    (hvolume : ∀ p ∈ prices, 0 < volumeAt s.levels order.side.opposite p) :
    Draws order.side.opposite (within order prices) s (fillLoop order prices s) := by
  induction prices generalizing s with
  | nil => exact ⟨rfl, rfl, Redrawn.refl _ _, rfl⟩
  | cons price prices ih =>
      obtain ⟨hprice, hprices⟩ := List.nodup_cons.mp hnodup
      rw [fillLoop]
      split_ifs with hdone hbeyond
      · have hzero : s.remaining = 0 := le_antisymm hdone hremaining
        have hpos : ∀ p ∈ within order (price :: prices),
            0 ≤ volumeAt s.levels order.side.opposite p :=
          fun p hp => (hvolume p (List.mem_of_mem_filter hp)).le
        have hnone := Rationing.drawAll_zero hpos
        refine ⟨?_, ?_, Redrawn.refl _ _, rfl⟩
        · rw [hzero, hnone]
        · rw [hzero, hnone]
      · have hskip : within order (price :: prices) = within order prices :=
          List.filter_cons_of_neg (by simp [hbeyond])
        rw [hskip]
        exact ih hprices hremaining fun p hp => hvolume p (List.mem_cons_of_mem _ hp)
      · have htake : within order (price :: prices) = price :: within order prices :=
          List.filter_cons_of_pos (by simp [hbeyond])
        have hround := draws_fillAt (lt_of_not_ge hdone) (hvolume price List.mem_cons_self)
        rw [htake]
        refine hround.cons (ih hprices ?_ fun p hp => ?_)
        · rw [hround.remaining]
          exact sub_nonneg.mpr (min_le_left _ _)
        · have hne : p ≠ price := fun heq => hprice (heq ▸ hp)
          have hsame : (Rationing.drawAll [price] (volumeAt s.levels order.side.opposite)
              s.remaining).1 p = volumeAt s.levels order.side.opposite p :=
            Function.update_of_ne hne _ _
          rw [hround.volumes, hsame]
          exact hvolume p (List.mem_cons_of_mem _ hp)

/-! ## The prices in their order -/

/-- The price comes before another one for an order of the side. -/
def Side.Before : Side → ℚ → ℚ → Prop
  | .buy, p, p' => p < p'
  | .sell, p, p' => p' < p

/-- The prices of a book are different, and each is listed once. -/
theorem sortedPrices_strict (levels : AList fun _ : ℚ => BookLevel) :
    (sortedPrices levels).Pairwise (· < ·) := by
  have hsorted : (sortedPrices levels).Pairwise (· ≤ ·) := List.pairwise_insertionSort _ _
  have hnodup : (sortedPrices levels).Nodup :=
    (List.perm_insertionSort _ _).nodup_iff.mpr levels.keys_nodup
  exact (hsorted.and hnodup).imp fun h => lt_of_le_of_ne h.1 h.2

/-- The prices with volume on the other side are checked, all of them, -/
theorem mem_pricesToCheck {levels : AList fun _ : ℚ => BookLevel} {side : Side} {p : ℚ} :
    p ∈ pricesToCheck levels side ↔ 0 < volumeAt levels side.opposite p := by
  have hvolume : ((levels.lookup p).elim false fun level =>
      decide (level.volume side.opposite > 0)) = true ↔ 0 < volumeAt levels side.opposite p := by
    unfold volumeAt amount
    cases levels.lookup p with
    | none => exact iff_of_false nofun (lt_irrefl _)
    | some level => exact decide_eq_true_iff
  have hkey : 0 < volumeAt levels side.opposite p → p ∈ sortedPrices levels := fun h =>
    (List.mem_insertionSort _).mpr (mem_keys_of_amount_ne_zero h.ne')
  cases side with
  | buy =>
      exact List.mem_filter.trans ((and_congr_right' hvolume).trans (and_iff_right_of_imp hkey))
  | sell =>
      refine List.mem_filter.trans ((and_congr_right' hvolume).trans (and_iff_right_of_imp ?_))
      exact fun h => List.mem_reverse.mpr (hkey h)

/-- in the order in which the side takes them. -/
theorem pairwise_pricesToCheck (levels : AList fun _ : ℚ => BookLevel) (side : Side) :
    (pricesToCheck levels side).Pairwise side.Before := by
  cases side with
  | buy => exact (sortedPrices_strict levels).filter _
  | sell => exact (List.pairwise_reverse.mpr (sortedPrices_strict levels)).filter _

/-- A price does not come before itself, -/
theorem Side.Before.ne {side : Side} {p p' : ℚ} (h : side.Before p p') : p ≠ p' := by
  cases side with
  | buy => exact ne_of_lt h
  | sell => exact (ne_of_lt h).symm

/-- nor after one that it comes before. -/
theorem Side.Before.asymm {side : Side} {p p' : ℚ} (h : side.Before p p') :
    ¬ side.Before p' p := by
  cases side with
  | buy => exact lt_asymm h
  | sell => exact lt_asymm h

/-- What holds of the prices of a list in their order holds of a price and one that it comes
before. -/
theorem rel_of_before {side : Side} {r : ℚ → ℚ → Prop} {prices : List ℚ}
    (h : prices.Pairwise fun p p' => side.Before p p' ∧ r p p') {p p' : ℚ} (hp : p ∈ prices)
    (hp' : p' ∈ prices) (hbefore : side.Before p p') : r p p' := by
  let either := fun a b => (side.Before a b → r a b) ∧ (side.Before b a → r b a)
  have hall : prices.Pairwise either :=
    h.imp fun hab => ⟨fun _ => hab.2, fun hba => absurd hba hab.1.asymm⟩
  have : Std.Symm either := ⟨fun _ _ hab => ⟨hab.2, hab.1⟩⟩
  have hrefl : ∀ a ∈ prices, either a a :=
    fun _ _ => ⟨fun haa => absurd haa haa.asymm, fun haa => absurd haa haa.asymm⟩
  exact (hall.forall_of_forall hrefl hp hp').1 hbefore

/-- A price is within the limit: not above that of a buy, not below that of a sell. -/
theorem isBeyond_eq_false_iff {order : SimulatedOrder} {p : ℚ} :
    order.isBeyond p = false ↔
      (order.side = .buy → p ≤ order.price) ∧ (order.side = .sell → order.price ≤ p) := by
  simp [SimulatedOrder.isBeyond]

/-- What comes before a price within the limit is within the limit. -/
theorem isBeyond_of_before {order : SimulatedOrder} {p p' : ℚ} (h : order.side.Before p p')
    (hp' : order.isBeyond p' = false) : order.isBeyond p = false := by
  obtain ⟨hbuy, hsell⟩ := not_or.mp (of_decide_eq_false hp')
  refine decide_eq_false (not_or.mpr ⟨fun hb => hbuy ⟨hb.1, ?_⟩, fun hs => hsell ⟨hs.1, ?_⟩⟩)
  · rw [hb.1] at h
    exact lt_trans hb.2 h
  · rw [hs.1] at h
    exact lt_trans h hs.2

/-- The prices that an execution draws on, in their order. -/
def drawnPrices (levels : AList fun _ : ℚ => BookLevel) (order : SimulatedOrder) : List ℚ :=
  within order (pricesToCheck levels order.side)

/-- The prices that are drawn on have volume and are within the limit, -/
theorem mem_drawnPrices {levels : AList fun _ : ℚ => BookLevel} {order : SimulatedOrder} {p : ℚ} :
    p ∈ drawnPrices levels order ↔
      0 < volumeAt levels order.side.opposite p ∧ order.isBeyond p = false := by
  rw [drawnPrices, within, List.mem_filter, mem_pricesToCheck, Bool.not_eq_true']

/-- and stay in their order. -/
theorem pairwise_drawnPrices (levels : AList fun _ : ℚ => BookLevel) (order : SimulatedOrder) :
    (drawnPrices levels order).Pairwise order.side.Before :=
  (pairwise_pricesToCheck _ _).filter _

/-! ## A fair fill -/

/-- The volume that an order can be filled from. -/
def volumeWithin (levels : AList fun _ : ℚ => BookLevel) (order : SimulatedOrder) : ℚ :=
  ((within order levels.keys).map fun p => max 0 (volumeAt levels order.side.opposite p)).sum

/-- Adding up the positive ones is adding up the positive parts. -/
theorem sum_filter_pos {α : Type} (f : α → ℚ) (l : List α) :
    ((l.filter fun a => 0 < f a).map f).sum = (l.map fun a => max 0 (f a)).sum := by
  induction l with
  | nil => rfl
  | cons a l ih =>
      rw [List.map_cons, List.sum_cons]
      by_cases h : 0 < f a
      · rw [List.filter_cons, if_pos (decide_eq_true h), List.map_cons, List.sum_cons, ih,
          max_eq_right h.le]
      · rw [List.filter_cons, if_neg (by simpa using h), ih, max_eq_left (not_lt.mp h), zero_add]

/-- What they offer is the volume within the limit. -/
theorem sum_drawnPrices (levels : AList fun _ : ℚ => BookLevel) (order : SimulatedOrder) :
    ((drawnPrices levels order).map (volumeAt levels order.side.opposite)).sum =
      volumeWithin levels order := by
  have hnodup := (pairwise_drawnPrices levels order).imp Side.Before.ne
  have hperm : (drawnPrices levels order).Perm
      ((within order levels.keys).filter fun p => 0 < volumeAt levels order.side.opposite p) := by
    refine (List.perm_ext_iff_of_nodup hnodup ((levels.keys_nodup.filter _).filter _)).mpr ?_
    intro p
    simp only [mem_drawnPrices, List.mem_filter, Bool.not_eq_true', decide_eq_true_eq]
    constructor
    · exact fun ⟨hvol, hwithin⟩ => ⟨⟨mem_keys_of_amount_ne_zero hvol.ne', hwithin⟩, hvol⟩
    · exact fun ⟨⟨_, hwithin⟩, hvol⟩ => ⟨hvol, hwithin⟩
  rw [(hperm.map _).sum_eq, sum_filter_pos, volumeWithin]

/-- **An order is filled fairly**: its quantity is conserved, the volumes of the other side go
down by what is filled, none by more than there was, only within the limit and at no price
behind a better one that still has volume; and there is no rest if there is enough volume. -/
structure FairFill (order : SimulatedOrder) (levels levels' : AList fun _ : ℚ => BookLevel)
    (result : OrderSimulationResult) : Prop where
  /-- filled and unfilled are what was ordered -/
  conserved : result.filledQuantity + result.remainingQuantity = order.quantity
  /-- neither of them is negative -/
  bounds : 0 ≤ result.filledQuantity ∧ result.filledQuantity ≤ order.quantity
  /-- nothing but volumes of the other side has changed -/
  redrawn : Redrawn order.side.opposite levels levels'
  /-- these go down by what is filled -/
  total : total (fun level => level.volume order.side.opposite) levels' + result.filledQuantity =
    total (fun level => level.volume order.side.opposite) levels
  /-- at no price by more than there was -/
  taken : ∀ p, volumeAt levels' order.side.opposite p ≤ volumeAt levels order.side.opposite p ∧
    volumeAt levels order.side.opposite p - volumeAt levels' order.side.opposite p ≤
      max 0 (volumeAt levels order.side.opposite p)
  /-- at no price beyond the limit -/
  withinLimit : ∀ p, volumeAt levels' order.side.opposite p ≠
    volumeAt levels order.side.opposite p →
      (order.side = .buy → p ≤ order.price) ∧ (order.side = .sell → order.price ≤ p)
  /-- and at no price before the better ones are used up -/
  bestFirst : ∀ p p', order.side.Before p p' → volumeAt levels' order.side.opposite p' ≠
    volumeAt levels order.side.opposite p' → volumeAt levels' order.side.opposite p ≤ 0
  /-- an order that could be filled is -/
  complete : order.quantity ≤ volumeWithin levels order →
    result.filledQuantity = order.quantity ∧ result.fullyFilled = true

/-- What an execution makes of the end of the loop. -/
theorem executeMarketOrder_of_loop {book : SimulatedOrderBook} {order : SimulatedOrder}
    (config : MatcherConfig) {s : Fills}
    (hs : fillLoop order (pricesToCheck book.levels order.side)
      ⟨book.levels, order.quantity, 0, 0⟩ = s) :
    (book.executeMarketOrder order config).2.levels = s.levels ∧
      (book.executeMarketOrder order config).1.filledQuantity = order.quantity - s.remaining ∧
      (book.executeMarketOrder order config).1.remainingQuantity = s.remaining ∧
      (book.executeMarketOrder order config).1.fullyFilled = decide (s.remaining ≤ 0) := by
  unfold SimulatedOrderBook.executeMarketOrder
  rw [hs]
  exact ⟨rfl, rfl, rfl, rfl⟩

/-- The loop of an execution draws on these prices. -/
theorem draws_execution (levels : AList fun _ : ℚ => BookLevel) {order : SimulatedOrder}
    (hquantity : 0 ≤ order.quantity) :
    Draws order.side.opposite (drawnPrices levels order) ⟨levels, order.quantity, 0, 0⟩
      (fillLoop order (pricesToCheck levels order.side) ⟨levels, order.quantity, 0, 0⟩) :=
  draws_fillLoop ((pairwise_pricesToCheck levels order.side).imp Side.Before.ne) hquantity
    fun _ hp => mem_pricesToCheck.mp hp

/-- **An execution rations the order** over these prices. -/
theorem rationed_execution (levels : AList fun _ : ℚ => BookLevel) {order : SimulatedOrder}
    (hquantity : 0 ≤ order.quantity) {s : Fills}
    (hs : fillLoop order (pricesToCheck levels order.side) ⟨levels, order.quantity, 0, 0⟩ = s) :
    Rationing.Rationed (drawnPrices levels order) (volumeAt levels order.side.opposite)
      (volumeAt s.levels order.side.opposite) order.quantity s.remaining := by
  have hdraws := draws_execution levels hquantity
  rw [hs] at hdraws
  rw [hdraws.volumes, hdraws.remaining]
  exact Rationing.rationed_drawAll ((pairwise_drawnPrices levels order).imp Side.Before.ne)
    hquantity fun p hp => (mem_drawnPrices.mp hp).1.le

/-- **An execution fills the order fairly.** -/
theorem executeMarketOrder_fair (book : SimulatedOrderBook) {order : SimulatedOrder}
    (config : MatcherConfig) (hquantity : 0 < order.quantity) :
    FairFill order book.levels (book.executeMarketOrder order config).2.levels
      (book.executeMarketOrder order config).1 := by
  have hdraws := draws_execution book.levels hquantity.le
  obtain ⟨s, hs⟩ : ∃ s, fillLoop order (pricesToCheck book.levels order.side)
      ⟨book.levels, order.quantity, 0, 0⟩ = s := ⟨_, rfl⟩
  have hrationed := rationed_execution book.levels hquantity.le hs
  rw [hs] at hdraws
  obtain ⟨hlevels, hfilled, hrest, hfully⟩ := executeMarketOrder_of_loop config hs
  have htouched : ∀ p, volumeAt s.levels order.side.opposite p ≠
      volumeAt book.levels order.side.opposite p → p ∈ drawnPrices book.levels order :=
    fun p hp => not_imp_comm.mp (hrationed.untouched p) hp
  rw [hlevels]
  refine ⟨?_, ?_, hdraws.redrawn, ?_, fun p => ⟨hrationed.le p, ?_⟩, fun p hp => ?_,
    fun p p' hbefore hp' => ?_, fun henough => ?_⟩
  · rw [hfilled, hrest, sub_add_cancel]
  · rw [hfilled]
    have hnonneg := hrationed.demand_nonneg
    have hle := hrationed.demand_le
    constructor <;> linarith
  · have htotal := hdraws.total
    dsimp only at htotal
    rw [hfilled]
    linarith
  · by_cases hp : p ∈ drawnPrices book.levels order
    · exact (sub_le_self _ (hrationed.nonneg p hp)).trans (le_max_right _ _)
    · rw [hrationed.untouched p hp, sub_self]
      exact le_max_left _ _
  · exact isBeyond_eq_false_iff.mp (mem_drawnPrices.mp (htouched p hp)).2
  · by_cases hvolume : 0 < volumeAt book.levels order.side.opposite p
    · have hwithin := isBeyond_of_before hbefore (mem_drawnPrices.mp (htouched p' hp')).2
      have hzero := rel_of_before ((pairwise_drawnPrices _ _).and hrationed.inOrder)
        (mem_drawnPrices.mpr ⟨hvolume, hwithin⟩) (htouched p' hp') hbefore hp'
      exact hzero.le
    · exact (hrationed.le p).trans (not_lt.mp hvolume)
  · have hmet : s.remaining = 0 := hrationed.demand_eq_zero (by
      rw [sum_drawnPrices]
      exact henough)
    rw [hfilled, hfully, hmet, sub_zero]
    exact ⟨rfl, rfl⟩

/-- A book with asks at two prices. -/
def twoAsks : SimulatedOrderBook where
  symbol := "X"
  levels := AList.insert 101 ⟨[], [], 0, 5⟩ (AList.insert 100 ⟨[], [], 0, 2⟩ ∅)
  bestBid := none
  bestAsk := some 100
  lastUpdateNs := 0
  toxicFlowScore := 0
  recentFills := []

/-- A buy that takes the first of the asks and a part of the second. -/
def buyOfThree : SimulatedOrder := ⟨1, "X", .buy, 102, 3, 0, 0, 0⟩

/-- The first ask is used up, and the second one in part. -/
theorem executeMarketOrder_fair_twoAsks :
    0 < buyOfThree.quantity ∧
      FairFill buyOfThree twoAsks.levels (twoAsks.executeMarketOrder buyOfThree .default).2.levels
        (twoAsks.executeMarketOrder buyOfThree .default).1 :=
  have hquantity : 0 < buyOfThree.quantity := by decide
  ⟨hquantity, executeMarketOrder_fair twoAsks .default hquantity⟩

end StopTrading.Backtest
