import StopTrading.Library.KeyedTotal
import Mathlib.Algebra.Order.Field.Rat
import Mathlib.Tactic.FieldSimp
import Mathlib.Tactic.Linarith
import Mathlib.Tactic.Ring

/-!
# The fills of the backtest engine

`BacktestEngine` as far as the two fill handlers read and write it: the cash, the
open positions by symbol, the realised profit and the list of trades.  Prices and
quantities are exact rationals.

A position keeps the average entry price of a long and none of a short.  What a
fill does to one position is `WellKept.booked_apply`: the cash it moves, less
the profit it realises, is the change of the value the position is booked at, up to
`unbooked`, the proceeds of what was sold without being held.

### What is load-bearing

The engine keeps one average price per symbol and updates it for buys that leave a long, so that
the books carry the cost of what is held as `avgEntryPrice * quantity` (`booked`).  A sell beyond
the long held turns the position short and leaves its price at zero: from there on the books do
not know what was received.  `unbooked` names this amount once, with its sign, and the rest of
the development never looks into the branches of `apply` again.

Rationals stand for `f64`.  No theorem depends on a rounding, and none would survive it: a cash
account in floating point is off by its rounding errors whatever is booked.
-/

namespace StopTrading.Backtest

open KeyedTotal

/-- `market_data::types::Side`. -/
inductive Side where
  | buy
  | sell
  deriving Repr, DecidableEq

/-- `BacktestTrade`. -/
structure BacktestTrade where
  timestampNs : Nat
  symbol : String
  side : Side
  quantity : ℚ
  price : ℚ
  fillPrice : ℚ
  slippageBps : ℚ
  latencyUs : Nat
  queuePosition : Nat
  wasPartialFill : Bool
  remainingQuantity : ℚ
  pnl : ℚ
  fees : ℚ
  deriving Repr, DecidableEq

/-- `PositionState`. -/
structure PositionState where
  quantity : ℚ
  avgEntryPrice : ℚ
  unrealizedPnl : ℚ
  deriving Repr, DecidableEq

/-- `BacktestState`. -/
structure BacktestState where
  cash : ℚ
  positions : AList fun _ : String => PositionState
  realizedPnl : ℚ
  trades : List BacktestTrade

/-- `BacktestConfig`. -/
structure BacktestConfig where
  initialCapital : ℚ

/-- `BacktestEngine`. -/
structure BacktestEngine where
  config : BacktestConfig
  state : BacktestState
  currentTimeNs : Nat

namespace PositionState

/-- `PositionState::new`. -/
def new : PositionState := ⟨0, 0, 0⟩

/-- The profit `handle_order_fill` realises on a position. -/
def closingPnl (position : PositionState) (side : Side) (quantity fillPrice : ℚ) : ℚ :=
  match side with
  | .buy =>
      if position.quantity < 0 then
        (position.avgEntryPrice - fillPrice) * min quantity (-position.quantity)
      else 0
  | .sell =>
      if position.quantity > 0 then
        (fillPrice - position.avgEntryPrice) * min quantity position.quantity
      else 0

/-- The position `handle_order_fill` leaves. -/
def apply (position : PositionState) (side : Side) (quantity fillPrice : ℚ) : PositionState :=
  match side with
  | .buy =>
      let totalCost := position.avgEntryPrice * max position.quantity 0 + fillPrice * quantity
      { position with
        quantity := position.quantity + quantity
        avgEntryPrice :=
          if position.quantity + quantity > 0 then totalCost / (position.quantity + quantity)
          else position.avgEntryPrice }
  | .sell =>
      { position with
        quantity := position.quantity - quantity
        avgEntryPrice := if position.quantity - quantity ≤ 0 then 0 else position.avgEntryPrice }

end PositionState

namespace BacktestEngine

/-- `BacktestEngine::new`. -/
def new (config : BacktestConfig) : BacktestEngine where
  config := config
  state := ⟨config.initialCapital, ∅, 0, []⟩
  currentTimeNs := 0

/-- The position of a symbol, created when there is none. -/
def position (e : BacktestEngine) (symbol : String) : PositionState :=
  (e.state.positions.lookup symbol).getD .new

/-- `handle_order_fill`. -/
def handleOrderFill (e : BacktestEngine) (symbol : String) (side : Side)
    (quantity limitPrice fillPrice : ℚ) : BacktestEngine :=
  let fees := quantity * fillPrice * (5 / 10000)
  let cost := quantity * fillPrice + fees
  let pnl := (e.position symbol).closingPnl side quantity fillPrice
  { e with
    state :=
      { positions :=
          e.state.positions.insert symbol ((e.position symbol).apply side quantity fillPrice)
        cash :=
          match side with
          | .buy => e.state.cash - cost
          | .sell => e.state.cash + (quantity * fillPrice - fees)
        realizedPnl := e.state.realizedPnl + pnl
        trades := e.state.trades ++
          [{ timestampNs := e.currentTimeNs
             symbol := symbol
             side := side
             quantity := quantity
             price := limitPrice
             fillPrice := fillPrice
             slippageBps := |fillPrice - limitPrice| / limitPrice * 10000
             latencyUs := 0
             queuePosition := 0
             wasPartialFill := false
             remainingQuantity := 0
             pnl := pnl
             fees := fees }] } }

/-- `handle_partial_fill`: a fill whose trade is then marked as partial. -/
def handlePartialFill (e : BacktestEngine) (symbol : String) (side : Side)
    (filledQuantity remainingQuantity fillPrice : ℚ) : BacktestEngine :=
  let filled := e.handleOrderFill symbol side filledQuantity fillPrice fillPrice
  match filled.state.trades.getLast? with
  | none => filled
  | some trade =>
      { filled with
        state :=
          { filled.state with
            trades := filled.state.trades.dropLast ++
              [{ trade with wasPartialFill := true, remainingQuantity := remainingQuantity }] } }

/-- The fees recorded in the trades. -/
def feesPaid (e : BacktestEngine) : ℚ := (e.state.trades.map BacktestTrade.fees).sum

end BacktestEngine

/-! ## One position -/

namespace PositionState

/-- The value a position is booked at: what the long held was bought for. -/
def booked (position : PositionState) : ℚ := position.avgEntryPrice * max position.quantity 0

/-- A short, and an empty position, has no entry price. -/
def WellKept (position : PositionState) : Prop :=
  position.quantity ≤ 0 → position.avgEntryPrice = 0

/-- **The proceeds that no book shows**: of what is sold beyond the long held, and
of a short bought back in the same fill that opens a long. -/
def unbooked (position : PositionState) (side : Side) (quantity fillPrice : ℚ) : ℚ :=
  match side with
  | .buy =>
      if position.quantity < 0 ∧ 0 < position.quantity + quantity then
        fillPrice * -position.quantity
      else 0
  | .sell => fillPrice * max (quantity - max position.quantity 0) 0

/-- The cash a fill moves, fees apart. -/
def cashFlow (side : Side) (quantity fillPrice : ℚ) : ℚ :=
  match side with
  | .buy => -(quantity * fillPrice)
  | .sell => quantity * fillPrice

/-- An empty position is worth nothing in the books, -/
@[simp]
theorem booked_new : booked new = 0 := zero_mul _

/-- and has no entry price. -/
theorem wellKept_new : WellKept new := fun _ => rfl

/-- What is not long is booked at nothing, -/
theorem booked_of_nonpos {position : PositionState} (h : position.quantity ≤ 0) :
    position.booked = 0 := by
  rw [booked, max_eq_right h, mul_zero]

/-- and what is long at what was paid for it. -/
theorem booked_of_pos {position : PositionState} (h : 0 < position.quantity) :
    position.booked = position.avgEntryPrice * position.quantity := by
  rw [booked, max_eq_left h.le]

/-- **The quantity** goes up by what is bought and down by what is sold, in every branch. -/
@[simp]
theorem quantity_apply (position : PositionState) (side : Side) (quantity fillPrice : ℚ) :
    (position.apply side quantity fillPrice).quantity =
      match side with
      | .buy => position.quantity + quantity
      | .sell => position.quantity - quantity := by
  cases side <;> rfl

/-- No book shows a loss that was not made: what is missing are proceeds. -/
theorem unbooked_nonneg (position : PositionState) (side : Side) (quantity : ℚ) {fillPrice : ℚ}
    (hprice : 0 < fillPrice) : 0 ≤ position.unbooked side quantity fillPrice := by
  cases side with
  | buy =>
      unfold unbooked
      simp only
      by_cases h : position.quantity < 0 ∧ 0 < position.quantity + quantity
      · rw [if_pos h]
        exact mul_nonneg hprice.le (by linarith [h.1])
      · rw [if_neg h]
  | sell => exact mul_nonneg hprice.le (le_max_right _ _)

/-- A position that is not short books every buy, and every sell of what it holds. -/
theorem unbooked_eq_zero_iff {position : PositionState} {side : Side} {quantity fillPrice : ℚ}
    (hprice : 0 < fillPrice) (hlong : 0 ≤ position.quantity) :
    position.unbooked side quantity fillPrice = 0 ↔
      (side = .sell → quantity ≤ position.quantity) := by
  cases side with
  | buy =>
      have hzero : position.unbooked .buy quantity fillPrice = 0 :=
        if_neg fun h => absurd h.1 (not_lt.mpr hlong)
      exact iff_of_true hzero (fun h => nomatch h)
  | sell =>
      have hsell : position.unbooked .sell quantity fillPrice = 0 ↔
          quantity ≤ position.quantity := by
        unfold unbooked
        simp only
        rw [mul_eq_zero, or_iff_right hprice.ne', max_eq_left hlong, max_eq_right_iff, sub_nonpos]
      rw [hsell]
      exact ⟨fun h _ => h, fun h => h rfl⟩

/-- A fill leaves a short, or an empty position, without an entry price. -/
theorem WellKept.apply {position : PositionState} (kept : position.WellKept) (side : Side)
    {quantity : ℚ} (fillPrice : ℚ) (hquantity : 0 < quantity) :
    (position.apply side quantity fillPrice).WellKept := by
  cases side with
  | buy =>
      intro hle
      replace hle : position.quantity + quantity ≤ 0 := hle
      exact (if_neg (not_lt.mpr hle)).trans (kept (by linarith))
  | sell =>
      intro hle
      exact if_pos hle

/-- Buying into a long, or through zero, books the price of what is then held. -/
theorem booked_apply_buy {position : PositionState} {quantity : ℚ} (fillPrice : ℚ)
    (h : 0 < position.quantity + quantity) :
    (position.apply .buy quantity fillPrice).booked = position.booked + fillPrice * quantity := by
  have hquantity : (position.apply .buy quantity fillPrice).quantity =
      position.quantity + quantity := rfl
  have hprice : (position.apply .buy quantity fillPrice).avgEntryPrice =
      (position.booked + fillPrice * quantity) / (position.quantity + quantity) := if_pos h
  rw [booked_of_pos (by rwa [hquantity]), hquantity, hprice, div_mul_cancel₀ _ h.ne']

/-- **What a fill does to one position**: the cash it moves, less the profit it
realises, is the change of the value the position is booked at, up to the proceeds
no book shows. -/
theorem WellKept.booked_apply {position : PositionState} (kept : position.WellKept) (side : Side)
    {quantity : ℚ} (fillPrice : ℚ) (hquantity : 0 < quantity) :
    cashFlow side quantity fillPrice - position.closingPnl side quantity fillPrice +
        (position.apply side quantity fillPrice).booked =
      position.booked + position.unbooked side quantity fillPrice := by
  cases side with
  | buy =>
      unfold cashFlow closingPnl unbooked
      simp only
      by_cases hshort : position.quantity < 0
      · rw [if_pos hshort, kept hshort.le, booked_of_nonpos hshort.le]
        -- the short has no entry price: what it realises is the whole price
        by_cases hthrough : 0 < position.quantity + quantity
        · rw [if_pos ⟨hshort, hthrough⟩, booked_apply_buy fillPrice hthrough,
            booked_of_nonpos hshort.le, min_eq_right (by linarith)]
          ring
        · rw [if_neg fun h => hthrough h.2, min_eq_left (by linarith),
            booked_of_nonpos (by rw [quantity_apply]; exact not_lt.mp hthrough)]
          ring
      · rw [if_neg hshort, if_neg fun h => hshort h.1,
          booked_apply_buy fillPrice (by linarith [not_lt.mp hshort])]
        ring
  | sell =>
      unfold cashFlow closingPnl unbooked
      simp only
      by_cases hlong : 0 < position.quantity
      · rw [if_pos hlong, booked_of_pos hlong, max_eq_left hlong.le]
        by_cases hleft : 0 < position.quantity - quantity
        · have hbooked : (position.apply .sell quantity fillPrice).booked =
              position.avgEntryPrice * (position.quantity - quantity) := by
            rw [booked_of_pos (by rwa [quantity_apply])]
            exact congrArg (· * _) (if_neg (not_le.mpr hleft))
          rw [hbooked, min_eq_left (by linarith), max_eq_right (by linarith)]
          ring
        · -- the long is closed, and the rest opens a short
          rw [booked_of_nonpos (by rw [quantity_apply]; exact not_lt.mp hleft),
            min_eq_right (by linarith), max_eq_left (by linarith)]
          ring
      · rw [if_neg hlong, booked_of_nonpos (not_lt.mp hlong), max_eq_right (not_lt.mp hlong),
          booked_of_nonpos (by rw [quantity_apply]; simp only; linarith [not_lt.mp hlong]),
          max_eq_left (by linarith)]
        ring

end PositionState

end StopTrading.Backtest
