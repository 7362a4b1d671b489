import StopTrading.Backtest.Engine
import StopTrading.Library.ListSplits
import Mathlib.Data.List.Induction

/-!
# Cash and profit of a backtest

What the accounts of a backtest are for: whenever every position is closed again,
the cash has changed by the realised profit less the fees (`Reconciles`).

They start out balanced, and every fill keeps the balance up to the proceeds that no
book shows (`gap_handle`).  Those are never negative, so a missing amount is never
made up for, and the accounts reconcile at just those points before which no sell
was for more than what was held, the quantities being the plain sums of the fills
(`reconciles_iff_coveredSells`): a strategy that only holds longs is accounted for
correctly, and the profit of a closed short is not.

### What is load-bearing

The gap is what makes the proof go through fill by fill.  Cash and realised profit cannot be
compared while a position is open, so `gap` adds the value that the open positions are booked at;
the reconciliation that is asked for is `gap = 0` on a flat engine (`Flat.reconciles_iff`).  Then
`gap_handle` says what a single fill contributes, and it is never negative: what one uncovered
sell hides no later fill can give back.  This is why the result is an equivalence and not only a
sufficient condition.

`CoveredSells` is stated on the list of the fills alone.  That it is about the same quantities as
the engine's positions is part of `Accounted`.
-/

namespace StopTrading.Backtest

open KeyedTotal ListSplits

/-- A call of one of the two fill handlers (`BacktestEvent::OrderFill` and
`OrderPartialFill`). -/
inductive FillEvent where
  | orderFill (symbol : String) (side : Side) (quantity limitPrice fillPrice : ℚ)
  | orderPartialFill (symbol : String) (side : Side)
      (filledQuantity remainingQuantity fillPrice : ℚ)
  deriving Repr, DecidableEq

namespace FillEvent

/-- The symbol filled. -/
def symbol : FillEvent → String
  | orderFill symbol .. => symbol
  | orderPartialFill symbol .. => symbol

/-- The side of the order. -/
def side : FillEvent → Side
  | orderFill _ side .. => side
  | orderPartialFill _ side .. => side

/-- The quantity filled. -/
def quantity : FillEvent → ℚ
  | orderFill _ _ quantity .. => quantity
  | orderPartialFill _ _ filledQuantity .. => filledQuantity

/-- The price paid or received. -/
def fillPrice : FillEvent → ℚ
  | orderFill _ _ _ _ fillPrice => fillPrice
  | orderPartialFill _ _ _ _ fillPrice => fillPrice

/-- The limit price of the order; a partial fill records its fill price. -/
def limitPrice : FillEvent → ℚ
  | orderFill _ _ _ limitPrice _ => limitPrice
  | orderPartialFill _ _ _ _ fillPrice => fillPrice

/-- The quantity with its sign: bought or sold. -/
def signedQuantity (f : FillEvent) : ℚ :=
  match f.side with
  | .buy => f.quantity
  | .sell => -f.quantity

/-- A fill of a positive quantity at a positive price. -/
structure Positive (f : FillEvent) : Prop where
  quantity : 0 < f.quantity
  fillPrice : 0 < f.fillPrice

end FillEvent

/-- The quantity of a symbol that a list of fills leaves: what was bought less what
was sold. -/
def netQuantity (symbol : String) (fills : List FillEvent) : ℚ :=
  (fills.map fun f => if f.symbol = symbol then f.signedQuantity else 0).sum

/-- **No sell is for more than what is held** when it happens. -/
def CoveredSells (fills : List FillEvent) : Prop :=
  ∀ before f after, fills = before ++ f :: after → f.side = .sell →
    f.quantity ≤ netQuantity f.symbol before

namespace BacktestEngine

/-- One call of a fill handler. -/
def handle (e : BacktestEngine) : FillEvent → BacktestEngine
  | .orderFill symbol side quantity limitPrice fillPrice =>
      e.handleOrderFill symbol side quantity limitPrice fillPrice
  | .orderPartialFill symbol side filledQuantity remainingQuantity fillPrice =>
      e.handlePartialFill symbol side filledQuantity remainingQuantity fillPrice

/-- A sequence of calls on a new engine. -/
def afterFills (config : BacktestConfig) (fills : List FillEvent) : BacktestEngine :=
  fills.foldl handle (new config)

/-- All position quantities are zero. -/
def Flat (e : BacktestEngine) : Prop :=
  ∀ symbol position, e.state.positions.lookup symbol = some position → position.quantity = 0

/-- **Cash and profit agree**. -/
def Reconciles (e : BacktestEngine) : Prop :=
  e.state.cash - e.config.initialCapital = e.state.realizedPnl - e.feesPaid

/-- What the cash shows and the books do not. -/
def gap (e : BacktestEngine) : ℚ :=
  e.state.cash - e.config.initialCapital - e.state.realizedPnl + e.feesPaid +
    total PositionState.booked e.state.positions

/-! ## What a fill does -/

/-- **One call**: the fill handler on the call's own arguments, up to the marks of the
trade it records, which carries the fees. -/
theorem handle_eq (e : BacktestEngine) (f : FillEvent) :
    ∃ trades : List BacktestTrade,
      (trades.map BacktestTrade.fees).sum =
        e.feesPaid + f.quantity * f.fillPrice * (5 / 10000) ∧
      e.handle f =
        { e.handleOrderFill f.symbol f.side f.quantity f.limitPrice f.fillPrice with
          state :=
            { (e.handleOrderFill f.symbol f.side f.quantity f.limitPrice f.fillPrice).state with
              trades := trades } } := by
  cases f with
  | orderFill symbol side quantity limitPrice fillPrice =>
      refine ⟨(e.handleOrderFill symbol side quantity limitPrice fillPrice).state.trades, ?_, rfl⟩
      unfold handleOrderFill
      rw [List.map_append, List.sum_append]
      exact congrArg _ (List.sum_singleton)
  | orderPartialFill symbol side filledQuantity remainingQuantity fillPrice =>
      have hlast : (e.handleOrderFill symbol side filledQuantity fillPrice
          fillPrice).state.trades.getLast? = some _ := List.getLast?_concat
      unfold handle handlePartialFill
      simp only [hlast]
      refine ⟨_, ?_, rfl⟩
      rw [List.map_append, List.sum_append]
      unfold handleOrderFill
      rw [List.dropLast_concat]
      exact congrArg _ (List.sum_singleton)

/-- The fills leave the configuration alone, -/
theorem config_handle (e : BacktestEngine) (f : FillEvent) : (e.handle f).config = e.config := by
  obtain ⟨trades, -, heq⟩ := e.handle_eq f
  rw [heq]
  rfl

/-- write the position of their own symbol, -/
theorem positions_handle (e : BacktestEngine) (f : FillEvent) :
    (e.handle f).state.positions =
      e.state.positions.insert f.symbol
        ((e.position f.symbol).apply f.side f.quantity f.fillPrice) := by
  obtain ⟨trades, -, heq⟩ := e.handle_eq f
  rw [heq]
  rfl

/-- which becomes what the fill makes of it, -/
theorem position_handle_self (e : BacktestEngine) (f : FillEvent) :
    (e.handle f).position f.symbol =
      (e.position f.symbol).apply f.side f.quantity f.fillPrice := by
  rw [position, positions_handle, AList.lookup_insert, Option.getD_some]

/-- and of no other. -/
theorem position_handle_of_ne (e : BacktestEngine) {f : FillEvent} {symbol : String}
    (h : symbol ≠ f.symbol) : (e.handle f).position symbol = e.position symbol := by
  rw [position, positions_handle, AList.lookup_insert_ne h, position]

/-- **A fill keeps the balance**, up to the proceeds that no book shows. -/
theorem gap_handle {e : BacktestEngine} {f : FillEvent} (hf : f.Positive)
    (kept : (e.position f.symbol).WellKept) :
    (e.handle f).gap =
      e.gap + (e.position f.symbol).unbooked f.side f.quantity f.fillPrice := by
  have hbooked := kept.booked_apply f.side f.fillPrice hf.quantity
  have htotal := total_insert_getD PositionState.booked_new e.state.positions f.symbol
    ((e.position f.symbol).apply f.side f.quantity f.fillPrice)
  rw [← position] at htotal
  have hcash : (e.handle f).state.cash - (e.handle f).state.realizedPnl + (e.handle f).feesPaid =
      e.state.cash - e.state.realizedPnl + e.feesPaid +
        (PositionState.cashFlow f.side f.quantity f.fillPrice -
          (e.position f.symbol).closingPnl f.side f.quantity f.fillPrice) := by
    obtain ⟨trades, hfees, heq⟩ := e.handle_eq f
    rw [feesPaid, heq, hfees]
    unfold handleOrderFill
    cases hside : f.side <;> simp only [PositionState.cashFlow] <;> ring
  unfold gap
  rw [config_handle, positions_handle]
  linarith

end BacktestEngine

/-! ## A sequence of fills -/

/-- One fill more. -/
theorem netQuantity_concat (symbol : String) (fills : List FillEvent) (f : FillEvent) :
    netQuantity symbol (fills ++ [f]) =
      netQuantity symbol fills + if f.symbol = symbol then f.signedQuantity else 0 := by
  rw [netQuantity, List.map_append, List.sum_append]
  exact congrArg _ List.sum_singleton

/-- The last sell is covered, and those before it are. -/
theorem coveredSells_concat {fills : List FillEvent} {f : FillEvent} :
    CoveredSells (fills ++ [f]) ↔
      CoveredSells fills ∧ (f.side = .sell → f.quantity ≤ netQuantity f.symbol fills) :=
  forall_split_concat
    (P := fun before (g : FillEvent) => g.side = .sell → g.quantity ≤ netQuantity g.symbol before)

namespace BacktestEngine

/-- **The accounts after a sequence of fills.**  The gap is not negative, and there is
none as long as every sell has been covered; then no position is short. -/
structure Accounted (e : BacktestEngine) (fills : List FillEvent) : Prop where
  wellKept : ∀ symbol, (e.position symbol).WellKept
  quantity : ∀ symbol, (e.position symbol).quantity = netQuantity symbol fills
  long : CoveredSells fills → ∀ symbol, 0 ≤ netQuantity symbol fills
  gap_nonneg : 0 ≤ e.gap
  gap_eq_zero_iff : e.gap = 0 ↔ CoveredSells fills

/-- A new engine owes nothing, -/
theorem accounted_new (config : BacktestConfig) : (new config).Accounted [] where
  wellKept _ := PositionState.wellKept_new
  quantity _ := rfl
  long _ _ := le_rfl
  gap_nonneg := by simp [gap, new, feesPaid]
  gap_eq_zero_iff := by
    exact iff_of_true (by simp [gap, new, feesPaid]) forall_split_nil

/-- a fill keeps the accounts as far as it was covered, -/
theorem Accounted.handle {e : BacktestEngine} {fills : List FillEvent} {f : FillEvent}
    (h : e.Accounted fills) (hf : f.Positive) : (e.handle f).Accounted (fills ++ [f]) := by
  have hgap := gap_handle hf (h.wellKept f.symbol)
  have hunbooked := (e.position f.symbol).unbooked_nonneg f.side f.quantity hf.fillPrice
  refine ⟨fun symbol => ?_, fun symbol => ?_, fun hcovered symbol => ?_, ?_, ?_⟩
  · by_cases hsymbol : symbol = f.symbol
    · subst hsymbol
      rw [position_handle_self]
      exact (h.wellKept _).apply f.side f.fillPrice hf.quantity
    · rw [position_handle_of_ne e hsymbol]
      exact h.wellKept symbol
  · rw [netQuantity_concat, ← h.quantity symbol]
    by_cases hsymbol : symbol = f.symbol
    · subst hsymbol
      rw [position_handle_self, if_pos rfl, PositionState.quantity_apply]
      unfold FillEvent.signedQuantity
      cases f.side with
      | buy => rfl
      | sell => exact sub_eq_add_neg _ _
    · rw [position_handle_of_ne e hsymbol, if_neg (Ne.symm hsymbol), add_zero]
  · -- a covered sell leaves what it did not sell
    rw [coveredSells_concat] at hcovered
    have hbefore := h.long hcovered.1 symbol
    rw [netQuantity_concat]
    split
    · rename_i hsymbol
      subst hsymbol
      have hquantity := hf.quantity
      have hlast := hcovered.2
      unfold FillEvent.signedQuantity
      cases hside : f.side with
      | buy =>
          simp only
          linarith
      | sell =>
          have := hlast hside
          simp only
          linarith
    · rwa [add_zero]
  · rw [hgap]
    exact add_nonneg h.gap_nonneg hunbooked
  · -- neither summand of the gap is negative, so both are zero or there is a gap for good
    rw [hgap, add_eq_zero_iff_of_nonneg h.gap_nonneg hunbooked, h.gap_eq_zero_iff,
      coveredSells_concat]
    refine and_congr_right fun hcovered => ?_
    have hlong := h.long hcovered f.symbol
    rw [← h.quantity f.symbol] at hlong ⊢
    exact PositionState.unbooked_eq_zero_iff hf.fillPrice hlong

/-- and so does a sequence of them. -/
theorem accounted_afterFills (config : BacktestConfig) (fills : List FillEvent)
    (hpositive : ∀ f ∈ fills, f.Positive) : (afterFills config fills).Accounted fills := by
  induction fills using List.reverseRecOn with
  | nil => exact accounted_new config
  | append_singleton fills f ih =>
      rw [List.forall_mem_append, List.forall_mem_singleton] at hpositive
      rw [afterFills, List.foldl_concat]
      exact (ih hpositive.1).handle hpositive.2

/-- All positions are closed just when every symbol has been bought as often as sold. -/
theorem flat_afterFills_iff (config : BacktestConfig) {fills : List FillEvent}
    (hpositive : ∀ f ∈ fills, f.Positive) :
    (afterFills config fills).Flat ↔ ∀ symbol, netQuantity symbol fills = 0 := by
  have hquantity := (accounted_afterFills config fills hpositive).quantity
  constructor
  · intro hflat symbol
    rw [← hquantity symbol, position]
    cases hlookup : (afterFills config fills).state.positions.lookup symbol with
    | none => rfl
    | some position => exact hflat symbol position hlookup
  · intro hnet symbol position hlookup
    have := hquantity symbol
    rw [BacktestEngine.position, hlookup, Option.getD_some, hnet symbol] at this
    exact this

/-- With every position closed, the gap is what the claim of the accounts is off by. -/
theorem Flat.reconciles_iff {e : BacktestEngine} (hflat : e.Flat) :
    e.Reconciles ↔ e.gap = 0 := by
  have hbooked : total PositionState.booked e.state.positions = 0 :=
    total_eq_zero fun symbol position hlookup =>
      PositionState.booked_of_nonpos (hflat symbol position hlookup).le
  rw [Reconciles, gap, hbooked, add_zero]
  constructor <;> intro h <;> linarith

/-- **When cash and profit agree.**  For every sequence of fills of positive
quantities at positive prices, in any symbols, that leaves all positions closed:
just when every sell so far was of something held. -/
theorem reconciles_iff_coveredSells (config : BacktestConfig) (fills : List FillEvent)
    (hpositive : ∀ f ∈ fills, f.Positive) (hflat : (afterFills config fills).Flat) :
    (afterFills config fills).Reconciles ↔ CoveredSells fills :=
  hflat.reconciles_iff.trans (accounted_afterFills config fills hpositive).gap_eq_zero_iff

/-- A short that is opened at 100 and closed at 90. -/
def shortRoundTrip : List FillEvent :=
  [.orderFill "BTC" .sell 1 100 100, .orderFill "BTC" .buy 1 90 90]

/-- Its fills are of positive quantities at positive prices, -/
theorem positive_shortRoundTrip : ∀ f ∈ shortRoundTrip, f.Positive := by
  simp only [shortRoundTrip, List.forall_mem_cons]
  exact ⟨⟨one_pos, by norm_num [FillEvent.fillPrice]⟩,
    ⟨one_pos, by norm_num [FillEvent.fillPrice]⟩, List.forall_mem_nil _⟩

/-- and close what they open. -/
theorem flat_shortRoundTrip (config : BacktestConfig) :
    (afterFills config shortRoundTrip).Flat := by
  refine (flat_afterFills_iff config positive_shortRoundTrip).mpr fun symbol => ?_
  show (if "BTC" = symbol then (-1 : ℚ) else 0) + ((if "BTC" = symbol then 1 else 0) + 0) = 0
  by_cases hsymbol : "BTC" = symbol
  · rw [if_pos hsymbol, if_pos hsymbol]
    norm_num
  · rw [if_neg hsymbol, if_neg hsymbol]
    norm_num

/-- The profit of ten on the short is in the cash, and the books show a loss of 90. -/
theorem not_forall_reconciles :
    ¬ ∀ (config : BacktestConfig) (fills : List FillEvent), (∀ f ∈ fills, f.Positive) →
      (afterFills config fills).Flat → (afterFills config fills).Reconciles := by
  intro h
  have hclaim := h ⟨1000000⟩ shortRoundTrip positive_shortRoundTrip (flat_shortRoundTrip _)
  have hcash : (afterFills ⟨1000000⟩ shortRoundTrip).state.cash = 1000009 + 905 / 1000 := by
    decide +kernel
  have hpnl : (afterFills ⟨1000000⟩ shortRoundTrip).state.realizedPnl = -90 := by
    decide +kernel
  have hfees : (afterFills ⟨1000000⟩ shortRoundTrip).feesPaid = 95 / 1000 := by
    decide +kernel
  have hcapital : (afterFills ⟨1000000⟩ shortRoundTrip).config.initialCapital = 1000000 := rfl
  rw [Reconciles, hcash, hpnl, hfees, hcapital] at hclaim
  norm_num at hclaim

/-- The accounts of that short do not reconcile because its sell was not covered. -/
theorem reconciles_shortRoundTrip :
    (afterFills ⟨1000000⟩ shortRoundTrip).Reconciles ↔ CoveredSells shortRoundTrip :=
  reconciles_iff_coveredSells _ _ positive_shortRoundTrip (flat_shortRoundTrip _)

end BacktestEngine

end StopTrading.Backtest
