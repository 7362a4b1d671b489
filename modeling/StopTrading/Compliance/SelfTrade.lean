import StopTrading.Library.Transition
import StopTrading.Library.MachineInt
import Mathlib.Data.List.AList
import Mathlib.Data.List.Nodup
import Mathlib.Data.List.MinMax

/-!
# Self-trade prevention

`StpEngine` keeps the resting orders of each symbol by side and self-trade group, and
checks an aggressive order against those of its group on the other side.  Hash maps are
`AList`s and counters `u64`.

What the engine is for is `Exact`: an enabled check names the resting orders that the
aggressive order would cross, all of them and no others.  The maps are kept in step by
every call (`Inv`), so a check is exact for the orders the engine has recorded
(`checkAggressiveOrder_eq`).  But an order that comes to rest while the engine is disabled
is not recorded, and is not made up for when the engine is enabled again.  So the engine
is exact just in the runs in which no enabled check would cross such an order
(`exact_iff_noneMissed`).

A run carries the orders that rest, each with whether the engine was enabled when it was
registered.

### What is load-bearing

An order is recorded three times: in the list of its side and group, under its id, and in the
cached best price.  A check reads the first, a removal starts from the second, and the third is
read by nobody here (`Compliance.BestPrices` is about it).  So `Inv` relates two maps to one
list, that of the recorded orders, and `Holds` is its part for a single symbol, where `register`
and `remove` work.

`Once` keeps ids from being registered twice.  Without it the map by id forgets the older order,
which then rests in its group for ever; the engine relies on its caller here, who draws ids from
a counter.

Everything that `enabled` changes is in `seen`: a run remembers of every resting order whether
the engine has recorded it.  Whether a check is exact can then be asked of the state before it.
-/

namespace StopTrading.Compliance

open Transition

/-- A symbol: `[u8; 12]`. -/
abbrev StpSymbol := Vector UInt8 12

/-- `StpAction`. -/
inductive StpAction where
  | cancelAggressive
  | cancelMaker
  | cancelBoth
  | allow
  deriving Repr, DecidableEq

/-- `OrderSide`. -/
inductive OrderSide where
  | buy
  | sell
  deriving Repr, DecidableEq

/-- The side an order trades against. -/
def OrderSide.opposite : OrderSide → OrderSide
  | .buy => .sell
  | .sell => .buy

/-- `RestingOrder`; the group is a `StpGroupId`. -/
structure RestingOrder where
  orderId : Nat
  symbol : StpSymbol
  side : OrderSide
  priceTicks : Int
  quantity : Nat
  stpGroupId : Nat
  timestampNs : Nat
  deriving DecidableEq

/-- `AggressiveOrder`. -/
structure AggressiveOrder where
  symbol : StpSymbol
  side : OrderSide
  priceTicks : Int
  quantity : Nat
  stpGroupId : Nat
  isMarket : Bool
  deriving DecidableEq

/-- `StpCheckResult`. -/
inductive StpCheckResult where
  | pass
  | conflict (action : StpAction) (conflictingOrderIds : List Nat)
  | reject (reason : String)
  deriving Repr, DecidableEq

/-- The result for some conflicting ids. -/
def StpCheckResult.ofIds (action : StpAction) (ids : List Nat) : StpCheckResult :=
  if ids = [] then .pass else .conflict action ids

/-- Results with the same text name the same ids, whether or not there are any. -/
theorem StpCheckResult.mem_of_ofIds_eq {action : StpAction} {ids ids' : List Nat}
    (h : ofIds action ids = ofIds action ids') {id : Nat} (hid : id ∈ ids) : id ∈ ids' := by
  unfold ofIds at h
  rw [if_neg (List.ne_nil_of_mem hid)] at h
  split at h
  · cases h
  · cases h
    exact hid

/-- The price test of `check_self_trade`. -/
def WouldMatch (a : AggressiveOrder) (o : RestingOrder) : Prop :=
  a.isMarket = true ∨
    match a.side with
    | .buy => a.priceTicks ≥ o.priceTicks
    | .sell => a.priceTicks ≤ o.priceTicks

instance (a : AggressiveOrder) (o : RestingOrder) : Decidable (WouldMatch a o) := by
  unfold WouldMatch
  cases a.side <;> exact inferInstance

/-- `SymbolStpState`, without its symbol. -/
structure SymbolStpState where
  buyOrdersByGroup : AList fun _ : Nat => List RestingOrder
  sellOrdersByGroup : AList fun _ : Nat => List RestingOrder
  ordersById : AList fun _ : Nat => RestingOrder
  bestBidByGroup : AList fun _ : Nat => Int
  bestOfferByGroup : AList fun _ : Nat => Int

namespace SymbolStpState

/-- `new`. -/
def new : SymbolStpState := ⟨∅, ∅, ∅, ∅, ∅⟩

/-- The orders of a side by group. -/
def ordersByGroup (s : SymbolStpState) : OrderSide → AList fun _ : Nat => List RestingOrder
  | .buy => s.buyOrdersByGroup
  | .sell => s.sellOrdersByGroup

/-- Write the orders of a side. -/
def setOrders (s : SymbolStpState) (side : OrderSide)
    (orders : AList fun _ : Nat => List RestingOrder) : SymbolStpState :=
  match side with
  | .buy => { s with buyOrdersByGroup := orders }
  | .sell => { s with sellOrdersByGroup := orders }

/-- The orders of a side and group. -/
def group (s : SymbolStpState) (side : OrderSide) (groupId : Nat) : List RestingOrder :=
  ((s.ordersByGroup side).lookup groupId).getD []

/-- The last part of `add_order`: the best price of the order's side and group. -/
def updateBest (s : SymbolStpState) (o : RestingOrder) : SymbolStpState :=
  match o.side with
  | .buy =>
      let bestBid := max ((s.bestBidByGroup.lookup o.stpGroupId).getD (-2 ^ 63)) o.priceTicks
      { s with bestBidByGroup := s.bestBidByGroup.insert o.stpGroupId bestBid }
  | .sell =>
      let bestOffer := min ((s.bestOfferByGroup.lookup o.stpGroupId).getD (2 ^ 63 - 1)) o.priceTicks
      { s with bestOfferByGroup := s.bestOfferByGroup.insert o.stpGroupId bestOffer }

/-- `add_order`. -/
def addOrder (s : SymbolStpState) (o : RestingOrder) : SymbolStpState :=
  let pushed := s.setOrders o.side
    ((s.ordersByGroup o.side).insert o.stpGroupId (s.group o.side o.stpGroupId ++ [o]))
  { pushed with ordersById := s.ordersById.insert o.orderId o }.updateBest o

/-- `recalculate_best_prices`. -/
def recalculateBestPrices (s : SymbolStpState) : SymbolStpState :=
  { s with
    bestBidByGroup := s.buyOrdersByGroup.entries.foldl
      (fun best e => match (e.2.map RestingOrder.priceTicks).max? with
        | none => best
        | some price => best.insert e.1 price) s.bestBidByGroup
    bestOfferByGroup := s.sellOrdersByGroup.entries.foldl
      (fun best e => match (e.2.map RestingOrder.priceTicks).min? with
        | none => best
        | some price => best.insert e.1 price) s.bestOfferByGroup }

/-- What `remove_order` does to the orders of a side. -/
def removeFrom (orders : AList fun _ : Nat => List RestingOrder) (groupId orderId : Nat) :
    AList fun _ : Nat => List RestingOrder :=
  match orders.lookup groupId with
  | none => orders
  | some inGroup =>
      let kept := inGroup.filter fun o => o.orderId ≠ orderId
      if kept = [] then orders.erase groupId else orders.insert groupId kept

/-- `remove_order`. -/
def removeOrder (s : SymbolStpState) (orderId : Nat) : SymbolStpState × Option RestingOrder :=
  match s.ordersById.lookup orderId with
  | none => (s, none)
  | some order =>
      let unlisted := { s with ordersById := s.ordersById.erase orderId }
      ((unlisted.setOrders order.side
          (removeFrom (s.ordersByGroup order.side) order.stpGroupId orderId)).recalculateBestPrices,
        some order)

/-- `check_self_trade`. -/
def checkSelfTrade (s : SymbolStpState) (aggressive : AggressiveOrder)
    (defaultAction : StpAction) : StpCheckResult :=
  .ofIds defaultAction
    (((s.group aggressive.side.opposite aggressive.stpGroupId).filter
      fun o => WouldMatch aggressive o).map RestingOrder.orderId)

/-- An empty book crosses nobody. -/
@[simp]
theorem checkSelfTrade_new (a : AggressiveOrder) (defaultAction : StpAction) :
    new.checkSelfTrade a defaultAction = .pass := by
  have hnone : new.group a.side.opposite a.stpGroupId = [] := by
    cases a.side <;> rfl
  rw [checkSelfTrade, hnone]
  exact if_pos rfl

/-! ### The groups -/

/-- What is written for a side is read, -/
@[simp]
theorem ordersByGroup_setOrders_self (s : SymbolStpState) (side : OrderSide)
    (orders : AList fun _ : Nat => List RestingOrder) :
    (s.setOrders side orders).ordersByGroup side = orders := by
  cases side <;> rfl

/-- the other side is as it was, -/
theorem ordersByGroup_setOrders_of_ne (s : SymbolStpState) {side side' : OrderSide}
    (orders : AList fun _ : Nat => List RestingOrder) (h : side' ≠ side) :
    (s.setOrders side orders).ordersByGroup side' = s.ordersByGroup side' := by
  cases side <;> cases side' <;> first | rfl | exact absurd rfl h

/-- and so is the map by id. -/
@[simp]
theorem ordersById_setOrders (s : SymbolStpState) (side : OrderSide)
    (orders : AList fun _ : Nat => List RestingOrder) :
    (s.setOrders side orders).ordersById = s.ordersById := by
  cases side <;> rfl

/-- The cached prices are apart from the orders: -/
@[simp]
theorem ordersByGroup_recalculateBestPrices (s : SymbolStpState) (side : OrderSide) :
    s.recalculateBestPrices.ordersByGroup side = s.ordersByGroup side := by
  cases side <;> rfl

/-- computing them again changes no order, -/
@[simp]
theorem ordersById_recalculateBestPrices (s : SymbolStpState) :
    s.recalculateBestPrices.ordersById = s.ordersById := rfl

/-- nor does writing one, -/
@[simp]
theorem ordersByGroup_updateBest (s : SymbolStpState) (o : RestingOrder) (side : OrderSide) :
    (s.updateBest o).ordersByGroup side = s.ordersByGroup side := by
  unfold updateBest
  cases o.side <;> rfl

/-- in either map. -/
@[simp]
theorem ordersById_updateBest (s : SymbolStpState) (o : RestingOrder) :
    (s.updateBest o).ordersById = s.ordersById := by
  unfold updateBest
  cases o.side <;> rfl

/-- An order that is added is found by its id. -/
@[simp]
theorem ordersById_addOrder (s : SymbolStpState) (o : RestingOrder) :
    (s.addOrder o).ordersById = s.ordersById.insert o.orderId o := by
  simp [addOrder]

/-- **Adding an order** appends it to its group. -/
theorem group_addOrder (s : SymbolStpState) (o : RestingOrder) (side : OrderSide)
    (groupId : Nat) :
    (s.addOrder o).group side groupId =
      s.group side groupId ++ if o.side = side ∧ o.stpGroupId = groupId then [o] else [] := by
  have horders : (s.addOrder o).ordersByGroup side =
      (s.setOrders o.side ((s.ordersByGroup o.side).insert o.stpGroupId
        (s.group o.side o.stpGroupId ++ [o]))).ordersByGroup side := by
    rw [addOrder, ordersByGroup_updateBest]
    cases side <;> rfl
  rw [group, horders]
  by_cases hside : side = o.side
  · subst hside
    rw [ordersByGroup_setOrders_self]
    by_cases hgroup : groupId = o.stpGroupId
    · subst hgroup
      rw [AList.lookup_insert, if_pos ⟨rfl, rfl⟩, Option.getD_some]
    · rw [AList.lookup_insert_ne hgroup, if_neg (fun h => hgroup h.2.symm), List.append_nil]
      rfl
  · rw [ordersByGroup_setOrders_of_ne s _ hside, if_neg (fun h => hside h.1.symm), List.append_nil]
    rfl

/-- The group of a removed order loses the orders with its id, -/
theorem lookup_removeFrom_self (orders : AList fun _ : Nat => List RestingOrder)
    (groupId orderId : Nat) :
    ((removeFrom orders groupId orderId).lookup groupId).getD [] =
      ((orders.lookup groupId).getD []).filter fun o => o.orderId ≠ orderId := by
  unfold removeFrom
  cases hlookup : orders.lookup groupId with
  | none => rw [hlookup]; rfl
  | some inGroup =>
      dsimp only
      split
      · rename_i hempty
        rw [AList.lookup_erase]
        exact hempty.symm
      · rw [AList.lookup_insert]
        rfl

/-- and other groups keep theirs. -/
theorem lookup_removeFrom_of_ne (orders : AList fun _ : Nat => List RestingOrder)
    {groupId groupId' : Nat} (orderId : Nat) (h : groupId' ≠ groupId) :
    (removeFrom orders groupId orderId).lookup groupId' = orders.lookup groupId' := by
  unfold removeFrom
  cases orders.lookup groupId with
  | none => rfl
  | some inGroup =>
      dsimp only
      split
      · exact AList.lookup_erase_ne h
      · exact AList.lookup_insert_ne h

/-- **Removing an order** that is listed takes its id out of its group. -/
theorem group_removeOrder {s : SymbolStpState} {orderId : Nat} {order : RestingOrder}
    (h : s.ordersById.lookup orderId = some order) (side : OrderSide) (groupId : Nat) :
    (s.removeOrder orderId).1.group side groupId =
      if order.side = side ∧ order.stpGroupId = groupId then
        (s.group side groupId).filter fun o => o.orderId ≠ orderId
      else s.group side groupId := by
  have horders : (s.removeOrder orderId).1.ordersByGroup side =
      (s.setOrders order.side
        (removeFrom (s.ordersByGroup order.side) order.stpGroupId orderId)).ordersByGroup side := by
    simp only [removeOrder, h, ordersByGroup_recalculateBestPrices]
    cases side <;> cases order.side <;> rfl
  rw [group, horders]
  by_cases hside : side = order.side
  · subst hside
    rw [ordersByGroup_setOrders_self]
    by_cases hgroup : groupId = order.stpGroupId
    · subst hgroup
      rw [if_pos ⟨rfl, rfl⟩, lookup_removeFrom_self]
      rfl
    · rw [lookup_removeFrom_of_ne _ _ hgroup, if_neg (fun hand => hgroup hand.2.symm)]
      rfl
  · rw [ordersByGroup_setOrders_of_ne s _ hside, if_neg (fun hand => hside hand.1.symm)]
    rfl

/-- A removed order is found no longer. -/
theorem ordersById_removeOrder {s : SymbolStpState} {orderId : Nat} {order : RestingOrder}
    (h : s.ordersById.lookup orderId = some order) :
    (s.removeOrder orderId).1.ordersById = s.ordersById.erase orderId := by
  simp only [removeOrder, h, ordersById_recalculateBestPrices, ordersById_setOrders]

/-- Removing an order that is not listed does nothing. -/
theorem removeOrder_of_none {s : SymbolStpState} {orderId : Nat}
    (h : s.ordersById.lookup orderId = none) : (s.removeOrder orderId).1 = s := by
  unfold removeOrder
  rw [h]

/-! ### The orders of a symbol -/

/-- **The state of a symbol** has those of some orders that are of the symbol. -/
structure Holds (s : SymbolStpState) (symbol : StpSymbol) (orders : List RestingOrder) :
    Prop where
  group_eq : ∀ side groupId, s.group side groupId =
    orders.filter fun o => o.symbol = symbol ∧ o.side = side ∧ o.stpGroupId = groupId
  lookup_iff : ∀ id o, s.ordersById.lookup id = some o ↔
    o ∈ orders ∧ o.symbol = symbol ∧ o.orderId = id

namespace Holds

variable {s : SymbolStpState} {symbol symbol' : StpSymbol} {orders : List RestingOrder}

/-- An order of the symbol is added. -/
theorem addOrder (h : s.Holds symbol orders) {order : RestingOrder}
    (hfresh : ∀ o ∈ orders, o.orderId ≠ order.orderId) (hsymbol : order.symbol = symbol) :
    (s.addOrder order).Holds symbol (orders ++ [order]) := by
  refine ⟨fun side groupId => ?_, fun id o => ?_⟩
  · rw [group_addOrder, h.group_eq, List.filter_append]
    refine congrArg _ ?_
    by_cases hplace : order.side = side ∧ order.stpGroupId = groupId
    · rw [if_pos hplace, List.filter_cons_of_pos (by simpa using ⟨hsymbol, hplace⟩)]
      rfl
    · rw [if_neg hplace, List.filter_cons_of_neg (by simpa [hsymbol] using hplace)]
      rfl
  · rw [ordersById_addOrder, List.mem_append, List.mem_singleton]
    by_cases hid : id = order.orderId
    · subst hid
      rw [AList.lookup_insert]
      constructor
      · rintro ⟨⟩
        exact ⟨.inr rfl, hsymbol, rfl⟩
      · rintro ⟨ho | rfl, -, hsame⟩
        · exact absurd hsame (hfresh _ ho)
        · rfl
    · rw [AList.lookup_insert_ne hid, h.lookup_iff]
      constructor
      · rintro ⟨ho, hplace⟩
        exact ⟨.inl ho, hplace⟩
      · rintro ⟨ho | rfl, hplace⟩
        · exact ⟨ho, hplace⟩
        · exact absurd hplace.2.symm hid

/-- An order of another symbol does not matter. -/
theorem append_other (h : s.Holds symbol orders) {order : RestingOrder}
    (hsymbol : order.symbol ≠ symbol) : s.Holds symbol (orders ++ [order]) := by
  refine ⟨fun side groupId => ?_, fun id o => ?_⟩
  · rw [h.group_eq, List.filter_append, List.filter_cons_of_neg (by simp [hsymbol])]
    exact (List.append_nil _).symm
  · rw [h.lookup_iff, List.mem_append, List.mem_singleton]
    constructor
    · rintro ⟨ho, hplace⟩
      exact ⟨.inl ho, hplace⟩
    · rintro ⟨ho | rfl, hplace⟩
      · exact ⟨ho, hplace⟩
      · exact absurd hplace.1 hsymbol

/-- Some orders may go that the state does not have. -/
theorem filter_absent (h : s.Holds symbol orders) {orderId : Nat}
    (habsent : ∀ o ∈ orders, o.symbol = symbol → ¬ (o.symbol = symbol' ∧ o.orderId = orderId)) :
    s.Holds symbol (orders.filter fun o => ¬ (o.symbol = symbol' ∧ o.orderId = orderId)) := by
  refine ⟨fun side groupId => ?_, fun id o => ?_⟩
  · rw [h.group_eq, List.filter_filter]
    refine List.filter_congr fun o ho => ?_
    by_cases hsymbol : o.symbol = symbol
    · simp [habsent o ho hsymbol]
    · simp [hsymbol]
  · rw [h.lookup_iff, List.mem_filter]
    constructor
    · rintro ⟨ho, hplace⟩
      exact ⟨⟨ho, decide_eq_true (habsent o ho hplace.1)⟩, hplace⟩
    · rintro ⟨⟨ho, -⟩, hplace⟩
      exact ⟨ho, hplace⟩

/-- An order of the symbol is removed, if there is one with the id. -/
theorem removeOrder (h : s.Holds symbol orders)
    (hinj : ∀ o ∈ orders, ∀ o' ∈ orders, o.orderId = o'.orderId → o = o') (orderId : Nat) :
    (s.removeOrder orderId).1.Holds symbol
      (orders.filter fun o => ¬ (o.symbol = symbol ∧ o.orderId = orderId)) := by
  cases hlookup : s.ordersById.lookup orderId with
  | none =>
      rw [removeOrder_of_none hlookup]
      refine h.filter_absent fun o ho _ hboth => ?_
      rw [(h.lookup_iff orderId o).mpr ⟨ho, hboth⟩] at hlookup
      cases hlookup
  | some order =>
      obtain ⟨horder, -, hid⟩ := (h.lookup_iff orderId order).mp hlookup
      refine ⟨fun side groupId => ?_, fun id o => ?_⟩
      · rw [group_removeOrder hlookup, h.group_eq]
        split
        · rw [List.filter_filter, List.filter_filter]
          refine List.filter_congr fun o _ => ?_
          by_cases ho : o.symbol = symbol <;> simp [ho, Bool.and_comm]
        · next hother =>
            rw [List.filter_filter]
            refine List.filter_congr fun o ho => ?_
            by_cases hsame : o.orderId = orderId
            · have hne : ¬ (o.side = side ∧ o.stpGroupId = groupId) := by
                rwa [hinj o ho order horder (hsame.trans hid.symm)]
              simp [hne]
            · simp [hsame]
      · rw [ordersById_removeOrder hlookup, List.mem_filter]
        by_cases hsame : id = orderId
        · subst hsame
          rw [AList.lookup_erase]
          refine iff_of_false nofun ?_
          rintro ⟨⟨-, hnot⟩, hplace⟩
          exact of_decide_eq_true hnot hplace
        · rw [AList.lookup_erase_ne hsame, h.lookup_iff]
          constructor
          · rintro ⟨ho, hplace⟩
            exact ⟨⟨ho, decide_eq_true fun hboth => hsame (hplace.2.symm.trans hboth.2)⟩, hplace⟩
          · rintro ⟨⟨ho, -⟩, hplace⟩
            exact ⟨ho, hplace⟩

end Holds

end SymbolStpState

/-- `StpEngine`, without its venue. -/
structure StpEngine where
  symbolStates : AList fun _ : StpSymbol => SymbolStpState
  defaultAction : StpAction
  enabled : Bool
  checksPerformed : Nat
  conflictsDetected : Nat
  ordersRejected : Nat

namespace StpEngine

/-- `new`. -/
def new (defaultAction : StpAction) : StpEngine := ⟨∅, defaultAction, true, 0, 0, 0⟩

/-- The state of a symbol, a new one if there is none. -/
def symbolState (e : StpEngine) (symbol : StpSymbol) : SymbolStpState :=
  (e.symbolStates.lookup symbol).getD .new

/-- `register_resting_order`. -/
def registerRestingOrder (e : StpEngine) (o : RestingOrder) : StpEngine :=
  if e.enabled = false then e
  else
    { e with symbolStates := e.symbolStates.insert o.symbol ((e.symbolState o.symbol).addOrder o) }

/-- `remove_resting_order`. -/
def removeRestingOrder (e : StpEngine) (symbol : StpSymbol) (orderId : Nat) : StpEngine :=
  match e.symbolStates.lookup symbol with
  | none => e
  | some s => { e with symbolStates := e.symbolStates.insert symbol (s.removeOrder orderId).1 }

/-- The statistics of a check with a result. -/
def count (e : StpEngine) (result : StpCheckResult) : StpEngine :=
  match result with
  | .conflict .. => { e with conflictsDetected := (e.conflictsDetected + 1) % 2 ^ 64 }
  | .reject _ => { e with ordersRejected := (e.ordersRejected + 1) % 2 ^ 64 }
  | .pass => e

/-- `check_aggressive_order`. -/
def checkAggressiveOrder (e : StpEngine) (order : AggressiveOrder) : StpEngine × StpCheckResult :=
  if e.enabled = false then (e, .pass)
  else
    let e := { e with checksPerformed := (e.checksPerformed + 1) % 2 ^ 64 }
    match e.symbolStates.lookup order.symbol with
    | none => (e, .pass)
    | some s =>
        let result := s.checkSelfTrade order e.defaultAction
        (e.count result, result)

/-- `set_enabled`. -/
def setEnabled (e : StpEngine) (enabled : Bool) : StpEngine := { e with enabled := enabled }

/-- A call on the engine. -/
inductive Call where
  | registerRestingOrder (order : RestingOrder)
  | removeRestingOrder (symbol : StpSymbol) (orderId : Nat)
  | checkAggressiveOrder (order : AggressiveOrder)
  | setEnabled (enabled : Bool)
  deriving DecidableEq

/-- What a call leaves behind. -/
def apply (e : StpEngine) : Call → StpEngine
  | .registerRestingOrder order => e.registerRestingOrder order
  | .removeRestingOrder symbol orderId => e.removeRestingOrder symbol orderId
  | .checkAggressiveOrder order => (e.checkAggressiveOrder order).1
  | .setEnabled enabled => e.setEnabled enabled

/-- Counting a check touches no order, -/
@[simp]
theorem symbolStates_count (e : StpEngine) (result : StpCheckResult) :
    (e.count result).symbolStates = e.symbolStates := by
  cases result <;> rfl

/-- and no setting. -/
@[simp]
theorem defaultAction_count (e : StpEngine) (result : StpCheckResult) :
    (e.count result).defaultAction = e.defaultAction := by
  cases result <;> rfl

/-- A check leaves the orders as they are. -/
theorem symbolStates_checkAggressiveOrder (e : StpEngine) (order : AggressiveOrder) :
    (e.checkAggressiveOrder order).1.symbolStates = e.symbolStates := by
  unfold checkAggressiveOrder
  dsimp only
  split
  · rfl
  · cases e.symbolStates.lookup order.symbol with
    | none => rfl
    | some s => exact symbolStates_count _ _

/-- **An enabled check** asks the state of the symbol. -/
theorem checkAggressiveOrder_enabled {e : StpEngine} (h : e.enabled = true)
    (order : AggressiveOrder) :
    (e.checkAggressiveOrder order).2 =
      (e.symbolState order.symbol).checkSelfTrade order e.defaultAction := by
  unfold checkAggressiveOrder symbolState
  rw [if_neg (by simp [h])]
  dsimp only
  cases e.symbolStates.lookup order.symbol with
  | none => exact (SymbolStpState.checkSelfTrade_new order e.defaultAction).symm
  | some s => rfl

/-- **Registering while enabled** adds the order to its symbol. -/
theorem symbolState_registerRestingOrder {e : StpEngine} (h : e.enabled = true)
    (o : RestingOrder) (symbol : StpSymbol) :
    (e.registerRestingOrder o).symbolState symbol =
      if o.symbol = symbol then (e.symbolState symbol).addOrder o else e.symbolState symbol := by
  unfold registerRestingOrder
  rw [if_neg (by simp [h])]
  split
  · rename_i hsymbol
    subst hsymbol
    rw [symbolState, AList.lookup_insert, Option.getD_some]
  · rename_i hsymbol
    rw [symbolState, AList.lookup_insert_ne (Ne.symm hsymbol)]
    rfl

/-- **Removing** takes the order out of the state of the symbol. -/
theorem symbolState_removeRestingOrder (e : StpEngine) (symbol : StpSymbol) (orderId : Nat)
    (symbol' : StpSymbol) :
    (e.removeRestingOrder symbol orderId).symbolState symbol' =
      if symbol = symbol' then ((e.symbolState symbol').removeOrder orderId).1
      else e.symbolState symbol' := by
  unfold removeRestingOrder
  split
  · rename_i hlookup
    split
    · rename_i hsymbol
      subst hsymbol
      rw [symbolState, hlookup]
      rfl
    · rfl
  · rename_i s hlookup
    split
    · rename_i hsymbol
      subst hsymbol
      rw [symbolState, AList.lookup_insert, symbolState, hlookup]
      rfl
    · rename_i hsymbol
      rw [symbolState, AList.lookup_insert_ne (Ne.symm hsymbol)]
      rfl

end StpEngine

/-! ## Runs -/

/-- A resting order, and whether the engine was enabled when it was registered. -/
structure Registration where
  order : RestingOrder
  seen : Bool
  deriving DecidableEq

/-- An engine, the orders that were registered and not removed, and all ids that were
registered. -/
structure StpRun where
  engine : StpEngine
  resting : List Registration
  ids : List Nat

namespace StpRun

open StpEngine SymbolStpState

/-- A new engine. -/
def init (defaultAction : StpAction) : StpRun := ⟨.new defaultAction, [], []⟩

/-- One call. -/
def step (r : StpRun) (c : Call) : Option StpRun :=
  some
    { engine := r.engine.apply c
      resting :=
        match c with
        | .registerRestingOrder order => r.resting ++ [Registration.mk order r.engine.enabled]
        | .removeRestingOrder symbol orderId =>
            r.resting.filter fun p => ¬ (p.order.symbol = symbol ∧ p.order.orderId = orderId)
        | _ => r.resting
      ids :=
        match c with
        | .registerRestingOrder order => order.orderId :: r.ids
        | _ => r.ids }

/-- The resting orders. -/
def live (r : StpRun) : List RestingOrder := r.resting.map Registration.order

/-- The resting orders that the engine has recorded. -/
def recorded (r : StpRun) : List RestingOrder :=
  (r.resting.filter Registration.seen).map Registration.order

/-- **An aggressive order would cross a resting one**: same symbol and group, other side,
and the price reaches, or it is a market order. -/
def Crosses (a : AggressiveOrder) (o : RestingOrder) : Prop :=
  (o.symbol = a.symbol ∧ o.side = a.side.opposite ∧ o.stpGroupId = a.stpGroupId) ∧ WouldMatch a o

instance (a : AggressiveOrder) (o : RestingOrder) : Decidable (Crosses a o) :=
  inferInstanceAs (Decidable (_ ∧ _))

/-- The ids of the orders of a list that an aggressive order would cross. -/
def crossedIds (a : AggressiveOrder) (orders : List RestingOrder) : List Nat :=
  (orders.filter fun o => Crosses a o).map RestingOrder.orderId

/-- **An enabled check names exactly the resting orders that would be crossed**, in the
order they were registered, and passes when there is none. -/
def Exact (r : StpRun) (c : Call) (_ : StpRun) : Prop :=
  ∀ a, c = .checkAggressiveOrder a → r.engine.enabled = true →
    (r.engine.checkAggressiveOrder a).2 = .ofIds r.engine.defaultAction (crossedIds a r.live)

/-- **No order registered while the engine was disabled would be crossed** in an enabled
check. -/
def NoneMissed (r : StpRun) (c : Call) (_ : StpRun) : Prop :=
  ∀ a, c = .checkAggressiveOrder a → r.engine.enabled = true →
    ∀ p ∈ r.resting, p.seen = false → ¬ Crosses a p.order

instance (r : StpRun) (c : Call) (r' : StpRun) : Decidable (NoneMissed r c r') :=
  match c with
  | .checkAggressiveOrder a =>
      decidable_of_iff (r.engine.enabled = true →
          ∀ p ∈ r.resting, p.seen = false → ¬ Crosses a p.order)
        ⟨fun h _ heq => by cases heq; exact h, fun h => h a rfl⟩
  | .registerRestingOrder _ | .removeRestingOrder .. | .setEnabled _ => .isTrue nofun

/-- An id is registered for the first time. -/
def Once (r : StpRun) (c : Call) (_ : StpRun) : Prop :=
  ∀ order, c = .registerRestingOrder order → order.orderId ∉ r.ids

/-! ### The invariant -/

/-- **The maps of the engine are those of the recorded orders.** -/
structure Inv (r : StpRun) : Prop where
  group_eq : ∀ symbol side groupId, (r.engine.symbolState symbol).group side groupId =
    r.recorded.filter fun o => o.symbol = symbol ∧ o.side = side ∧ o.stpGroupId = groupId
  lookup_iff : ∀ symbol id o, (r.engine.symbolState symbol).ordersById.lookup id = some o ↔
    o ∈ r.recorded ∧ o.symbol = symbol ∧ o.orderId = id
  nodup : (r.resting.map fun p => p.order.orderId).Nodup
  known : ∀ p ∈ r.resting, p.order.orderId ∈ r.ids

/-- A new engine has recorded nothing, and nothing rests. -/
theorem inv_init (defaultAction : StpAction) : (init defaultAction).Inv := by
  refine ⟨fun symbol side groupId => ?_, fun symbol id o => ?_, List.nodup_nil, nofun⟩
  · cases side <;> rfl
  · exact iff_of_false nofun (fun h => absurd h.1 List.not_mem_nil)

/-- The recorded orders are those that were registered while the engine was enabled. -/
theorem mem_recorded {r : StpRun} {o : RestingOrder} : o ∈ r.recorded ↔ ⟨o, true⟩ ∈ r.resting := by
  unfold recorded
  rw [List.mem_map]
  constructor
  · rintro ⟨p, hp, rfl⟩
    obtain ⟨hmem, hseen⟩ := List.mem_filter.mp hp
    exact hseen ▸ hmem
  · intro h
    exact ⟨_, List.mem_filter.mpr ⟨h, rfl⟩, rfl⟩

/-- Resting orders with one id are one order. -/
theorem Inv.registration_inj {r : StpRun} (inv : r.Inv) {p q : Registration}
    (hp : p ∈ r.resting) (hq : q ∈ r.resting) (h : p.order.orderId = q.order.orderId) : p = q :=
  List.inj_on_of_nodup_map inv.nodup hp hq h

/-- **A check is exact for the recorded orders.** -/
theorem Inv.checkAggressiveOrder_eq {r : StpRun} (inv : r.Inv) (h : r.engine.enabled = true)
    (a : AggressiveOrder) :
    (r.engine.checkAggressiveOrder a).2 =
      .ofIds r.engine.defaultAction (crossedIds a r.recorded) := by
  rw [checkAggressiveOrder_enabled h, checkSelfTrade, inv.group_eq, List.filter_filter, crossedIds]
  refine congrArg _ (congrArg _ (List.filter_congr fun o _ => ?_))
  rw [← Bool.decide_and]
  exact decide_eq_decide.mpr and_comm

/-- **A check is exact** just when it misses no order. -/
theorem Inv.exact_iff {r r' : StpRun} (inv : r.Inv) (c : Call) :
    r.NoneMissed c r' ↔ r.Exact c r' := by
  constructor
  · rintro h a rfl henabled
    rw [inv.checkAggressiveOrder_eq henabled, crossedIds, crossedIds, recorded, live]
    refine congrArg _ (congrArg _ ?_)
    rw [List.filter_map, List.filter_map, List.filter_filter]
    refine congrArg _ (List.filter_congr fun p hp => ?_)
    cases hseen : p.seen with
    | true => simp
    | false => simpa using h a rfl henabled p hp hseen
  · rintro h a rfl henabled p hp hseen hcrosses
    have heq := h a rfl henabled
    rw [inv.checkAggressiveOrder_eq henabled] at heq
    have hlive : p.order.orderId ∈ crossedIds a r.live :=
      List.mem_map_of_mem (List.mem_filter.mpr ⟨List.mem_map_of_mem hp, by simpa using hcrosses⟩)
    obtain ⟨o, ho, hid⟩ := List.mem_map.mp (StpCheckResult.mem_of_ofIds_eq heq.symm hlive)
    have hrecorded := mem_recorded.mp (List.mem_filter.mp ho).1
    have hsame := inv.registration_inj hrecorded hp hid
    rw [← hsame] at hseen
    cases hseen

/-- Each symbol has its recorded orders. -/
theorem Inv.holds {r : StpRun} (inv : r.Inv) (symbol : StpSymbol) :
    (r.engine.symbolState symbol).Holds symbol r.recorded :=
  ⟨inv.group_eq symbol, inv.lookup_iff symbol⟩

/-- The invariant from what each symbol has. -/
theorem inv_of_holds {r : StpRun}
    (holds : ∀ symbol, (r.engine.symbolState symbol).Holds symbol r.recorded)
    (nodup : (r.resting.map fun p => p.order.orderId).Nodup)
    (known : ∀ p ∈ r.resting, p.order.orderId ∈ r.ids) : r.Inv :=
  ⟨fun symbol => (holds symbol).group_eq, fun symbol => (holds symbol).lookup_iff, nodup, known⟩

/-- Registering keeps the invariant. -/
theorem Inv.register {r r' : StpRun} (inv : r.Inv) {order : RestingOrder}
    (hstep : r.step (.registerRestingOrder order) = some r') (hnew : order.orderId ∉ r.ids) :
    r'.Inv := by
  cases hstep
  have hfresh : ∀ p ∈ r.resting, p.order.orderId ≠ order.orderId :=
    fun p hp h => hnew (h ▸ inv.known p hp)
  refine inv_of_holds (fun symbol => ?_) ?_ fun p hp => ?_
  · show ((r.engine.registerRestingOrder order).symbolState symbol).Holds symbol
      (((r.resting ++ [Registration.mk order r.engine.enabled]).filter Registration.seen).map
        Registration.order)
    rw [List.filter_append, List.map_append]
    cases henabled : r.engine.enabled with
    | false =>
        have hengine : r.engine.registerRestingOrder order = r.engine := if_pos henabled
        rw [hengine, List.filter_cons_of_neg (by simp), List.filter_nil, List.map_nil,
          List.append_nil]
        exact inv.holds symbol
    | true =>
        rw [symbolState_registerRestingOrder henabled]
        split
        · next hsymbol =>
            exact (inv.holds symbol).addOrder (fun o ho => hfresh _ (mem_recorded.mp ho)) hsymbol
        · next hsymbol => exact (inv.holds symbol).append_other hsymbol
  · show ((r.resting ++ [_]).map fun p : Registration => p.order.orderId).Nodup
    rw [List.map_append]
    refine List.nodup_append'.mpr ⟨inv.nodup, List.nodup_singleton _, ?_⟩
    refine List.disjoint_singleton.mpr fun hmem => ?_
    obtain ⟨p, hp, hid⟩ := List.mem_map.mp hmem
    exact hfresh p hp hid
  · rcases List.mem_append.mp hp with hp | hp
    · exact List.mem_cons_of_mem _ (inv.known p hp)
    · rw [List.mem_singleton.mp hp]
      exact List.mem_cons_self

/-- Removing keeps the invariant. -/
theorem Inv.remove {r r' : StpRun} (inv : r.Inv) {symbol : StpSymbol} {orderId : Nat}
    (hstep : r.step (.removeRestingOrder symbol orderId) = some r') : r'.Inv := by
  cases hstep
  have hrecorded : ((r.resting.filter fun p =>
        ¬ (p.order.symbol = symbol ∧ p.order.orderId = orderId)).filter Registration.seen).map
          Registration.order =
      r.recorded.filter fun o => ¬ (o.symbol = symbol ∧ o.orderId = orderId) := by
    rw [recorded, List.filter_map, List.filter_filter, List.filter_filter]
    refine congrArg _ (List.filter_congr fun p _ => ?_)
    exact Bool.and_comm _ _
  have hinj : ∀ o ∈ r.recorded, ∀ o' ∈ r.recorded, o.orderId = o'.orderId → o = o' :=
    fun o ho o' ho' hsame => congrArg Registration.order
      (inv.registration_inj (mem_recorded.mp ho) (mem_recorded.mp ho') hsame)
  refine inv_of_holds (fun symbol' => ?_) (inv.nodup.sublist (List.filter_sublist.map _))
    fun p hp => inv.known p (List.mem_filter.mp hp).1
  show ((r.engine.removeRestingOrder symbol orderId).symbolState symbol').Holds symbol'
    (List.map Registration.order (List.filter Registration.seen _))
  rw [hrecorded, symbolState_removeRestingOrder]
  split
  · next hsymbol =>
      subst hsymbol
      exact (inv.holds symbol).removeOrder hinj orderId
  · next hsymbol =>
      exact (inv.holds symbol').filter_absent fun o _ ho hboth =>
        hsymbol (hboth.1.symm.trans ho)

/-- **Every call keeps the maps in step**, as long as no id is registered again. -/
theorem Inv.step {r r' : StpRun} {c : Call} (inv : r.Inv) (hstep : r.step c = some r')
    (honce : r.Once c r') : r'.Inv := by
  cases c with
  | registerRestingOrder order => exact inv.register hstep (honce order rfl)
  | removeRestingOrder symbol orderId => exact inv.remove hstep
  | checkAggressiveOrder a =>
      cases hstep
      have hstate : ∀ symbol, ((r.engine.checkAggressiveOrder a).1).symbolState symbol =
          r.engine.symbolState symbol := fun symbol => by
        rw [symbolState, symbolStates_checkAggressiveOrder]
        rfl
      refine inv_of_holds (fun symbol => ?_) inv.nodup inv.known
      show ((r.engine.checkAggressiveOrder a).1.symbolState symbol).Holds symbol r.recorded
      rw [hstate]
      exact inv.holds symbol
  | setEnabled enabled =>
      cases hstep
      exact ⟨inv.group_eq, inv.lookup_iff, inv.nodup, inv.known⟩

/-! ### The result -/

/-- The ids that some calls register. -/
def registeredIds (calls : List Call) : List Nat :=
  calls.filterMap fun
    | .registerRestingOrder order => some order.orderId
    | _ => none

/-- Ids that are pairwise different, and new at the start, are registered once each. -/
theorem allSteps_once {calls : List Call} {r : StpRun} (hnodup : (registeredIds calls).Nodup)
    (hnew : ∀ id ∈ registeredIds calls, id ∉ r.ids) : AllSteps step Once r calls := by
  induction calls generalizing r with
  | nil => exact trivial
  | cons c calls ih =>
      refine (allSteps_cons_some rfl).mpr ?_
      cases c with
      | registerRestingOrder order =>
          change (order.orderId :: registeredIds calls).Nodup at hnodup
          change ∀ id ∈ order.orderId :: registeredIds calls, id ∉ r.ids at hnew
          rw [List.nodup_cons] at hnodup
          rw [List.forall_mem_cons] at hnew
          refine ⟨fun order' h => ?_, ih hnodup.2 fun id hid hmem => ?_⟩
          · cases h
            exact hnew.1
          · rcases List.mem_cons.mp hmem with rfl | hmem
            · exact hnodup.1 hid
            · exact hnew.2 id hid hmem
      | removeRestingOrder | checkAggressiveOrder | setEnabled =>
          exact ⟨nofun, ih hnodup hnew⟩

/-- **When self-trade prevention is exact.**  In every run in which no id is registered
twice: just when no enabled check would cross an order that was registered while the
engine was disabled and that still rests. -/
theorem exact_iff_noneMissed (defaultAction : StpAction) (calls : List Call)
    (honce : (registeredIds calls).Nodup) :
    AllSteps step NoneMissed (init defaultAction) calls ↔
      AllSteps step Exact (init defaultAction) calls :=
  allSteps_iff_of_step_iff (V := Once)
    (fun _ _ _ (inv : Inv _) hstep hv _ => inv.step hstep hv)
    (fun _ c _ (inv : Inv _) _ _ => inv.exact_iff c)
    calls (inv_init defaultAction) (allSteps_once honce fun _ _ => List.not_mem_nil)

/-- A resting sell of one unit at 100. -/
def restingSell (orderId : Nat) : RestingOrder :=
  ⟨orderId, Vector.replicate 12 0, .sell, 100, 1, 7, 0⟩

/-- An aggressive buy of one unit at 100. -/
def crossingBuy : AggressiveOrder := ⟨Vector.replicate 12 0, .buy, 100, 1, 7, false⟩

/-- The theorem on an order that is registered, crossed, and removed. -/
theorem exact_registeredAndRemoved :
    AllSteps step Exact (init .cancelBoth)
      [.registerRestingOrder (restingSell 1), .checkAggressiveOrder crossingBuy,
        .removeRestingOrder (Vector.replicate 12 0) 1, .checkAggressiveOrder crossingBuy] :=
  (exact_iff_noneMissed .cancelBoth _ (by decide)).mp (by decide)

/-- **An order registered while the engine was disabled** is missed. -/
theorem not_forall_checksExact :
    ¬ ∀ (defaultAction : StpAction) (calls : List Call), (registeredIds calls).Nodup →
      AllSteps step Exact (init defaultAction) calls := by
  intro h
  obtain ⟨-, -, -, hcheck, -⟩ := h .cancelBoth
    [.setEnabled false, .registerRestingOrder (restingSell 1), .setEnabled true,
      .checkAggressiveOrder crossingBuy] (by decide)
  exact absurd (hcheck crossingBuy rfl rfl) (by decide)

end StpRun

end StopTrading.Compliance
