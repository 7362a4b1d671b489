import StopTrading.Compliance.SelfTrade

/-!
# The best prices of self-trade prevention

`SymbolStpState` caches the best price of every side and group.  `add_order` compares with
what is cached, and `remove_order` computes the prices of all groups that have orders again.
Nothing takes a price out of the cache, so that the removal of the last order of a group
leaves its price behind.

`Cached` says what the cache is for.  An addition keeps it (`Cached.addOrder`), a removal
exactly if it leaves an order in the group (`cached_removeOrder_iff`), and so a run keeps it
exactly if none of its removals empties a group (`keepsGroup_iff_cached`).

### What is load-bearing

`Cached` is written with a quantifier over the resting prices, and used as an equation: the cache
of a side and group is the best of the list of its prices (`cached_iff`).  So each operation
needs two equations only, one for the list and one for the cache, and comparing them is all there
is to the proofs.  For `recalculate_best_prices` the second one ends in `or`: a group without
orders keeps what it had, and this is the defect.

`Listed` is needed to know that what is removed was in its group.  It is kept by every call
without a condition, in contrast to `Cached`, so the equivalence does not have to assume it.
-/

namespace StopTrading.Compliance

open Transition

/-- The best of some prices. -/
def OrderSide.best : OrderSide → List Int → Option Int
  | .buy, prices => prices.max?
  | .sell, prices => prices.min?

/-- A price is at least as good as another. -/
def OrderSide.NoWorse : OrderSide → Int → Int → Prop
  | .buy, price, other => other ≤ price
  | .sell, price, other => price ≤ other

/-- The best price is one of them, and none is better. -/
theorem OrderSide.best_eq_some_iff {side : OrderSide} {prices : List Int} {price : Int} :
    side.best prices = some price ↔
      price ∈ prices ∧ ∀ other ∈ prices, side.NoWorse price other := by
  cases side with
  | buy => exact List.max?_eq_some_iff
  | sell => exact List.min?_eq_some_iff

/-- Only no prices have no best one. -/
theorem OrderSide.best_eq_none_iff {side : OrderSide} {prices : List Int} :
    side.best prices = none ↔ prices = [] := by
  cases side with
  | buy => exact List.max?_eq_none_iff
  | sell => exact List.min?_eq_none_iff

/-- The better of two prices. -/
def OrderSide.better : OrderSide → Int → Int → Int
  | .buy => max
  | .sell => min

/-- The price that `add_order` starts from. -/
def OrderSide.worst : OrderSide → Int
  | .buy => -2 ^ 63
  | .sell => 2 ^ 63 - 1

/-- The best price with one price more. -/
theorem OrderSide.best_concat (side : OrderSide) (prices : List Int) {price : Int}
    (hrange : -2 ^ 63 ≤ price ∧ price ≤ 2 ^ 63 - 1) :
    side.best (prices ++ [price]) =
      some (side.better ((side.best prices).getD side.worst) price) := by
  rw [best_eq_some_iff, List.forall_mem_append, List.forall_mem_singleton, List.mem_append,
    List.mem_singleton]
  cases hbest : side.best prices with
  | none =>
      rw [best_eq_none_iff.mp hbest]
      cases side with
      | buy => exact ⟨.inr (max_eq_right hrange.1), nofun, le_max_right _ _⟩
      | sell => exact ⟨.inr (min_eq_right hrange.2), nofun, min_le_right _ _⟩
  | some best =>
      obtain ⟨hmem, hall⟩ := best_eq_some_iff.mp hbest
      cases side with
      | buy =>
          refine ⟨?_, fun other hother => (hall other hother).trans (le_max_left _ _),
            le_max_right _ _⟩
          show max best price ∈ prices ∨ max best price = price
          rcases max_choice best price with hold | hnew
          · exact .inl (by rwa [hold])
          · exact .inr hnew
      | sell =>
          refine ⟨?_, fun other hother => (min_le_left _ _).trans (hall other hother),
            min_le_right _ _⟩
          show min best price ∈ prices ∨ min best price = price
          rcases min_choice best price with hold | hnew
          · exact .inl (by rwa [hold])
          · exact .inr hnew

/-- A resting order whose price is an `i64`. -/
abbrev PricedOrder := {o : RestingOrder // -2 ^ 63 ≤ o.priceTicks ∧ o.priceTicks ≤ 2 ^ 63 - 1}

/-- A call on the state of a symbol. -/
inductive StateCall where
  | addOrder (order : PricedOrder)
  | removeOrder (orderId : Nat)
  deriving DecidableEq

namespace SymbolStpState

/-- The cached prices of a side. -/
def bestByGroup (s : SymbolStpState) : OrderSide → AList fun _ : Nat => Int
  | .buy => s.bestBidByGroup
  | .sell => s.bestOfferByGroup

/-- One call. -/
def step (s : SymbolStpState) : StateCall → Option SymbolStpState
  | .addOrder order => some (s.addOrder order)
  | .removeOrder orderId => some (s.removeOrder orderId).1

/-- The prices of the orders of a side and group. -/
def prices (s : SymbolStpState) (side : OrderSide) (groupId : Nat) : List Int :=
  (s.group side groupId).map RestingOrder.priceTicks

/-- **The best prices are cached**: a side and group has one exactly if it has a resting
order, and it is the price of one and no worse than that of any. -/
def Cached (s : SymbolStpState) : Prop :=
  ∀ side groupId price, (s.bestByGroup side).lookup groupId = some price ↔
    price ∈ s.prices side groupId ∧ ∀ other ∈ s.prices side groupId, side.NoWorse price other

/-- **A removal leaves an order** in the group of the order that it removes. -/
def KeepsGroup (s : SymbolStpState) (c : StateCall) (_ : SymbolStpState) : Prop :=
  ∀ orderId order, c = .removeOrder orderId → s.ordersById.lookup orderId = some order →
    ∃ o ∈ s.group order.side order.stpGroupId, o.orderId ≠ orderId

/-- An order that is listed by its id is in its group. -/
def Listed (s : SymbolStpState) : Prop :=
  ∀ orderId order, s.ordersById.lookup orderId = some order →
    order.orderId = orderId ∧ order ∈ s.group order.side order.stpGroupId

/-- **The cache as an equation**: it is the best of the resting prices. -/
theorem cached_iff {s : SymbolStpState} :
    s.Cached ↔ ∀ side groupId,
      (s.bestByGroup side).lookup groupId = side.best (s.prices side groupId) := by
  constructor
  · intro h side groupId
    refine Option.ext fun price => ?_
    rw [h, OrderSide.best_eq_some_iff]
  · intro h side groupId price
    rw [h, OrderSide.best_eq_some_iff]

/-- Nothing rests, and nothing is cached. -/
theorem cached_new : new.Cached :=
  fun side groupId price => by
    refine iff_of_false ?_ fun h => ?_
    · cases side <;> exact nofun
    · cases side <;> exact absurd h.1 List.not_mem_nil

/-- Nothing is listed. -/
theorem listed_new : new.Listed := fun _ _ h => nomatch h

/-! ## Adding an order -/

/-- An addition appends one price, to one list. -/
theorem prices_addOrder (s : SymbolStpState) (o : RestingOrder) (side : OrderSide)
    (groupId : Nat) :
    (s.addOrder o).prices side groupId =
      s.prices side groupId ++
        if o.side = side ∧ o.stpGroupId = groupId then [o.priceTicks] else [] := by
  rw [prices, group_addOrder, List.map_append]
  split_ifs <;> rfl

/-- What `add_order` caches. -/
theorem lookup_bestByGroup_addOrder (s : SymbolStpState) (o : RestingOrder) (side : OrderSide)
    (groupId : Nat) :
    ((s.addOrder o).bestByGroup side).lookup groupId =
      if o.side = side ∧ o.stpGroupId = groupId then
        some (side.better (((s.bestByGroup side).lookup groupId).getD side.worst) o.priceTicks)
      else (s.bestByGroup side).lookup groupId := by
  have hinsert : (s.addOrder o).bestByGroup side =
      if o.side = side then
        (s.bestByGroup side).insert o.stpGroupId
          (side.better (((s.bestByGroup side).lookup o.stpGroupId).getD side.worst) o.priceTicks)
      else s.bestByGroup side := by
    unfold addOrder updateBest
    cases hside : o.side <;> cases side <;> rfl
  rw [hinsert]
  by_cases hside : o.side = side
  · rw [if_pos hside]
    by_cases hgroup : o.stpGroupId = groupId
    · rw [if_pos ⟨hside, hgroup⟩, hgroup, AList.lookup_insert]
    · rw [if_neg fun h => hgroup h.2, AList.lookup_insert_ne (Ne.symm hgroup)]
  · rw [if_neg hside, if_neg fun h => hside h.1]

/-- **An addition** keeps the cache. -/
theorem Cached.addOrder {s : SymbolStpState} (h : s.Cached) (order : PricedOrder) :
    (s.addOrder order).Cached := by
  rw [cached_iff] at h ⊢
  intro side groupId
  rw [lookup_bestByGroup_addOrder, prices_addOrder, h]
  split_ifs
  · exact (side.best_concat _ order.property).symm
  · rw [List.append_nil]

/-- An order is listed and put in its group at the same time. -/
theorem Listed.addOrder {s : SymbolStpState} (h : s.Listed) (o : RestingOrder) :
    (s.addOrder o).Listed := by
  intro orderId order horder
  rw [ordersById_addOrder] at horder
  rw [group_addOrder]
  by_cases hid : orderId = o.orderId
  · rw [hid, AList.lookup_insert] at horder
    cases horder
    rw [if_pos ⟨rfl, rfl⟩]
    exact ⟨hid.symm, List.mem_append_right _ (List.mem_singleton_self o)⟩
  · rw [AList.lookup_insert_ne hid] at horder
    exact ⟨(h _ _ horder).1, List.mem_append_left _ (h _ _ horder).2⟩

/-! ## Removing an order -/

/-- The prices that are computed again, over the entries of one side. -/
def recalculated (side : OrderSide) (entries : List (Sigma fun _ : Nat => List RestingOrder))
    (best : AList fun _ : Nat => Int) : AList fun _ : Nat => Int :=
  entries.foldl
    (fun best e => match side.best (e.2.map RestingOrder.priceTicks) with
      | none => best
      | some price => best.insert e.1 price) best

/-- A group whose orders have a price gets it, and the others keep what they have. -/
theorem lookup_recalculated (side : OrderSide)
    {entries : List (Sigma fun _ : Nat => List RestingOrder)} (hnodup : entries.NodupKeys)
    (best : AList fun _ : Nat => Int) (groupId : Nat) :
    (recalculated side entries best).lookup groupId =
      (side.best (((entries.dlookup groupId).getD []).map RestingOrder.priceTicks)).or
        (best.lookup groupId) := by
  induction entries generalizing best with
  | nil => cases side <;> rfl
  | cons e entries ih =>
      obtain ⟨groupId', orders⟩ := e
      obtain ⟨hfresh, hnodup⟩ := List.nodupKeys_cons.mp hnodup
      rw [recalculated, List.foldl_cons]
      refine (ih hnodup _).trans ?_
      by_cases hgroup : groupId = groupId'
      · subst hgroup
        rw [List.dlookup_cons_eq, List.dlookup_eq_none.mpr hfresh, Option.getD_none,
          Option.getD_some, List.map_nil, OrderSide.best_eq_none_iff.mpr rfl, Option.none_or]
        cases side.best (orders.map RestingOrder.priceTicks) with
        | none => rfl
        | some price => exact AList.lookup_insert _
      · rw [List.dlookup_cons_ne _ _ hgroup]
        cases side.best (orders.map RestingOrder.priceTicks) with
        | none => rfl
        | some price =>
            exact congrArg _ (AList.lookup_insert_ne hgroup)

/-- **A group without orders keeps its price**, when all prices are computed again. -/
theorem lookup_recalculateBestPrices (s : SymbolStpState) (side : OrderSide) (groupId : Nat) :
    (s.recalculateBestPrices.bestByGroup side).lookup groupId =
      (side.best (s.prices side groupId)).or ((s.bestByGroup side).lookup groupId) := by
  have hsame : s.recalculateBestPrices.bestByGroup side =
      recalculated side (s.ordersByGroup side).entries (s.bestByGroup side) := by
    cases side <;> rfl
  rw [hsame, lookup_recalculated side (s.ordersByGroup side).nodupKeys]
  rfl

/-- What `remove_order` caches. -/
theorem lookup_bestByGroup_removeOrder {s : SymbolStpState} {orderId : Nat}
    {order : RestingOrder} (h : s.ordersById.lookup orderId = some order) (side : OrderSide)
    (groupId : Nat) :
    ((s.removeOrder orderId).1.bestByGroup side).lookup groupId =
      (side.best ((s.removeOrder orderId).1.prices side groupId)).or
        ((s.bestByGroup side).lookup groupId) := by
  have hprices : ∀ t : SymbolStpState, t.recalculateBestPrices.prices side groupId =
      t.prices side groupId := fun t => by
    rw [prices, group, ordersByGroup_recalculateBestPrices]
    rfl
  simp only [removeOrder, h]
  rw [lookup_recalculateBestPrices, hprices]
  congr 1
  cases order.side <;> cases side <;> rfl

/-- A removal takes an order out of both. -/
theorem Listed.removeOrder {s : SymbolStpState} (h : s.Listed) (removed : Nat) :
    (s.removeOrder removed).1.Listed := by
  cases hlookup : s.ordersById.lookup removed with
  | none => rwa [removeOrder_of_none hlookup]
  | some gone =>
      intro orderId order horder
      rw [ordersById_removeOrder hlookup] at horder
      rw [group_removeOrder hlookup]
      have hne : orderId ≠ removed := by
        rintro rfl
        rw [AList.lookup_erase] at horder
        cases horder
      rw [AList.lookup_erase_ne hne] at horder
      obtain ⟨hid, hmem⟩ := h _ _ horder
      refine ⟨hid, ?_⟩
      split_ifs
      · exact List.mem_filter.mpr ⟨hmem, by simpa [hid] using hne⟩
      · exact hmem

/-- **A removal** keeps the cache exactly if it leaves an order in the group. -/
theorem cached_removeOrder_iff {s : SymbolStpState} (h : s.Cached) (hlisted : s.Listed)
    {orderId : Nat} {order : RestingOrder} (hlookup : s.ordersById.lookup orderId = some order) :
    (s.removeOrder orderId).1.Cached ↔
      ∃ o ∈ s.group order.side order.stpGroupId, o.orderId ≠ orderId := by
  rw [cached_iff] at h ⊢
  have hgroup := group_removeOrder hlookup
  constructor
  · intro hcached
    by_contra hnone
    rw [not_exists] at hnone
    -- the group is empty now, and its old price is still there
    have hempty : (s.removeOrder orderId).1.prices order.side order.stpGroupId = [] := by
      rw [prices, hgroup, if_pos ⟨rfl, rfl⟩, List.map_eq_nil_iff, List.filter_eq_nil_iff]
      intro o ho
      simpa using fun hid => hnone o ⟨ho, hid⟩
    have hcache := hcached order.side order.stpGroupId
    rw [lookup_bestByGroup_removeOrder hlookup, hempty, h,
      OrderSide.best_eq_none_iff.mpr rfl, Option.none_or, OrderSide.best_eq_none_iff,
      prices, List.map_eq_nil_iff] at hcache
    exact absurd (hlisted _ _ hlookup).2 (hcache ▸ List.not_mem_nil)
  · rintro ⟨o, ho, hid⟩ side groupId
    rw [lookup_bestByGroup_removeOrder hlookup, h]
    cases hbest : side.best ((s.removeOrder orderId).1.prices side groupId) with
    | some price => rfl
    | none =>
        rw [Option.none_or, OrderSide.best_eq_none_iff]
        have hempty := OrderSide.best_eq_none_iff.mp hbest
        rw [prices, hgroup, List.map_eq_nil_iff] at hempty
        split_ifs at hempty with hsame
        · obtain ⟨rfl, rfl⟩ := hsame
          have hkept := List.filter_eq_nil_iff.mp hempty o ho
          exact absurd hid (by simpa using hkept)
        · rw [prices, hempty, List.map_nil]

/-! ## The result -/

/-- What a run keeps as long as no removal empties a group. -/
structure Inv (s : SymbolStpState) : Prop where
  /-- the cache is right -/
  cached : s.Cached
  /-- and what is found by id is in its group -/
  listed : s.Listed

/-- A new state satisfies it. -/
theorem inv_new : new.Inv := ⟨cached_new, listed_new⟩

/-- Every call keeps the list of ids. -/
theorem Listed.step {s s' : SymbolStpState} {c : StateCall} (h : s.Listed)
    (hstep : s.step c = some s') : s'.Listed := by
  cases c with
  | addOrder order =>
      cases hstep
      exact h.addOrder order
  | removeOrder orderId =>
      cases hstep
      exact h.removeOrder orderId

/-- **One call** keeps the cache exactly if it meets the condition. -/
theorem Inv.cached_step_iff {s s' : SymbolStpState} {c : StateCall} (inv : s.Inv)
    (hstep : s.step c = some s') : s'.Cached ↔ s.KeepsGroup c s' := by
  cases c with
  | addOrder order =>
      cases hstep
      exact iff_of_true (inv.cached.addOrder order) nofun
  | removeOrder orderId =>
      cases hstep
      cases hlookup : s.ordersById.lookup orderId with
      | none =>
          rw [removeOrder_of_none hlookup]
          refine iff_of_true inv.cached fun orderId' order hc horder => ?_
          cases hc
          rw [hlookup] at horder
          cases horder
      | some order =>
          rw [cached_removeOrder_iff inv.cached inv.listed hlookup]
          constructor
          · intro hkeeps orderId' order' hc horder
            cases hc
            rw [hlookup] at horder
            cases horder
            exact hkeeps
          · exact fun hkeeps => hkeeps orderId order rfl hlookup

/-- Cached best prices come of removals that keep the group. -/
theorem keepsGroup_of_allStates {calls : List StateCall} (h : AllStates step Cached new calls) :
    AllSteps step KeepsGroup new calls :=
  h.allSteps
    (fun _ _ _ (inv : Inv _) hstep hkeeps =>
      ⟨(inv.cached_step_iff hstep).mpr hkeeps, inv.listed.step hstep⟩)
    (fun _ _ _ (inv : Inv _) hstep hcached => (inv.cached_step_iff hstep).mp hcached) inv_new

/-- **The best prices are cached** in every state of a run exactly if no removal takes the
last order of its side and group. -/
theorem keepsGroup_iff_cached (calls : List StateCall) :
    AllSteps step KeepsGroup new calls ↔ AllStates step Cached new calls :=
  ⟨AllStates.of_invariant (fun _ (inv : Inv _) => inv.cached)
    (fun _ _ _ (inv : Inv _) hstep hkeeps =>
      ⟨(inv.cached_step_iff hstep).mpr hkeeps, inv.listed.step hstep⟩) inv_new,
    keepsGroup_of_allStates⟩

/-- A buy of one unit. -/
def unitBuy (orderId : Nat) : PricedOrder :=
  ⟨⟨orderId, Vector.replicate 12 0, .buy, 100, 1, 7, 0⟩, by norm_num, by norm_num⟩

/-- **The last order of a group** leaves its price behind. -/
theorem not_forall_bestCached :
    ¬ ∀ calls : List StateCall, AllStates step Cached new calls := by
  intro h
  have hkeeps := keepsGroup_of_allStates (h [.addOrder (unitBuy 1), .removeOrder 1])
  obtain ⟨-, hremove, -⟩ := hkeeps
  obtain ⟨o, ho, hid⟩ := hremove 1 (unitBuy 1) rfl rfl
  have hone : o = (unitBuy 1).val := List.mem_singleton.mp ho
  exact hid (by rw [hone]; rfl)

end SymbolStpState

end StopTrading.Compliance
