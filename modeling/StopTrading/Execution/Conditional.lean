import Mathlib.Algebra.Group.Nat.Defs
import Mathlib.Data.List.Nodup
import Mathlib.Data.List.Range
import Mathlib.Logic.Function.Basic
import Mathlib.Tactic.Common

/-!
# The conditional order router

`ConditionalOrderRouter` keeps orders in a pool of 64 places.  An order waits there with a
condition on the market, and `evaluate_and_execute` visits the places in order: an order that
was executed or cancelled is skipped, one whose expiration has passed is cancelled, and one
whose condition holds is executed and marked (`evaluateAndExecute_visited`).  The id of an
order is its place plus one, so after `clear` ids are given out again.

The child order is passed through to the executor and not looked at, so the router is generic
in it.

### Design decisions

The pool of places is a function of the index, which costs nothing, as no operation goes beyond
the places in use, and these are numbered from zero.  The child order is of any type `C`: the
router stores it and passes it on, and histories use this to send a number along with it.

`evaluate_node` recurses along child indices.  An index may in principle lead anywhere, but
`link` makes children behind their parents, so that as many rounds as there are places are
enough.

### What is load-bearing

`visit_spec` and `foldl_visit` are the only places where the loop is opened.  What is visited is
a range of places, each once, so that the visits do not see one another; the router after an
evaluation is the router before with every place replaced by itself after one visit.
-/

namespace StopTrading.Execution.Conditional

universe u

/-! ## Conditions -/

/-- `ConditionType`. -/
inductive ConditionType where
  | cvdGreaterThan (threshold : Int)
  | cvdLessThan (threshold : Int)
  | spreadLessThan (threshold : Nat)
  | spreadGreaterThan (threshold : Nat)
  | priceAbove (threshold : Nat)
  | priceBelow (threshold : Nat)
  | imbalanceAbove (threshold : Nat)
  | imbalanceBelow (threshold : Nat)
  | volatilityBelow (threshold : Nat)
  | volatilityAbove (threshold : Nat)
  | micropriceDriftAbove (threshold : Int)
  | micropriceDriftBelow (threshold : Int)
  | flagSet (flagId : Nat)
  deriving Repr, DecidableEq

/-- `LogicalOp`. -/
inductive LogicalOp where
  | and | or | not
  deriving Repr, DecidableEq

/-- `ConditionNode`. -/
structure ConditionNode where
  condition : ConditionType
  operator : LogicalOp
  leftChild : Option Nat
  rightChild : Option Nat
  deriving Repr, DecidableEq

/-- `MarketContext`. -/
structure MarketContext where
  currentPrice : Nat
  spreadMicros : Nat
  cvd : Int
  imbalanceRatio : Nat
  volatilityScaled : Nat
  micropriceDriftScaled : Int
  flags : Nat
  timestampNs : Nat
  deriving Repr, DecidableEq

/-- `MarketContext::default`. -/
def MarketContext.default : MarketContext := ⟨0, 0, 0, 0, 0, 0, 0, 0⟩

/-- `ConditionalExpression`; the 16 places as a function of their index. -/
structure ConditionalExpression where
  conditions : Nat → Option ConditionNode
  conditionCount : Nat
  rootIndex : Nat

/-- `eval_condition`.  A flag is a bit of the mask; a shift is by less than 64 places. -/
def evalCondition (ctx : MarketContext) : ConditionType → Bool
  | .cvdGreaterThan threshold => ctx.cvd > threshold
  | .cvdLessThan threshold => ctx.cvd < threshold
  | .spreadLessThan threshold => ctx.spreadMicros < threshold
  | .spreadGreaterThan threshold => ctx.spreadMicros > threshold
  | .priceAbove threshold => ctx.currentPrice > threshold
  | .priceBelow threshold => ctx.currentPrice < threshold
  | .imbalanceAbove threshold => ctx.imbalanceRatio > threshold
  | .imbalanceBelow threshold => ctx.imbalanceRatio < threshold
  | .volatilityBelow threshold => ctx.volatilityScaled < threshold
  | .volatilityAbove threshold => ctx.volatilityScaled > threshold
  | .micropriceDriftAbove threshold => ctx.micropriceDriftScaled > threshold
  | .micropriceDriftBelow threshold => ctx.micropriceDriftScaled < threshold
  | .flagSet flagId => ctx.flags.testBit (flagId % 64)

namespace ConditionalExpression

/-- `ConditionalExpression::new`. -/
def new : ConditionalExpression := ⟨fun _ => none, 0, 0⟩

/-- `with_condition`. -/
def withCondition (e : ConditionalExpression) (condition : ConditionType) :
    ConditionalExpression :=
  if e.conditionCount < 16 then
    { conditions :=
        Function.update e.conditions e.conditionCount (some ⟨condition, .and, none, none⟩)
      rootIndex := e.conditionCount
      conditionCount := e.conditionCount + 1 }
  else e

/-- `and` and `or`: the root gets the operator, and the new node for its right child. -/
def link (operator : LogicalOp) (e : ConditionalExpression) (condition : ConditionType) :
    ConditionalExpression :=
  if e.conditionCount < 16 ∧ e.conditionCount > 0 then
    let newIdx := e.conditionCount
    let linked :=
      match e.conditions e.rootIndex with
      | some parent =>
          Function.update e.conditions e.rootIndex
            (some { parent with operator := operator, rightChild := some newIdx })
      | none => e.conditions
    { e with
      conditions := Function.update linked newIdx (some ⟨condition, operator, none, none⟩)
      conditionCount := e.conditionCount + 1 }
  else e

/-- `and`. -/
def and : ConditionalExpression → ConditionType → ConditionalExpression := link .and

/-- `or`. -/
def or : ConditionalExpression → ConditionType → ConditionalExpression := link .or

/-- `evaluate_node`.  A child has a place after its parent's, so 16 rounds reach every node. -/
def evaluateNode (e : ConditionalExpression) (ctx : MarketContext) : Nat → Nat → Bool
  | 0, _ => false
  | rounds + 1, nodeIdx =>
      match e.conditions nodeIdx with
      | none => false
      | some node =>
          let result := evalCondition ctx node.condition
          match node.operator with
          | .and =>
              if result = false then false
              else
                match node.rightChild with
                | some right => result && e.evaluateNode ctx rounds right
                | none => result
          | .or =>
              if result = true then true
              else
                match node.rightChild with
                | some right => result || e.evaluateNode ctx rounds right
                | none => result
          | .not => !result

/-- `evaluate`. -/
def evaluate (e : ConditionalExpression) (ctx : MarketContext) : Bool :=
  if e.conditionCount = 0 then true else e.evaluateNode ctx 16 e.rootIndex

end ConditionalExpression

/-! ## The router -/

/-- `TimeInForce`. -/
inductive TimeInForce where
  | immediateOrCancel | fillOrKill | goodTillCancelled
  | goodTillDate (t : Nat)
  deriving Repr, DecidableEq

/-- `ChildOrder`. -/
structure ChildOrder where
  isBuy : Bool
  quantity : Nat
  limitPriceMicros : Nat
  tif : TimeInForce
  venueId : Nat
  deriving Repr, DecidableEq

variable {C : Type u}

/-- `ConditionalOrder`, with a child order of any type. -/
structure ConditionalOrder (C : Type u) where
  id : Nat
  expression : ConditionalExpression
  childOrder : C
  executed : Bool
  cancelled : Bool
  expirationNs : Nat

/-- `ConditionalOrderRouter`; the 64 places as a function of their index. -/
structure ConditionalOrderRouter (C : Type u) where
  orders : Nat → Option (ConditionalOrder C)
  orderCount : Nat
  executions : Nat
  rejections : Nat
  enabled : Bool

namespace ConditionalOrder

/-- The order is out of the game. -/
def done (o : ConditionalOrder C) : Bool := o.executed || o.cancelled

/-- The expiration of the order has passed; zero is none. -/
def expiredAt (o : ConditionalOrder C) (ctx : MarketContext) : Bool :=
  decide (ctx.timestampNs > o.expirationNs) && decide (o.expirationNs > 0)

/-- The visit of an order executes it. -/
def fires (o : ConditionalOrder C) (ctx : MarketContext) : Bool :=
  !o.done && !o.expiredAt ctx && o.expression.evaluate ctx

/-- The order after a visit. -/
def visited (o : ConditionalOrder C) (ctx : MarketContext) : ConditionalOrder C :=
  if o.done = true then o
  else if o.expiredAt ctx = true then { o with cancelled := true }
  else if o.expression.evaluate ctx = true then { o with executed := true }
  else o

end ConditionalOrder

namespace ConditionalOrderRouter

/-- `ConditionalOrderRouter::new`. -/
def new : ConditionalOrderRouter C := ⟨fun _ => none, 0, 0, 0, true⟩

/-- `add_order`. -/
def addOrder (r : ConditionalOrderRouter C) (expression : ConditionalExpression) (childOrder : C)
    (expirationNs : Nat) : Option Nat × ConditionalOrderRouter C :=
  if r.enabled = false then (none, r)
  else if r.orderCount ≥ 64 then (none, r)
  else
    let id := r.orderCount + 1
    (some id,
      { r with
        orders := Function.update r.orders r.orderCount
          (some ⟨id, expression, childOrder, false, false, expirationNs⟩)
        orderCount := id })

/-- One round of the loop of `evaluate_and_execute`; the calls of the executor are listed. -/
def visit (ctx : MarketContext) (pass : ConditionalOrderRouter C × List C) (i : Nat) :
    ConditionalOrderRouter C × List C :=
  let (r, calls) := pass
  match r.orders i with
  | none => (r, calls)
  | some o =>
      if o.done = true then (r, calls)
      else if o.expiredAt ctx = true then
        ({ r with
            orders := Function.update r.orders i (some { o with cancelled := true })
            rejections := (r.rejections + 1) % 2 ^ 64 },
          calls)
      else if o.expression.evaluate ctx = true then
        ({ r with
            orders := Function.update r.orders i (some { o with executed := true })
            executions := (r.executions + 1) % 2 ^ 64 },
          calls ++ [o.childOrder])
      else (r, calls)

/-- `evaluate_and_execute`: the router afterwards and what the executor was called with, as
many as are returned as triggered. -/
def evaluateAndExecute (r : ConditionalOrderRouter C) (ctx : MarketContext) :
    ConditionalOrderRouter C × List C :=
  if r.enabled = false then (r, [])
  else (List.range r.orderCount).foldl (visit ctx) (r, [])

/-- `cancel_order`. -/
def cancelOrder (r : ConditionalOrderRouter C) (id : Nat) : Bool × ConditionalOrderRouter C :=
  if id = 0 ∨ id > 64 then (false, r)
  else
    match r.orders (id - 1) with
    | some o =>
        if o.executed = false then
          (true,
            { r with
              orders := Function.update r.orders (id - 1) (some { o with cancelled := true }) })
        else (false, r)
    | none => (false, r)

/-- `enable`. -/
def enable (r : ConditionalOrderRouter C) : ConditionalOrderRouter C := { r with enabled := true }

/-- `disable`. -/
def disable (r : ConditionalOrderRouter C) : ConditionalOrderRouter C := { r with enabled := false }

/-- `clear`. -/
def clear (r : ConditionalOrderRouter C) : ConditionalOrderRouter C :=
  { r with orders := fun _ => none, orderCount := 0 }

/-! ## What an evaluation does -/

/-- What the executor is called with for a place. -/
def call (r : ConditionalOrderRouter C) (ctx : MarketContext) (i : Nat) : Option C :=
  (r.orders i).bind fun o => if o.fires ctx = true then some o.childOrder else none

/-- An empty place is passed over, -/
theorem visit_none {ctx : MarketContext} {r : ConditionalOrderRouter C} {i : Nat}
    (h : r.orders i = none) (calls : List C) : visit ctx (r, calls) i = (r, calls) := by
  simp only [visit, h]

/-- and nothing is executed for it. -/
theorem call_none {ctx : MarketContext} {r : ConditionalOrderRouter C} {i : Nat}
    (h : r.orders i = none) : r.call ctx i = none := by
  simp only [call, h, Option.bind_none]

/-- **What the visit of a place does**: it replaces the order by the visited one and calls
the executor if the order fires. -/
theorem visit_spec (ctx : MarketContext) (r : ConditionalOrderRouter C) (calls : List C)
    (i : Nat) :
    (visit ctx (r, calls) i).1.orders =
        Function.update r.orders i ((r.orders i).map (·.visited ctx)) ∧
      (visit ctx (r, calls) i).2 = calls ++ (r.call ctx i).toList ∧
      (visit ctx (r, calls) i).1.orderCount = r.orderCount ∧
      ∀ n, r.executions = n % 2 ^ 64 → (visit ctx (r, calls) i).1.executions =
        (n + (r.call ctx i).toList.length) % 2 ^ 64 := by
  cases horder : r.orders i with
  | none =>
      rw [visit_none horder, call_none horder, Option.map_none, ← horder]
      refine ⟨(Function.update_eq_self i r.orders).symm, ?_, rfl, fun n h => h⟩
      exact (List.append_nil calls).symm
  | some o =>
      have same : Function.update r.orders i (some o) = r.orders := by
        rw [← horder]
        exact Function.update_eq_self i r.orders
      simp only [visit, call, horder, Option.map_some, Option.bind_some, ConditionalOrder.visited,
        ConditionalOrder.fires]
      by_cases hdone : o.done = true
      · simp [hdone, same]
      by_cases hexpired : o.expiredAt ctx = true
      · simp [hdone, hexpired]
      by_cases hholds : o.expression.evaluate ctx = true
      · simp +contextual [hdone, hexpired, hholds]
      · simp [hdone, hexpired, hholds, same]

/-- **What the visit of some places does.** -/
structure Visited (ctx : MarketContext) (places : List Nat) (r r' : ConditionalOrderRouter C)
    (calls : List C) : Prop where
  /-- the places that were visited have changed -/
  orders : ∀ i, r'.orders i = if i ∈ places then (r.orders i).map (·.visited ctx) else r.orders i
  /-- what fires is executed, in order -/
  called : calls = places.filterMap (r.call ctx)
  /-- no order is added -/
  orderCount : r'.orderCount = r.orderCount
  /-- and every execution is counted -/
  executions : ∀ n, r.executions = n % 2 ^ 64 → r'.executions = (n + calls.length) % 2 ^ 64

/-- **The visits of some places**, each once, by induction on the places. -/
theorem foldl_visit (ctx : MarketContext) {places : List Nat} (nodup : places.Nodup) :
    ∀ (r : ConditionalOrderRouter C) (before : List C), ∃ r' calls,
      places.foldl (visit ctx) (r, before) = (r', before ++ calls) ∧
        Visited ctx places r r' calls := by
  induction places with
  | nil =>
      intro r before
      exact ⟨r, [], by simp, fun i => by simp, rfl, rfl, fun n h => h⟩
  | cons i places ih =>
      intro r before
      obtain ⟨hi, hplaces⟩ := List.nodup_cons.mp nodup
      obtain ⟨horders, hcalls, hcount, hexecutions⟩ := visit_spec ctx r before i
      obtain ⟨r', calls, hfold, hvisited⟩ :=
        ih hplaces (visit ctx (r, before) i).1 (visit ctx (r, before) i).2
      have hothers : ∀ j ∈ places, (visit ctx (r, before) i).1.orders j = r.orders j := by
        intro j hj
        have hne : j ≠ i := fun heq => hi (heq ▸ hj)
        rw [horders, Function.update_of_ne hne]
      have hlater : places.filterMap ((visit ctx (r, before) i).1.call ctx) =
          places.filterMap (r.call ctx) :=
        List.filterMap_congr fun j hj => by simp only [call, hothers j hj]
      have hlist : (i :: places).filterMap (r.call ctx) =
          (r.call ctx i).toList ++ places.filterMap (r.call ctx) := by
        cases hcall : r.call ctx i with
        | none => simp [hcall]
        | some c => simp [hcall]
      refine ⟨r', (r.call ctx i).toList ++ calls, ?_, fun j => ?_, ?_, ?_, fun n hn => ?_⟩
      · rw [List.foldl_cons, ← List.append_assoc, ← hcalls]
        exact hfold
      · rw [hvisited.orders j]
        by_cases hj : j = i
        · subst hj
          rw [if_neg hi, if_pos List.mem_cons_self, horders, Function.update_self]
        · simp only [horders, Function.update_of_ne hj, List.mem_cons, hj, false_or]
      · rw [hlist, hvisited.called, hlater]
      · rw [hvisited.orderCount, hcount]
      · rw [hvisited.executions _ (hexecutions n hn), List.length_append, Nat.add_assoc]

/-- An evaluation of an enabled router visits the places in use. -/
theorem evaluateAndExecute_visited {r : ConditionalOrderRouter C} (enabled : r.enabled = true)
    (ctx : MarketContext) :
    Visited ctx (List.range r.orderCount) r (r.evaluateAndExecute ctx).1
      (r.evaluateAndExecute ctx).2 := by
  obtain ⟨r', calls, hfold, hvisited⟩ := foldl_visit ctx (List.nodup_range (n := r.orderCount)) r []
  have henabled : ¬ r.enabled = false := by rw [enabled]; decide
  rw [evaluateAndExecute, if_neg henabled, hfold, List.nil_append]
  exact hvisited

end ConditionalOrderRouter

end StopTrading.Execution.Conditional
