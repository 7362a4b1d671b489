import Mathlib.Data.Rat.Defs
import Mathlib.Algebra.Order.Ring.Rat

/-!
# The order state machine

`OrderStateMachine` follows one order from `Pending` to `Filled`, `Cancelled` or
`Rejected`.  Quantities and prices are exact rationals.  Every call returns its
result together with the machine after it, also when the result is an error: the
calls write fields before they can still fail, and the errors are stated about
exactly that.

`reportExecution_cases` is the one place where the branches of
`report_execution` are taken apart.  Which of its four cases applies depends on
the flag `executed` and on the state, not on the execution that is reported:

* the flag is set: a duplicate;
* the flag is clear and the state is terminal: the flag is set all the same;
* the flag is clear and the order is pending: the fill is stored, and then the
  transition fails;
* the flag is clear and the order is open: the fill is stored.

### Design decisions

* A call returns the machine beside its result even when the result is an error.  With `Except`
  alone the machine after an error would be lost, and the question what an error leaves behind
  could not be asked.
* `fill` stores and `transition` checks, in this order, as in the source.  The case of a pending
  order is what comes of the order of the two.
-/

namespace StopTrading.Routing

/-- `OrderState`. -/
inductive OrderState where
  | pending
  | new
  | partiallyFilled
  | filled
  | cancelled
  | rejected
  deriving Repr, DecidableEq

/-- `is_terminal`. -/
def OrderState.isTerminal : OrderState → Bool
  | .filled => true
  | .cancelled => true
  | .rejected => true
  | _ => false

/-- `OrderStateError`, as far as the calls return it. -/
inductive OrderStateError where
  | invalidTransition (fromState toState : OrderState)
  | duplicateExecution
  deriving Repr, DecidableEq

/-- `Order`: the fields the state machine reads. -/
structure Order where
  id : Nat
  quantity : ℚ
  deriving Repr, DecidableEq

/-- `ExecutionReport`. -/
structure ExecutionReport where
  execId : Nat
  orderId : Nat
  quantity : ℚ
  price : ℚ
  cumulativeQty : ℚ
  remainingQty : ℚ
  averagePrice : ℚ
  state : OrderState
  deriving Repr, DecidableEq

/-- `OrderStateMachine`. -/
@[ext]
structure OrderStateMachine where
  order : Order
  state : OrderState
  filledQuantity : ℚ
  remainingQuantity : ℚ
  averageFillPrice : ℚ
  fillCount : Nat
  executed : Bool
  deriving Repr, DecidableEq

namespace OrderStateMachine

/-- `OrderStateMachine::new`. -/
def new (order : Order) : OrderStateMachine where
  order := order
  state := .pending
  filledQuantity := 0
  remainingQuantity := order.quantity
  averageFillPrice := 0
  fillCount := 0
  executed := false

/-- `is_valid_transition`. -/
def isValidTransition : OrderState → OrderState → Bool
  | .pending, target => target = .new ∨ target = .rejected ∨ target = .cancelled
  | .new, target => target = .partiallyFilled ∨ target = .filled ∨ target = .cancelled
  | .partiallyFilled, target => target = .filled ∨ target = .cancelled
  | .filled, _ => false
  | .cancelled, _ => false
  | .rejected, _ => false

/-- `transition`. -/
def transition (m : OrderStateMachine) (newState : OrderState) :
    Except OrderStateError Unit × OrderStateMachine :=
  if isValidTransition m.state newState then (.ok (), { m with state := newState })
  else (.error (.invalidTransition m.state newState), m)

/-- The stores of `report_execution`: the quantities, the running average and the
count. -/
def fill (m : OrderStateMachine) (quantity price : ℚ) : OrderStateMachine :=
  let actualQty := min quantity m.remainingQuantity
  let newFilled := m.filledQuantity + actualQty
  { m with
    filledQuantity := newFilled
    remainingQuantity := m.remainingQuantity - actualQty
    averageFillPrice :=
      if newFilled > 0 then
        (m.averageFillPrice * m.filledQuantity + price * actualQty) / newFilled
      else price
    fillCount := (m.fillCount + 1) % 2 ^ 64 }

/-- The report of an execution that was stored in `m`. -/
def report (m : OrderStateMachine) (execId : Nat) (actualQty price : ℚ) : ExecutionReport where
  execId := execId
  orderId := m.order.id
  quantity := actualQty
  price := price
  cumulativeQty := m.filledQuantity
  remainingQty := m.remainingQuantity
  averagePrice := m.averageFillPrice
  state := m.state

/-- `report_execution`. -/
def reportExecution (m : OrderStateMachine) (execId : Nat) (quantity price : ℚ) :
    Except OrderStateError ExecutionReport × OrderStateMachine :=
  -- the swap that reads the flag also sets it
  if m.executed then (.error .duplicateExecution, m)
  else
    let claimed := { m with executed := true }
    if m.state.isTerminal then
      (.error (.invalidTransition m.state .partiallyFilled), claimed)
    else
      let actualQty := min quantity m.remainingQuantity
      let stored := claimed.fill quantity price
      let moved :=
        if stored.remainingQuantity ≤ 0 then stored.transition .filled
        else if m.state ≠ .partiallyFilled then stored.transition .partiallyFilled
        else (.ok (), stored)
      match moved with
      | (.ok (), settled) => (.ok (settled.report execId actualQty price), settled)
      | (.error e, settled) => (.error e, settled)

/-- `cancel`. -/
def cancel (m : OrderStateMachine) : Except OrderStateError Unit × OrderStateMachine :=
  if m.state.isTerminal then (.error (.invalidTransition m.state .cancelled), m)
  else m.transition .cancelled

/-- `reject`. -/
def reject (m : OrderStateMachine) : Except OrderStateError Unit × OrderStateMachine :=
  if m.state ≠ .pending ∧ m.state ≠ .new then
    (.error (.invalidTransition m.state .rejected), m)
  else m.transition .rejected

/-- `activate`. -/
def activate (m : OrderStateMachine) : Except OrderStateError Unit × OrderStateMachine :=
  m.transition .new

/-! ## What the calls do -/

/-- The machine after an execution that was accepted. -/
def settled (m : OrderStateMachine) (quantity price : ℚ) : OrderStateMachine :=
  let stored := { m with executed := true }.fill quantity price
  { stored with
    state := if stored.remainingQuantity ≤ 0 then .filled else .partiallyFilled }

/-- **What `report_execution` does**, by the flag and the state. -/
theorem reportExecution_cases (m : OrderStateMachine) (execId : Nat) (quantity price : ℚ) :
    (m.executed = true ∧
      m.reportExecution execId quantity price = (.error .duplicateExecution, m)) ∨
    (m.executed = false ∧ m.state.isTerminal = true ∧
      m.reportExecution execId quantity price =
        (.error (.invalidTransition m.state .partiallyFilled), { m with executed := true })) ∨
    (m.executed = false ∧ m.state = .pending ∧
      ∃ target, m.reportExecution execId quantity price =
        (.error (.invalidTransition .pending target),
          { m with executed := true }.fill quantity price)) ∨
    (m.executed = false ∧ (m.state = .new ∨ m.state = .partiallyFilled) ∧
      m.reportExecution execId quantity price =
        (.ok ((m.settled quantity price).report execId (min quantity m.remainingQuantity) price),
          m.settled quantity price)) := by
  obtain ⟨order, state, filled, remaining, average, count, executed⟩ := m
  cases executed with
  | true => exact Or.inl ⟨rfl, rfl⟩
  | false =>
      right
      cases state with
      | filled | cancelled | rejected => exact Or.inl ⟨rfl, rfl, rfl⟩
      | pending =>
          refine Or.inr (Or.inl ⟨rfl, rfl, ?_⟩)
          by_cases h : remaining - min quantity remaining ≤ 0
          · exact ⟨.filled, by simp [reportExecution, OrderState.isTerminal, fill, transition,
              isValidTransition, h]⟩
          · exact ⟨.partiallyFilled, by simp [reportExecution, OrderState.isTerminal, fill,
              transition, isValidTransition, h]⟩
      | new | partiallyFilled =>
          refine Or.inr (Or.inr ⟨rfl, by simp, ?_⟩)
          by_cases h : remaining - min quantity remaining ≤ 0 <;>
            simp [reportExecution, OrderState.isTerminal, fill, transition, isValidTransition,
              settled, report, h]

/-- A transition either moves the state and nothing else, or fails and changes
nothing. -/
theorem transition_cases (m : OrderStateMachine) (newState : OrderState) :
    (m.state.isTerminal = false ∧
        m.transition newState = (.ok (), { m with state := newState })) ∨
      m.transition newState = (.error (.invalidTransition m.state newState), m) := by
  unfold transition
  split
  · rename_i h
    left
    refine ⟨?_, rfl⟩
    cases hs : m.state with
    | pending | new | partiallyFilled => rfl
    | filled | cancelled | rejected =>
        rw [hs] at h
        cases h
  · exact Or.inr rfl

end OrderStateMachine

end StopTrading.Routing
