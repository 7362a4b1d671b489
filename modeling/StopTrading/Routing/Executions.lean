import StopTrading.Routing.OrderStateMachine
import StopTrading.Library.Transition
import Mathlib.Tactic.FieldSimp
import Mathlib.Tactic.Ring

/-!
# Executions of an activated order

An `Account` follows the executions reported for one order: which identifiers
have been seen, and which executions were applied with how much of their
quantity.  `AppliedOnce` is what the reports are for: a new identifier of an
open order is applied, a repeated one is rejected without effect, and the
quantities of the machine are the totals of the applied executions.

The totals are always right (`Settled`), since an execution is clamped to what
remains and the average is updated with the clamped quantity.  What fails is the
other part: the flag that recognises a repeated execution does not look at the
identifier.  It is set by the first execution and refuses every later one, so
`AppliedOnce` holds for just those sequences in which no later execution had to
be applied (`appliedOnce_iff_singleFill`): the first execution fills the order,
or all later ones repeat its identifier.

### What is load-bearing

The flag `executed` is set by the first execution and never cleared.  From then on the machine
does not change (`outcome_executed`), so the totals, once right, stay right, and whether a report
is as it should be depends on the order being closed and on the identifiers seen.  Both are known
after the first execution: this is how a condition on a whole run becomes one on its first
element and on the identifiers of the others.

### Design decisions

The account keeps what was applied with the clamped quantity.  The order is filled by less than
was reported if the last execution is too large, and the average is taken over what was counted.
-/

namespace StopTrading.Routing

open Transition

/-- The arguments of one call of `report_execution`. -/
structure Execution where
  execId : Nat
  quantity : ℚ
  price : ℚ
  deriving Repr, DecidableEq

/-- A machine, the identifiers reported to it, and the (clamped) quantity and the
price of each applied execution. -/
structure Account where
  machine : OrderStateMachine
  seen : List Nat
  applied : List (ℚ × ℚ)

namespace Account

/-- The result of reporting an execution. -/
def outcome (a : Account) (e : Execution) :
    Except OrderStateError ExecutionReport × OrderStateMachine :=
  a.machine.reportExecution e.execId e.quantity e.price

/-- One report. -/
def step (a : Account) (e : Execution) : Option Account :=
  some
    { machine := (a.outcome e).2
      seen := e.execId :: a.seen
      applied :=
        match (a.outcome e).1 with
        | .ok _ => (min e.quantity a.machine.remainingQuantity, e.price) :: a.applied
        | .error _ => a.applied }

/-- **The quantities of the machine are the totals of the applied executions.** -/
structure Settled (total : ℚ) (a : Account) : Prop where
  /-- What is filled and what remains are the order. -/
  total_eq : a.machine.filledQuantity + a.machine.remainingQuantity = total
  /-- What is filled is what was applied, -/
  filled_eq : a.machine.filledQuantity = (a.applied.map fun x => x.1).sum
  /-- at the average price. -/
  value_eq : a.machine.averageFillPrice * a.machine.filledQuantity =
    (a.applied.map fun x => x.2 * x.1).sum
  filled_iff : a.machine.state = .filled ↔ a.machine.remainingQuantity ≤ 0

/-- The totals do not depend on the identifiers seen. -/
theorem Settled.see {total : ℚ} {a : Account} (h : a.Settled total) (execId : Nat) :
    Settled total { a with seen := execId :: a.seen } :=
  ⟨h.total_eq, h.filled_eq, h.value_eq, h.filled_iff⟩

/-- **Every execution is applied exactly once.** -/
structure AppliedOnce (total : ℚ) (a : Account) (e : Execution) (a' : Account) : Prop where
  /-- A new execution of an open order is applied, -/
  applies : e.execId ∉ a.seen → a.machine.state.isTerminal = false →
    ∃ report, (a.outcome e).1 = .ok report
  /-- and one that was seen is refused without effect. -/
  rejects : e.execId ∈ a.seen →
    (∃ error, (a.outcome e).1 = .error error) ∧ a'.machine = a.machine
  settled : a'.Settled total

/-- An order after `new` and `activate`. -/
def activated (order : Order) : Account := ⟨(OrderStateMachine.new order).activate.2, [], []⟩

/-- **No execution after the first has to be applied**: the first one fills the
order, or the others repeat its identifier. -/
def SingleFill (total : ℚ) : List Execution → Prop
  | [] => True
  | e :: rest => total ≤ e.quantity ∨ ∀ e' ∈ rest, e'.execId = e.execId

/-! ## The first execution -/

/-- The first execution of an activated order is applied. -/
theorem outcome_activated (order : Order) (e : Execution) :
    (activated order).outcome e =
      (.ok (((activated order).machine.settled e.quantity e.price).report e.execId
          (min e.quantity order.quantity) e.price),
        (activated order).machine.settled e.quantity e.price) := by
  rcases (activated order).machine.reportExecution_cases e.execId e.quantity e.price with
    ⟨h, -⟩ | ⟨-, h, -⟩ | ⟨-, h, -⟩ | ⟨-, -, h⟩
  · cases h
  · cases h
  · cases h
  · exact h

/-- The account after the first execution. -/
def afterFirst (order : Order) (e : Execution) : Account where
  machine := (activated order).machine.settled e.quantity e.price
  seen := [e.execId]
  applied := [(min e.quantity order.quantity, e.price)]

/-- **The first report** is applied. -/
theorem step_activated (order : Order) (e : Execution) :
    (activated order).step e = some (afterFirst order e) := by
  rw [step, outcome_activated]
  rfl

/-- After the first execution the order is filled or partially filled. -/
theorem isTerminal_afterFirst (order : Order) (e : Execution) :
    (afterFirst order e).machine.state.isTerminal = true ↔ order.quantity ≤ e.quantity := by
  show (if order.quantity - min e.quantity order.quantity ≤ 0 then OrderState.filled
    else .partiallyFilled).isTerminal = true ↔ _
  split
  · rename_i h
    rw [sub_nonpos, le_min_iff] at h
    exact iff_of_true rfl h.1
  · rename_i h
    rw [sub_nonpos, le_min_iff, and_iff_left le_rfl] at h
    exact iff_of_false Bool.false_ne_true h

/-- The totals after the first execution. -/
theorem settled_afterFirst (order : Order) (e : Execution) (horder : 0 < order.quantity)
    (he : 0 < e.quantity) : (afterFirst order e).Settled order.quantity := by
  have hpos : 0 < min e.quantity order.quantity := lt_min he horder
  refine ⟨?_, ?_, ?_, ?_⟩
  · show 0 + min e.quantity order.quantity +
      (order.quantity - min e.quantity order.quantity) = order.quantity
    ring
  · show 0 + min e.quantity order.quantity = min e.quantity order.quantity + 0
    ring
  · show (if 0 + min e.quantity order.quantity > 0 then
        (0 * 0 + e.price * min e.quantity order.quantity) / (0 + min e.quantity order.quantity)
      else e.price) * (0 + min e.quantity order.quantity) =
      e.price * min e.quantity order.quantity + 0
    rw [zero_add, if_pos hpos]
    field_simp
    ring
  · show (if order.quantity - min e.quantity order.quantity ≤ 0 then OrderState.filled
      else .partiallyFilled) = .filled ↔ order.quantity - min e.quantity order.quantity ≤ 0
    split
    · rename_i h
      exact iff_of_true rfl h
    · rename_i h
      exact iff_of_false nofun h

/-! ## The executions after it -/

/-- **Once the flag is set every report is refused.** -/
theorem outcome_executed {a : Account} (h : a.machine.executed = true) (e : Execution) :
    a.outcome e = (.error .duplicateExecution, a.machine) := by
  rcases a.machine.reportExecution_cases e.execId e.quantity e.price with
    ⟨-, heq⟩ | ⟨hclear, -⟩ | ⟨hclear, -⟩ | ⟨hclear, -⟩
  · exact heq
  all_goals rw [h] at hclear; cases hclear

/-- **Any later report** is refused, and changes nothing but what was seen. -/
theorem step_executed {a : Account} (h : a.machine.executed = true) (e : Execution) :
    a.step e = some { a with seen := e.execId :: a.seen } := by
  rw [step, outcome_executed h]

/-- One report with the flag set is as it should be when the order is closed or
the identifier is known. -/
theorem appliedOnce_executed {total : ℚ} {a : Account} (h : a.machine.executed = true)
    (hsettled : a.Settled total) (e : Execution) :
    AppliedOnce total a e { a with seen := e.execId :: a.seen } ↔
      a.machine.state.isTerminal = true ∨ e.execId ∈ a.seen := by
  constructor
  · intro happlied
    by_contra hopen
    rw [not_or, Bool.not_eq_true] at hopen
    obtain ⟨report, hok⟩ := happlied.applies hopen.2 hopen.1
    rw [outcome_executed h] at hok
    cases hok
  · intro hclosed
    refine ⟨fun hfresh hopen => ?_, fun _ => ⟨⟨_, by rw [outcome_executed h]⟩, rfl⟩,
      hsettled.see e.execId⟩
    rcases hclosed with hterminal | hseen
    · rw [hterminal] at hopen
      cases hopen
    · exact absurd hseen hfresh

/-- The run after the flag is set: it is right when the order is closed, and
otherwise when it repeats known identifiers. -/
theorem allSteps_executed {total : ℚ} (rest : List Execution) :
    ∀ a : Account, a.machine.executed = true → a.Settled total →
      (AllSteps step (AppliedOnce total) a rest ↔
        a.machine.state.isTerminal = true ∨ ∀ e ∈ rest, e.execId ∈ a.seen) := by
  induction rest with
  | nil =>
      intro a _ _
      exact iff_of_true trivial (Or.inr nofun)
  | cons e rest ih =>
      intro a hexecuted hsettled
      have hrest := ih { a with seen := e.execId :: a.seen } hexecuted (hsettled.see e.execId)
      rw [allSteps_cons_some (step_executed hexecuted e),
        appliedOnce_executed hexecuted hsettled e, hrest, List.forall_mem_cons]
      constructor
      · rintro ⟨hterminal | hseen, hrest⟩
        · exact Or.inl hterminal
        · refine hrest.imp_right fun hrest => ⟨hseen, fun e' he' => ?_⟩
          rcases List.mem_cons.mp (hrest e' he') with heq | hmem
          · exact heq ▸ hseen
          · exact hmem
      · rintro (hterminal | ⟨hseen, hrest⟩)
        · exact ⟨Or.inl hterminal, Or.inl hterminal⟩
        · exact ⟨Or.inr hseen, Or.inr fun e' he' => List.mem_cons_of_mem _ (hrest e' he')⟩

/-- **When executions are applied exactly once.**  For every activated order and
every sequence of executions of positive quantity: exactly when no execution
after the first had to be applied. -/
theorem appliedOnce_iff_singleFill (order : Order) (horder : 0 < order.quantity)
    (executions : List Execution) (hquantity : ∀ e ∈ executions, 0 < e.quantity) :
    AllSteps step (AppliedOnce order.quantity) (activated order) executions ↔
      SingleFill order.quantity executions := by
  cases executions with
  | nil => exact Iff.rfl
  | cons e rest =>
      have hsettled := settled_afterFirst order e horder (hquantity e List.mem_cons_self)
      have hfirst : AppliedOnce order.quantity (activated order) e (afterFirst order e) :=
        ⟨fun _ _ => ⟨_, by rw [outcome_activated]⟩, nofun, hsettled⟩
      rw [allSteps_cons_some (step_activated order e), and_iff_right hfirst,
        allSteps_executed rest _ rfl hsettled, isTerminal_afterFirst]
      show _ ↔ order.quantity ≤ e.quantity ∨ ∀ e' ∈ rest, e'.execId = e.execId
      simp only [afterFirst, List.mem_singleton]

/-- The theorem for one execution reported twice. -/
theorem appliedOnce_repeated :
    AllSteps step (AppliedOnce 100) (activated ⟨1, 100⟩) [⟨1, 50, 50000⟩, ⟨1, 50, 50000⟩] := by
  refine (appliedOnce_iff_singleFill ⟨1, 100⟩ (by norm_num) _ ?_).mpr (Or.inr ?_)
  · simp
  · simp

/-- **Two halves of an order are not both applied**: the second is refused as a
duplicate although its identifier is new and the order is open. -/
theorem not_forall_appliedOnce :
    ¬ ∀ (order : Order) (executions : List Execution), 0 < order.quantity →
      (∀ e ∈ executions, 0 < e.quantity) →
      AllSteps step (AppliedOnce order.quantity) (activated order) executions := by
  intro h
  obtain ⟨-, hsecond, -⟩ := h ⟨1, 100⟩ [⟨1, 50, 50000⟩, ⟨2, 50, 50000⟩] (by norm_num) (by simp)
  obtain ⟨report, hok⟩ := hsecond.applies (by decide +kernel) (by decide +kernel)
  rw [outcome_executed (by decide +kernel)] at hok
  cases hok

end Account

end StopTrading.Routing
