import StopTrading.Routing.OrderStateMachine
import StopTrading.Library.Transition

/-!
# Errors that leave a trace

The machine is driven by five operations, `perform` is one of them and `step`
keeps the machine.  An operation that returns an error should be as if it had
not been called: `NoTrace` asks that of the observable fields and of the
outcomes of every later sequence of operations.

Only `report_execution` can return an error after it has written something.
Its four cases leave two that do:

* on a pending order the fill is stored before the transition fails;
* on a closed order nothing observable is written, but the flag is set, and the
  next report is answered `DuplicateExecution` instead of `InvalidTransition`.

Both need the flag to be clear, and every other error leaves the machine as it
was (`noTrace_iff_reportsOpen`).  Closed orders stay closed in any case
(`final_perform`).

### What is load-bearing

`NoTrace` quantifies over all later operations, so that a trace may be hidden in a field that is
not observable.  The flag is such a field.  To show that it is one, `outcomes_setExecuted_ne`
gives operations after which two machines that differ in the flag return different results; to
show that nothing else is, an operation that fails otherwise leaves the whole machine as it was.

### Design decisions

`observable` leaves out the flag on purpose: no operation returns it.  If it were included, every
error that sets it would leave a trace by definition, and the theorem would not say that anyone
can tell.
-/

namespace StopTrading.Routing

open Transition

/-- The operations on an order. -/
inductive Operation where
  | activate
  | transition (newState : OrderState)
  | reportExecution (execId : Nat) (quantity price : ℚ)
  | cancel
  | reject
  deriving Repr, DecidableEq

/-- The operation reports an execution. -/
def Operation.isReport : Operation → Bool
  | .reportExecution _ _ _ => true
  | _ => false

/-- The result of an operation: the report is `none` for those that return no
value. -/
abbrev Outcome := Except OrderStateError (Option ExecutionReport)

namespace OrderStateMachine

/-- One operation: its result and the machine after it. -/
def perform (m : OrderStateMachine) : Operation → Outcome × OrderStateMachine
  | .activate => m.activate.map (Except.map fun _ => none) id
  | .transition newState => (m.transition newState).map (Except.map fun _ => none) id
  | .reportExecution execId quantity price =>
      (m.reportExecution execId quantity price).map (Except.map some) id
  | .cancel => m.cancel.map (Except.map fun _ => none) id
  | .reject => m.reject.map (Except.map fun _ => none) id

/-- The machine after an operation. -/
def step (m : OrderStateMachine) (op : Operation) : Option OrderStateMachine :=
  some (m.perform op).2

/-- The results of a sequence of operations. -/
def outcomes : OrderStateMachine → List Operation → List Outcome
  | _, [] => []
  | m, op :: ops => (m.perform op).1 :: outcomes (m.perform op).2 ops

/-- The fields an error must leave alone. -/
def observable (m : OrderStateMachine) : OrderState × ℚ × ℚ × ℚ × Nat :=
  (m.state, m.filledQuantity, m.remainingQuantity, m.averageFillPrice, m.fillCount)

/-- **An error leaves no trace**: neither in the fields nor in the results of any
later operations. -/
def NoTrace (m : OrderStateMachine) (op : Operation) (m' : OrderStateMachine) : Prop :=
  (∃ error, (m.perform op).1 = .error error) →
    m'.observable = m.observable ∧ ∀ ops, m'.outcomes ops = m.outcomes ops

/-- **Terminal states are final**: the state and the quantities stay. -/
def Final (m : OrderStateMachine) (_ : Operation) (m' : OrderStateMachine) : Prop :=
  m.state.isTerminal = true → m'.observable = m.observable

/-- **No execution is reported, while the flag is clear, of an order that is not
open.** -/
def ReportsOpen (m : OrderStateMachine) (op : Operation) (_ : OrderStateMachine) : Prop :=
  op.isReport = true → m.executed = false → m.state = .new ∨ m.state = .partiallyFilled

/-! ## Operations other than reports -/

/-- `cancel` moves an order that is not terminal, or changes nothing. -/
theorem cancel_cases (m : OrderStateMachine) :
    (m.state.isTerminal = false ∧ m.cancel = (.ok (), { m with state := .cancelled })) ∨
      ∃ error, m.cancel = (.error error, m) := by
  unfold cancel
  split
  · exact Or.inr ⟨_, rfl⟩
  · exact (m.transition_cases .cancelled).imp_right fun h => ⟨_, h⟩

/-- `reject` moves an order that is not terminal, or changes nothing. -/
theorem reject_cases (m : OrderStateMachine) :
    (m.state.isTerminal = false ∧ m.reject = (.ok (), { m with state := .rejected })) ∨
      ∃ error, m.reject = (.error error, m) := by
  unfold reject
  split
  · exact Or.inr ⟨_, rfl⟩
  · exact (m.transition_cases .rejected).imp_right fun h => ⟨_, h⟩

/-- **What an operation does**, unless it reports an execution: it succeeds on an
order that is not terminal, or it fails and changes nothing. -/
theorem perform_cases (m : OrderStateMachine) (op : Operation)
    (hop : op.isReport = false) :
    (m.state.isTerminal = false ∧ (m.perform op).1 = .ok none) ∨
      ∃ error, m.perform op = (.error error, m) := by
  cases op with
  | reportExecution => cases hop
  | activate =>
      rcases m.transition_cases .new with ⟨hopen, h⟩ | h
      · exact Or.inl ⟨hopen, by rw [perform, activate, h]; rfl⟩
      · exact Or.inr ⟨_, by rw [perform, activate, h]; rfl⟩
  | transition newState =>
      rcases m.transition_cases newState with ⟨hopen, h⟩ | h
      · exact Or.inl ⟨hopen, by rw [perform, h]; rfl⟩
      · exact Or.inr ⟨_, by rw [perform, h]; rfl⟩
  | cancel =>
      rcases m.cancel_cases with ⟨hopen, h⟩ | ⟨error, h⟩
      · exact Or.inl ⟨hopen, by rw [perform, h]; rfl⟩
      · exact Or.inr ⟨error, by rw [perform, h]; rfl⟩
  | reject =>
      rcases m.reject_cases with ⟨hopen, h⟩ | ⟨error, h⟩
      · exact Or.inl ⟨hopen, by rw [perform, h]; rfl⟩
      · exact Or.inr ⟨error, by rw [perform, h]; rfl⟩

/-- An operation that changes nothing leaves no trace. -/
theorem noTrace_self (m : OrderStateMachine) (op : Operation) : m.NoTrace op m :=
  fun _ => ⟨rfl, fun _ => rfl⟩

/-! ## Reports -/

/-- The count of fills tells that a fill was stored. -/
theorem observable_fill_ne (m : OrderStateMachine) (quantity price : ℚ) :
    ({ m with executed := true }.fill quantity price).observable ≠ m.observable := by
  intro h
  have hcount : (m.fillCount + 1) % 2 ^ 64 = m.fillCount :=
    congrArg (fun o => o.2.2.2.2) h
  omega

/-- A report tells whether the flag of a closed order has been set. -/
theorem outcomes_setExecuted_ne (m : OrderStateMachine) (hclear : m.executed = false)
    (hterminal : m.state.isTerminal = true) :
    ∃ ops, { m with executed := true }.outcomes ops ≠ m.outcomes ops := by
  refine ⟨[.reportExecution 0 0 0], fun h => ?_⟩
  have hhead := (List.cons.inj h).1
  simp [perform, reportExecution, hclear, hterminal, Except.map] at hhead

/-- **When a report leaves no trace.** -/
theorem noTrace_report_iff (m : OrderStateMachine) (execId : Nat) (quantity price : ℚ) :
    m.NoTrace (.reportExecution execId quantity price)
        (m.reportExecution execId quantity price).2 ↔
      (m.executed = false → m.state = .new ∨ m.state = .partiallyFilled) := by
  rcases m.reportExecution_cases execId quantity price with
    ⟨hset, heq⟩ | ⟨hclear, hterminal, heq⟩ | ⟨hclear, hpending, target, heq⟩ | ⟨hclear, hopen, heq⟩
  · rw [heq, hset]
    exact iff_of_true (m.noTrace_self _) nofun
  · refine iff_of_false (fun h => ?_) (fun h => ?_)
    · obtain ⟨ops, hne⟩ := m.outcomes_setExecuted_ne hclear hterminal
      rw [heq] at h
      exact hne ((h ⟨_, by rw [perform, heq]; rfl⟩).2 ops)
    · rcases h hclear with hstate | hstate <;> rw [hstate] at hterminal <;> cases hterminal
  · refine iff_of_false (fun h => ?_) (fun h => ?_)
    · rw [heq] at h
      exact m.observable_fill_ne quantity price (h ⟨_, by rw [perform, heq]; rfl⟩).1
    · rcases h hclear with hstate | hstate <;> rw [hstate] at hpending <;> cases hpending
  · refine iff_of_true (fun herror => ?_) (fun _ => hopen)
    obtain ⟨error, herror⟩ := herror
    rw [perform, heq] at herror
    cases herror

/-! ## Every operation -/

/-- An operation other than a report leaves no trace. -/
theorem noTrace_perform (m : OrderStateMachine) (op : Operation)
    (hop : op.isReport = false) :
    m.NoTrace op (m.perform op).2 := by
  rcases m.perform_cases op hop with ⟨-, hok⟩ | ⟨error, heq⟩
  · rintro ⟨error, herror⟩
    rw [hok] at herror
    cases herror
  · rw [heq]
    exact m.noTrace_self op

/-- **When an operation leaves no trace.** -/
theorem noTrace_iff_reportsOpen (m : OrderStateMachine) (op : Operation) :
    m.NoTrace op (m.perform op).2 ↔ m.ReportsOpen op (m.perform op).2 := by
  cases op with
  | reportExecution execId quantity price =>
      refine (m.noTrace_report_iff execId quantity price).trans ⟨fun h _ => h, fun h => h rfl⟩
  | activate | transition | cancel | reject =>
      exact iff_of_true (m.noTrace_perform _ rfl) nofun

/-- A report on a closed order leaves the state and the quantities. -/
theorem final_report (m : OrderStateMachine) (execId : Nat) (quantity price : ℚ) :
    m.Final (.reportExecution execId quantity price)
      (m.reportExecution execId quantity price).2 := by
  intro hterminal
  rcases m.reportExecution_cases execId quantity price with
    ⟨-, heq⟩ | ⟨-, -, heq⟩ | ⟨-, hpending, -⟩ | ⟨-, hopen, -⟩
  · rw [heq]
  · rw [heq]
    rfl
  · rw [hpending] at hterminal
    cases hterminal
  · rcases hopen with hstate | hstate <;> rw [hstate] at hterminal <;> cases hterminal

/-- **Terminal states are final.** -/
theorem final_perform (m : OrderStateMachine) (op : Operation) : m.Final op (m.perform op).2 := by
  cases hop : op.isReport with
  | true =>
      cases op with
      | reportExecution execId quantity price => exact m.final_report execId quantity price
      | activate | transition | cancel | reject => cases hop
  | false =>
      intro hterminal
      rcases m.perform_cases op hop with ⟨hopen, -⟩ | ⟨error, heq⟩
      · rw [hterminal] at hopen
        cases hopen
      · rw [heq]

/-- **When errors leave no trace.**  For every order and every sequence of
operations terminal states are final; and all errors leave no trace just when no
execution is reported, while the flag is clear, of an order that is not open. -/
theorem noTrace_and_final_iff (order : Order) (ops : List Operation) :
    (AllSteps step Final (new order) ops) ∧
      (AllSteps step ReportsOpen (new order) ops ↔
        AllSteps step (fun m op m' => m.NoTrace op m' ∧ m.Final op m') (new order) ops) := by
  have hfinal : ∀ (m : OrderStateMachine) (op : Operation) (m' : OrderStateMachine),
      m.step op = some m' → m.Final op m' := by
    intro m op m' hstep
    exact Option.some.inj hstep ▸ m.final_perform op
  have htrace : ∀ (m : OrderStateMachine) (op : Operation) (m' : OrderStateMachine),
      m.step op = some m' → (m.ReportsOpen op m' ↔ m.NoTrace op m' ∧ m.Final op m') := by
    intro m op m' hstep
    rw [and_iff_left (hfinal m op m' hstep)]
    exact Option.some.inj hstep ▸ (m.noTrace_iff_reportsOpen op).symm
  exact ⟨allSteps_of_forall hfinal ops _, allSteps_congr htrace ops _⟩

/-- **An error that leaves a trace**: an execution reported before the order is
activated fails, and is stored. -/
theorem not_forall_noTrace :
    ¬ ∀ (order : Order) (ops : List Operation),
      AllSteps step (fun m op m' => m.NoTrace op m' ∧ m.Final op m') (new order) ops := by
  intro h
  obtain ⟨⟨htrace, -⟩, -⟩ := h ⟨1, 100⟩ [.reportExecution 1 50 50000]
  have hobservable := (htrace ⟨.invalidTransition .pending .partiallyFilled, by decide +kernel⟩).1
  have hcount := congrArg (fun o => o.2.2.2.2) hobservable
  revert hcount
  decide +kernel

end OrderStateMachine

end StopTrading.Routing
