import StopTrading.Execution.Conditional
import StopTrading.Library.Transition

/-!
# Conditional orders fire at most once

`History` tells orders with one id apart by the order of their additions.  Along every run an
added order is executed at most once, with a context that satisfies its expression, never
after a cancellation that was answered with true and never after an evaluation that found its
expiration passed (`allSteps_proper`).

A disabled router evaluates nothing: what its calls are given does not expire an order
(`not_forall_proper_outlived`).

### Design decisions

Ids are places, so they come back after `clear`, and "an order" cannot mean an id.  The history
gives every addition a number of its own, which travels with the child order through the router.
The router is generic in the child order and cannot look at the number; this is checked by its
type.

"Expired" can be said in two ways: an evaluation came past the expiration, or *somebody called*
`evaluate_and_execute` past it.  The two differ while the router is disabled.  `Proper` is stated
for either, and holds with the first.

### What is load-bearing

The invariant follows the marks.  An order that is spent is in the pool only with a mark, and
what has a mark is never executed; a mark is never taken away, and no two places have the same
number. The rest of `Inv` only connects what is in the pool with what was added.
-/

namespace StopTrading.Execution.Conditional

open Transition

universe u

variable {C : Type u}

/-! ## Histories -/

/-- A child order with the number of the addition it came with. -/
structure Tracked (C : Type u) where
  serial : Nat
  child : C
  deriving Repr, DecidableEq

/-- What an order was added with. -/
structure Added (C : Type u) where
  expression : ConditionalExpression
  childOrder : C
  expirationNs : Nat

/-- A call of the executor. -/
structure Invocation (C : Type u) where
  order : Tracked C
  ctx : MarketContext
  deriving Repr, DecidableEq

/-- A router with what was done to it: the orders that were added, the calls of the executor,
the orders whose cancellation was answered with true, the ones an evaluation found expired,
and the ones for which `evaluate_and_execute` was called past their expiration at all. -/
structure History (C : Type u) where
  router : ConditionalOrderRouter (Tracked C)
  added : List (Added C)
  invocations : List (Invocation C)
  cancelled : List Nat
  expired : List Nat
  outlived : List Nat

/-- A call of the router. -/
inductive Call (C : Type u) where
  | addOrder (expression : ConditionalExpression) (childOrder : C) (expirationNs : Nat)
  | cancelOrder (id : Nat)
  | evaluateAndExecute (ctx : MarketContext)
  | enable
  | disable
  | clear

namespace History

open ConditionalOrderRouter

/-- A new router. -/
def start : History C := ⟨.new, [], [], [], [], []⟩

/-- The orders in the pool whose expiration has passed. -/
def expiredAt (h : History C) (ctx : MarketContext) : List Nat :=
  (List.range h.router.orderCount).filterMap fun i =>
    (h.router.orders i).bind fun o =>
      if o.expiredAt ctx = true then some o.childOrder.serial else none

/-- One call. -/
def step (h : History C) : Call C → Option (History C)
  | .addOrder expression childOrder expirationNs =>
      match h.router.addOrder expression ⟨h.added.length, childOrder⟩ expirationNs with
      | (some _, router) =>
          some
            { h with
              router := router
              added := h.added ++ [⟨expression, childOrder, expirationNs⟩] }
      | (none, router) => some { h with router := router }
  | .cancelOrder id =>
      match h.router.cancelOrder id with
      | (true, router) =>
          some
            { h with
              router := router
              cancelled :=
                h.cancelled ++ ((h.router.orders (id - 1)).map (·.childOrder.serial)).toList }
      | (false, router) => some { h with router := router }
  | .evaluateAndExecute ctx =>
      let (router, calls) := h.router.evaluateAndExecute ctx
      some
        { h with
          router := router
          invocations := h.invocations ++ calls.map (⟨·, ctx⟩)
          expired := if h.router.enabled = true then h.expired ++ h.expiredAt ctx else h.expired
          outlived := h.outlived ++ h.expiredAt ctx }
  | .enable => some { h with router := h.router.enable }
  | .disable => some { h with router := h.router.disable }
  | .clear => some { h with router := h.router.clear }

/-- **What a call keeps**, given the orders that count as expired.  No added order is executed
twice; what is executed now was neither cancelled before nor is expired; every execution had
the child order that was added and a context that satisfies the expression; and the counter
of executions, a 64-bit word, counts them. -/
structure Proper (ended : History C → List Nat) (h : History C) (_ : Call C) (h' : History C) :
    Prop where
  /-- no order is executed twice -/
  once : (h'.invocations.map (·.order.serial)).Nodup
  /-- none after its end -/
  alive : ∀ x ∈ h'.invocations.drop h.invocations.length,
    x.order.serial ∉ h.cancelled ∧ x.order.serial ∉ ended h'
  /-- none without its condition -/
  satisfied : ∀ x ∈ h'.invocations, ∃ a, h'.added[x.order.serial]? = some a ∧
    x.order.child = a.childOrder ∧ a.expression.evaluate x.ctx = true
  /-- and all are counted -/
  executions : h'.router.executions = h'.invocations.length % 2 ^ 64

/-- The orders that were executed, cancelled or expired. -/
def spent (h : History C) : List Nat :=
  h.invocations.map (·.order.serial) ++ h.cancelled ++ h.expired

/-- **The invariant of a history.**  The pool has orders that were added, each in one place,
and an order that is spent is marked as done there. -/
structure Inv (h : History C) : Prop where
  /-- what is in the pool was added -/
  pool : ∀ i o, h.router.orders i = some o → i < h.router.orderCount ∧
    h.added[o.childOrder.serial]? = some ⟨o.expression, o.childOrder.child, o.expirationNs⟩
  /-- and is there once -/
  single : ∀ i j o o', h.router.orders i = some o → h.router.orders j = some o' →
    o.childOrder.serial = o'.childOrder.serial → i = j
  /-- only what was added is spent -/
  known : ∀ s ∈ h.spent, s < h.added.length
  /-- and then it has a mark -/
  marked : ∀ i o, h.router.orders i = some o → o.childOrder.serial ∈ h.spent → o.done = true
  /-- nothing was executed twice -/
  once : (h.invocations.map (·.order.serial)).Nodup
  /-- or without its condition -/
  satisfied : ∀ x ∈ h.invocations, ∃ a, h.added[x.order.serial]? = some a ∧
    x.order.child = a.childOrder ∧ a.expression.evaluate x.ctx = true
  /-- and the counter is right -/
  executions : h.router.executions = h.invocations.length % 2 ^ 64

/-- Nothing was added. -/
theorem inv_start : Inv (start : History C) where
  pool _ _ h := nomatch h
  single _ _ _ _ h := nomatch h
  known _ h := nomatch h
  marked _ _ h := nomatch h
  once := List.nodup_nil
  satisfied _ h := nomatch h
  executions := rfl

/-- A call that executes nothing and keeps the invariant is proper. -/
theorem Inv.proper {h h' : History C} (inv' : Inv h') {c : Call C}
    (same : h'.invocations = h.invocations) : Proper expired h c h' where
  once := inv'.once
  alive x hx := by
    rw [same, List.drop_length] at hx
    exact absurd hx List.not_mem_nil
  satisfied := inv'.satisfied
  executions := inv'.executions

/-- The switch and the clearing of the router. -/
theorem Inv.switch {h : History C} (inv : Inv h) (enabled : Bool) :
    Inv { h with router := { h.router with enabled := enabled } } :=
  ⟨inv.pool, inv.single, inv.known, inv.marked, inv.once, inv.satisfied, inv.executions⟩

/-- A cleared pool has no orders, and nothing that was executed is forgotten. -/
theorem Inv.clear {h : History C} (inv : Inv h) : Inv { h with router := h.router.clear } where
  pool _ _ h := nomatch h
  single _ _ _ _ h := nomatch h
  known := inv.known
  marked _ _ h := nomatch h
  once := inv.once
  satisfied := inv.satisfied
  executions := inv.executions

/-- An order that is added has a number of its own. -/
theorem Inv.addOrder {h : History C} (inv : Inv h) (expression : ConditionalExpression)
    (childOrder : C) (expirationNs id : Nat) :
    Inv { h with
      router :=
        { h.router with
          orders := Function.update h.router.orders h.router.orderCount
            (some ⟨id, expression, ⟨h.added.length, childOrder⟩, false, false, expirationNs⟩)
          orderCount := h.router.orderCount + 1 }
      added := h.added ++ [⟨expression, childOrder, expirationNs⟩] } := by
  have hold : ∀ i o, h.router.orders i = some o → i ≠ h.router.orderCount ∧
      o.childOrder.serial < h.added.length := by
    intro i o ho
    obtain ⟨hi, hadded⟩ := inv.pool i o ho
    exact ⟨hi.ne, (List.getElem?_eq_some_iff.mp hadded).1⟩
  have hfind : ∀ {s : Nat} {a : Added C}, h.added[s]? = some a →
      (h.added ++ [⟨expression, childOrder, expirationNs⟩])[s]? = some a := by
    intro s a hs
    rw [List.getElem?_append_left (List.getElem?_eq_some_iff.mp hs).1, hs]
  have hplace : ∀ i o, Function.update h.router.orders h.router.orderCount
      (some ⟨id, expression, ⟨h.added.length, childOrder⟩, false, false, expirationNs⟩) i =
        some o →
      (i = h.router.orderCount ∧
        o = ⟨id, expression, ⟨h.added.length, childOrder⟩, false, false, expirationNs⟩) ∨
      (i ≠ h.router.orderCount ∧ h.router.orders i = some o) := by
    intro i o ho
    by_cases hi : i = h.router.orderCount
    · subst hi
      rw [Function.update_self] at ho
      exact Or.inl ⟨rfl, (Option.some.inj ho).symm⟩
    · rw [Function.update_of_ne hi] at ho
      exact Or.inr ⟨hi, ho⟩
  -- the new order has a serial number of its own, and no old one is changed
  refine ⟨fun i o ho => ?_, fun i j o o' ho ho' hserial => ?_, fun s hs => ?_,
    fun i o ho hspent => ?_, inv.once, fun x hx => ?_, inv.executions⟩
  · rcases hplace i o ho with ⟨rfl, rfl⟩ | ⟨hi, ho⟩
    · exact ⟨Nat.lt_succ_self _, List.getElem?_concat_length⟩
    · obtain ⟨hi, hadded⟩ := inv.pool i o ho
      exact ⟨hi.trans (Nat.lt_succ_self _), hfind hadded⟩
  · rcases hplace i o ho with ⟨rfl, rfl⟩ | ⟨-, ho⟩ <;>
      rcases hplace j o' ho' with ⟨rfl, rfl⟩ | ⟨-, ho'⟩
    · rfl
    · exact absurd hserial (hold j o' ho').2.ne'
    · exact absurd hserial (hold i o ho).2.ne
    · exact inv.single i j o o' ho ho' hserial
  · rw [List.length_append]
    exact (inv.known s hs).trans_le (Nat.le_add_right _ _)
  · rcases hplace i o ho with ⟨rfl, rfl⟩ | ⟨-, ho⟩
    · exact absurd (inv.known _ hspent) (lt_irrefl _)
    · exact inv.marked i o ho hspent
  · obtain ⟨a, ha, hchild, hholds⟩ := inv.satisfied x hx
    exact ⟨a, hfind ha, hchild, hholds⟩

/-- The orders of a pool are those of another in their places, apart from their marks. -/
def SameOrders (orders orders' : Nat → Option (ConditionalOrder (Tracked C))) : Prop :=
  ∀ i o, orders' i = some o → ∃ p, orders i = some p ∧ o.expression = p.expression ∧
    o.childOrder = p.childOrder ∧ o.expirationNs = p.expirationNs

/-- Orders that differ in their marks are the orders that were added, -/
theorem Inv.pool_of_same {h : History C} (inv : Inv h)
    {orders' : Nat → Option (ConditionalOrder (Tracked C))}
    (same : SameOrders h.router.orders orders') {i : Nat} {o : ConditionalOrder (Tracked C)}
    (ho : orders' i = some o) : i < h.router.orderCount ∧
      h.added[o.childOrder.serial]? = some ⟨o.expression, o.childOrder.child, o.expirationNs⟩ := by
  obtain ⟨p, hp, hexpression, hchild, hexpiration⟩ := same i o ho
  rw [hexpression, hchild, hexpiration]
  exact inv.pool i p hp

/-- each in one place. -/
theorem Inv.single_of_same {h : History C} (inv : Inv h)
    {orders' : Nat → Option (ConditionalOrder (Tracked C))}
    (same : SameOrders h.router.orders orders') {i j : Nat} {o o' : ConditionalOrder (Tracked C)}
    (ho : orders' i = some o) (ho' : orders' j = some o')
    (hserial : o.childOrder.serial = o'.childOrder.serial) : i = j := by
  obtain ⟨p, hp, -, hchild, -⟩ := same i o ho
  obtain ⟨p', hp', -, hchild', -⟩ := same j o' ho'
  rw [hchild, hchild'] at hserial
  exact inv.single i j p p' hp hp' hserial

/-- An order that is cancelled is marked in its place. -/
theorem Inv.cancelOrder {h : History C} (inv : Inv h) {i : Nat}
    {o : ConditionalOrder (Tracked C)} (ho : h.router.orders i = some o) :
    Inv { h with
      router :=
        { h.router with
          orders := Function.update h.router.orders i (some { o with cancelled := true }) }
      cancelled := h.cancelled ++ [o.childOrder.serial] } := by
  have hplace : ∀ j p, Function.update h.router.orders i (some { o with cancelled := true }) j =
      some p → (j = i ∧ p = { o with cancelled := true }) ∨
        (j ≠ i ∧ h.router.orders j = some p) := by
    intro j p hp
    by_cases hj : j = i
    · subst hj
      rw [Function.update_self] at hp
      exact Or.inl ⟨rfl, (Option.some.inj hp).symm⟩
    · rw [Function.update_of_ne hj] at hp
      exact Or.inr ⟨hj, hp⟩
  have hsame : SameOrders h.router.orders
      (Function.update h.router.orders i (some { o with cancelled := true })) := by
    intro j p hp
    rcases hplace j p hp with ⟨rfl, rfl⟩ | ⟨-, hold⟩
    · exact ⟨o, ho, rfl, rfl, rfl⟩
    · exact ⟨p, hold, rfl, rfl, rfl⟩
  have hspent : ∀ s, s ∈ h.invocations.map (·.order.serial) ++
      (h.cancelled ++ [o.childOrder.serial]) ++ h.expired →
      s ∈ h.spent ∨ s = o.childOrder.serial := by
    intro s hs
    simp only [List.mem_append, List.mem_singleton] at hs
    simp only [spent, List.mem_append]
    tauto
  refine ⟨fun j p hp => inv.pool_of_same hsame hp,
    fun j k p q hp hq hserial => inv.single_of_same hsame hp hq hserial, fun s hs => ?_,
    fun j p hp hs => ?_, inv.once, inv.satisfied, inv.executions⟩
  · rcases hspent s hs with hold | rfl
    · exact inv.known s hold
    · exact (List.getElem?_eq_some_iff.mp (inv.pool i o ho).2).1
  · rcases hplace j p hp with ⟨rfl, rfl⟩ | ⟨hj, hp⟩
    · simp [ConditionalOrder.done]
    · rcases hspent _ hs with hold | heq
      · exact inv.marked j p hp hold
      · -- no other place has the order that was cancelled
        exact absurd (inv.single j i p o hp ho heq) hj

/-! ## An evaluation -/

/-- A visit changes marks only. -/
theorem visited_same (o : ConditionalOrder C) (ctx : MarketContext) :
    (o.visited ctx).expression = o.expression ∧ (o.visited ctx).childOrder = o.childOrder ∧
      (o.visited ctx).expirationNs = o.expirationNs := by
  unfold ConditionalOrder.visited
  split_ifs <;> exact ⟨rfl, rfl, rfl⟩

/-- A visit marks an order that is expired or fires, and keeps a mark. -/
theorem visited_done {o : ConditionalOrder C} {ctx : MarketContext}
    (h : o.done = true ∨ o.expiredAt ctx = true ∨ o.fires ctx = true) :
    (o.visited ctx).done = true := by
  unfold ConditionalOrder.visited
  split_ifs with hdone hexpired hholds
  · exact hdone
  · simp [ConditionalOrder.done]
  · simp [ConditionalOrder.done]
  · rcases h with h | h | h
    · exact absurd h hdone
    · exact absurd h hexpired
    · simp only [ConditionalOrder.fires, Bool.and_eq_true] at h
      exact absurd h.2 hholds

/-- An order fires if it is not done, not expired and satisfied. -/
theorem fires_iff {o : ConditionalOrder C} {ctx : MarketContext} :
    o.fires ctx = true ↔ o.done = false ∧ o.expiredAt ctx = false ∧
      o.expression.evaluate ctx = true := by
  simp [ConditionalOrder.fires, and_assoc]

/-- The expired orders are in the pool. -/
theorem mem_expiredAt {h : History C} (inv : Inv h) {ctx : MarketContext} {s : Nat} :
    s ∈ h.expiredAt ctx ↔ ∃ i o, h.router.orders i = some o ∧ o.expiredAt ctx = true ∧
      s = o.childOrder.serial := by
  simp only [expiredAt, List.mem_filterMap, List.mem_range, Option.bind_eq_some_iff,
    Option.ite_none_right_eq_some, Option.some.injEq]
  constructor
  · rintro ⟨i, -, o, ho, hexpired, rfl⟩
    exact ⟨i, o, ho, hexpired, rfl⟩
  · rintro ⟨i, o, ho, hexpired, rfl⟩
    exact ⟨i, (inv.pool i o ho).1, o, ho, hexpired, rfl⟩

/-- What is executed for a place is the child of an order that fires there. -/
theorem call_eq_some_iff {r : ConditionalOrderRouter C} {ctx : MarketContext} {i : Nat} {c : C} :
    r.call ctx i = some c ↔ ∃ o, r.orders i = some o ∧ o.fires ctx = true ∧ o.childOrder = c := by
  simp only [call, Option.bind_eq_some_iff, Option.ite_none_right_eq_some, Option.some.injEq]

section Evaluation

variable {h : History C} {ctx : MarketContext} {router : ConditionalOrderRouter (Tracked C)}
  {calls : List (Tracked C)}

/-- Every order of the pool is visited. -/
theorem Inv.visited_orders (inv : Inv h)
    (hvisited : Visited ctx (List.range h.router.orderCount) h.router router calls) (i : Nat) :
    router.orders i = (h.router.orders i).map (·.visited ctx) := by
  rw [hvisited.orders i]
  split_ifs with hi
  · rfl
  · cases horder : h.router.orders i with
    | none => rfl
    | some o => exact absurd (List.mem_range.mpr (inv.pool i o horder).1) hi

/-- What the executor is called with is in the pool and fires. -/
theorem mem_calls
    (hvisited : Visited ctx (List.range h.router.orderCount) h.router router calls)
    {c : Tracked C} (hc : c ∈ calls) :
    ∃ i o, h.router.orders i = some o ∧ o.fires ctx = true ∧ o.childOrder = c := by
  rw [hvisited.called, List.mem_filterMap] at hc
  obtain ⟨i, -, hcall⟩ := hc
  exact ⟨i, call_eq_some_iff.mp hcall⟩

/-- Nothing is executed twice in one evaluation. -/
theorem Inv.calls_nodup (inv : Inv h)
    (hvisited : Visited ctx (List.range h.router.orderCount) h.router router calls) :
    (calls.map (·.serial)).Nodup := by
  rw [hvisited.called, List.map_filterMap]
  refine List.Nodup.filterMap (fun i j s hi hj => ?_) List.nodup_range
  simp only [Option.mem_def, Option.map_eq_some_iff] at hi hj
  obtain ⟨c, hcall, rfl⟩ := hi
  obtain ⟨c', hcall', hserial⟩ := hj
  obtain ⟨o, ho, -, rfl⟩ := call_eq_some_iff.mp hcall
  obtain ⟨o', ho', -, rfl⟩ := call_eq_some_iff.mp hcall'
  exact inv.single i j o o' ho ho' hserial.symm

/-- What the executor is called with is not spent and not expired. -/
theorem Inv.call_alive (inv : Inv h)
    (hvisited : Visited ctx (List.range h.router.orderCount) h.router router calls)
    {c : Tracked C} (hc : c ∈ calls) : c.serial ∉ h.spent ∧ c.serial ∉ h.expiredAt ctx := by
  obtain ⟨i, o, ho, hfires, rfl⟩ := mem_calls hvisited hc
  obtain ⟨hdone, hexpired, -⟩ := fires_iff.mp hfires
  constructor
  · intro hspent
    exact absurd (inv.marked i o ho hspent) (by rw [hdone]; decide)
  · intro hmem
    obtain ⟨j, p, hp, hpExpired, hserial⟩ := (mem_expiredAt inv).mp hmem
    obtain rfl := inv.single i j o p ho hp hserial
    obtain rfl := Option.some.inj (ho.symm.trans hp)
    exact absurd hpExpired (by rw [hexpired]; decide)

/-- An order that is spent after an evaluation was spent before, expires or fires. -/
theorem Inv.spent_evaluate (inv : Inv h)
    (hvisited : Visited ctx (List.range h.router.orderCount) h.router router calls) {s : Nat}
    (hs : s ∈ (h.invocations.map (·.order.serial) ++ calls.map (·.serial)) ++ h.cancelled ++
      (h.expired ++ h.expiredAt ctx)) :
    s ∈ h.spent ∨ ∃ i o, h.router.orders i = some o ∧ s = o.childOrder.serial ∧
      (o.expiredAt ctx = true ∨ o.fires ctx = true) := by
  simp only [List.mem_append] at hs
  simp only [spent, List.mem_append]
  rcases hs with ((hs | hs) | hs) | (hs | hs)
  · exact Or.inl (Or.inl (Or.inl hs))
  · obtain ⟨c, hc, rfl⟩ := List.mem_map.mp hs
    obtain ⟨i, o, ho, hfires, rfl⟩ := mem_calls hvisited hc
    exact Or.inr ⟨i, o, ho, rfl, Or.inr hfires⟩
  · exact Or.inl (Or.inl (Or.inr hs))
  · exact Or.inl (Or.inr hs)
  · obtain ⟨i, o, ho, hexpired, rfl⟩ := (mem_expiredAt inv).mp hs
    exact Or.inr ⟨i, o, ho, rfl, Or.inl hexpired⟩

/-- **An evaluation keeps the invariant.** -/
theorem Inv.evaluate (inv : Inv h)
    (hvisited : Visited ctx (List.range h.router.orderCount) h.router router calls)
    (outlived : List Nat) :
    Inv { h with
      router := router
      invocations := h.invocations ++ calls.map (⟨·, ctx⟩)
      expired := h.expired ++ h.expiredAt ctx
      outlived := outlived } := by
  have hplace : ∀ i o, router.orders i = some o →
      ∃ p, h.router.orders i = some p ∧ o = p.visited ctx := by
    intro i o ho
    rw [inv.visited_orders hvisited, Option.map_eq_some_iff] at ho
    obtain ⟨p, hp, rfl⟩ := ho
    exact ⟨p, hp, rfl⟩
  have hsame : SameOrders h.router.orders router.orders := by
    intro i o ho
    obtain ⟨p, hp, rfl⟩ := hplace i o ho
    exact ⟨p, hp, visited_same p ctx⟩
  have hserials : (h.invocations ++ calls.map (⟨·, ctx⟩ : Tracked C → Invocation C)).map
      (·.order.serial) = h.invocations.map (·.order.serial) ++ calls.map (·.serial) := by
    rw [List.map_append, List.map_map]
    rfl
  refine ⟨fun i o ho => ?_, fun i j o o' ho ho' hserial => inv.single_of_same hsame ho ho' hserial,
    fun s hs => ?_, fun i o ho hs => ?_, ?_, fun x hx => ?_, ?_⟩
  · rw [hvisited.orderCount]
    exact inv.pool_of_same hsame ho
  · rw [spent, hserials] at hs
    rcases inv.spent_evaluate hvisited hs with hold | ⟨i, o, ho, rfl, -⟩
    · exact inv.known s hold
    · exact (List.getElem?_eq_some_iff.mp (inv.pool i o ho).2).1
  · obtain ⟨p, hp, rfl⟩ := hplace i o ho
    rw [spent, hserials, (visited_same p ctx).2.1] at hs
    rcases inv.spent_evaluate hvisited hs with hold | ⟨j, q, hq, hserial, hmarks⟩
    · exact visited_done (Or.inl (inv.marked i p hp hold))
    · -- what expires or fires is the order of this place
      obtain rfl := inv.single i j p q hp hq hserial
      obtain rfl := Option.some.inj (hp.symm.trans hq)
      exact visited_done (Or.inr hmarks)
  · rw [hserials, List.nodup_append]
    refine ⟨inv.once, inv.calls_nodup hvisited, fun s hs s' hs' => ?_⟩
    rintro rfl
    obtain ⟨c, hc, rfl⟩ := List.mem_map.mp hs'
    refine (inv.call_alive hvisited hc).1 ?_
    simp only [spent, List.mem_append]
    exact Or.inl (Or.inl hs)
  · rcases List.mem_append.mp hx with hold | hnew
    · exact inv.satisfied x hold
    · obtain ⟨c, hc, rfl⟩ := List.mem_map.mp hnew
      obtain ⟨i, o, ho, hfires, rfl⟩ := mem_calls hvisited hc
      exact ⟨_, (inv.pool i o ho).2, rfl, (fires_iff.mp hfires).2.2⟩
  · rw [hvisited.executions _ inv.executions, List.length_append, List.length_map]

end Evaluation

/-- **One call.** -/
theorem Inv.step {h h' : History C} (inv : Inv h) {c : Call C} (hstep : h.step c = some h') :
    Inv h' ∧ Proper expired h c h' := by
  cases c with
  | addOrder expression childOrder expirationNs =>
      simp only [History.step, ConditionalOrderRouter.addOrder] at hstep
      split_ifs at hstep
      · obtain rfl : h = h' := Option.some.inj hstep
        exact ⟨inv, inv.proper rfl⟩
      · obtain rfl : h = h' := Option.some.inj hstep
        exact ⟨inv, inv.proper rfl⟩
      · obtain rfl : _ = h' := Option.some.inj hstep
        have inv' := inv.addOrder expression childOrder expirationNs (h.router.orderCount + 1)
        exact ⟨inv', inv'.proper rfl⟩
  | cancelOrder id =>
      simp only [History.step, ConditionalOrderRouter.cancelOrder] at hstep
      split_ifs at hstep
      · obtain rfl : h = h' := Option.some.inj hstep
        exact ⟨inv, inv.proper rfl⟩
      · cases horder : h.router.orders (id - 1) with
        | none =>
            simp only [horder] at hstep
            obtain rfl : h = h' := Option.some.inj hstep
            exact ⟨inv, inv.proper rfl⟩
        | some o =>
            simp only [horder] at hstep
            split_ifs at hstep
            · obtain rfl : _ = h' := Option.some.inj hstep
              have inv' := inv.cancelOrder horder
              exact ⟨inv', inv'.proper rfl⟩
            · obtain rfl : h = h' := Option.some.inj hstep
              exact ⟨inv, inv.proper rfl⟩
  | evaluateAndExecute ctx =>
      cases henabled : h.router.enabled with
      | false =>
          -- nothing is evaluated
          have hcalls : h.router.evaluateAndExecute ctx = (h.router, []) := by
            rw [ConditionalOrderRouter.evaluateAndExecute, if_pos henabled]
          have hnot : ¬ h.router.enabled = true := by rw [henabled]; decide
          simp only [History.step, hcalls, if_neg hnot, List.map_nil, List.append_nil] at hstep
          obtain rfl := Option.some.inj hstep
          have inv' : Inv { h with outlived := h.outlived ++ h.expiredAt ctx } :=
            ⟨inv.pool, inv.single, inv.known, inv.marked, inv.once, inv.satisfied,
              inv.executions⟩
          exact ⟨inv', inv'.proper rfl⟩
      | true =>
          have hvisited := evaluateAndExecute_visited henabled ctx
          have inv' := inv.evaluate hvisited (h.outlived ++ h.expiredAt ctx)
          simp only [History.step, if_pos henabled] at hstep
          obtain rfl := Option.some.inj hstep
          refine ⟨inv', inv'.once, fun x hx => ?_, inv'.satisfied, inv'.executions⟩
          rw [List.drop_left] at hx
          obtain ⟨c, hc, rfl⟩ := List.mem_map.mp hx
          obtain ⟨hspent, hexpired⟩ := inv.call_alive hvisited hc
          simp only [spent, List.mem_append, not_or] at hspent
          exact ⟨hspent.1.2, fun hmem =>
            (List.mem_append.mp hmem).elim hspent.2 hexpired⟩
  | enable =>
      obtain rfl : _ = h' := Option.some.inj hstep
      exact ⟨inv.switch true, (inv.switch true).proper rfl⟩
  | disable =>
      obtain rfl : _ = h' := Option.some.inj hstep
      exact ⟨inv.switch false, (inv.switch false).proper rfl⟩
  | clear =>
      obtain rfl : _ = h' := Option.some.inj hstep
      exact ⟨inv.clear, inv.clear.proper rfl⟩

/-- **Every call of every run is proper**, where an order is expired once an evaluation of
the enabled router came past its expiration. -/
theorem allSteps_proper (calls : List (Call C)) :
    AllSteps step (Proper expired) (start : History C) calls :=
  AllSteps.of_invariant
    (fun h c h' (inv : Inv h) (hstep : h.step c = some h') (_ : True) => inv.step hstep)
    calls start inv_start (allSteps_of_forall (fun _ _ _ _ => trivial) calls start)

/-- An order that expires at 10, a call at 20 of the disabled router and a call at 5 of the
enabled one. -/
def callsWhileDisabled : List (Call ChildOrder) :=
  [.addOrder (ConditionalExpression.new.withCondition (.priceAbove 100))
      ⟨true, 100, 0, .immediateOrCancel, 1⟩ 10,
    .disable,
    .evaluateAndExecute { MarketContext.default with currentPrice := 200, timestampNs := 20 },
    .enable,
    .evaluateAndExecute { MarketContext.default with currentPrice := 200, timestampNs := 5 }]

/-- The order is executed at the second of the calls. -/
theorem not_forall_proper_outlived :
    ¬ ∀ calls : List (Call ChildOrder), AllSteps step (Proper outlived) start calls := by
  intro h
  have hsteps := h callsWhileDisabled
  obtain ⟨-, -, -, -, ⟨-, halive, -, -⟩, -⟩ := hsteps
  have hexecuted := halive ⟨⟨0, ⟨true, 100, 0, .immediateOrCancel, 1⟩⟩,
    { MarketContext.default with currentPrice := 200, timestampNs := 5 }⟩ (by decide +kernel)
  exact hexecuted.2 (by decide +kernel)

end History

end StopTrading.Execution.Conditional
